import EnterpriseAssistant.Lib.Redis

/-!
# Refresh tokens and token versions

`app/modules/authn/service.py`: the text of a refresh token, the Redis keys, and the Redis
commands the handlers run.  `sha256` is `hashlib.sha256(..).hexdigest()`, a parameter here.

The time to live of an entry is not part of the value: an entry may vanish at any moment
(`Authn/Machine.lean`).
-/

namespace EnterpriseAssistant.Authn

open Py

/-! ## The token text -/

/-- The two segments of a refresh token. -/
structure RefreshTokenPair where
  rid : Str
  secret : Str
deriving DecidableEq, Repr

def refreshSeparator : Char := '.'

def maxRefreshTokenLen : Nat := 4096
def maxRidLen : Nat := 64
def maxSecretLen : Nat := 256

/-- `[0-9a-fA-F]`. -/
def isHex (c : Char) : Bool :=
  c.isDigit || ('a' ≤ c && c ≤ 'f') || ('A' ≤ c && c ≤ 'F')

/-- Groups of hex digits of the given lengths, with `-` between them and nothing after. -/
def hexGroups : List Nat → Str → Bool
  | [], s => s.isEmpty
  | [n], s => s.length == n && s.all isHex
  | n :: ns, s =>
    (s.take n).length == n && (s.take n).all isHex && s[n]? == some '-'
      && hexGroups ns (s.drop (n + 1))

/-- `[A-Za-z0-9._~-]`. -/
def isSafe (c : Char) : Bool :=
  c.isAlphanum || c == '.' || c == '_' || c == '~' || c == '-'

/-- `$` also matches in front of a final newline. -/
def atEnd (body : Str → Bool) (s : Str) : Bool :=
  body s || (s.getLast? == some '\n' && body s.dropLast)

/-- `_RE_UUID.match`. -/
def reUuid : Str → Bool := atEnd (hexGroups [8, 4, 4, 4, 12])

/-- `_RE_SAFE_SEG.match`. -/
def reSafeSeg : Str → Bool := atEnd fun s => !s.isEmpty && s.all isSafe

def packRefresh (pair : RefreshTokenPair) : Str := pair.rid ++ refreshSeparator :: pair.secret

/-- The only `ValueError` of `unpack_refresh`. -/
def badRefreshFormat : String := "bad_refresh_format"

def unpackRefresh (token : Str) : Except String RefreshTokenPair :=
  if token.length = 0 ∨ maxRefreshTokenLen < token.length then .error badRefreshFormat
  else if refreshSeparator ∉ token then .error badRefreshFormat
  else
    let rid := strip (splitOnce refreshSeparator token).1
    let secret := strip (splitOnce refreshSeparator token).2
    if rid = [] ∨ secret = [] then .error badRefreshFormat
    else if maxRidLen < rid.length ∨ maxSecretLen < secret.length then .error badRefreshFormat
    else if !reUuid rid then .error badRefreshFormat
    else if !reSafeSeg secret then .error badRefreshFormat
    else .ok { rid := rid, secret := secret }

/-! ## Keys -/

def redisPrefixRefresh : Str := "auth:refresh:".toList
def redisPrefixTokenver : Str := "auth:tokenver:".toList

def keyRefresh (rid : Str) : Str := redisPrefixRefresh ++ rid

def keyTokenver (userId : Int) : Str := redisPrefixTokenver ++ str userId

theorem keyRefresh_inj {rid rid' : Str} : keyRefresh rid = keyRefresh rid' ↔ rid = rid' :=
  ⟨fun h => List.append_cancel_left h, fun h => by rw [h]⟩

theorem keyTokenver_inj {u u' : Int} : keyTokenver u = keyTokenver u' ↔ u = u' := by
  constructor
  · intro h
    exact str_injective (List.append_cancel_left h)
  · intro h
    rw [h]

/-- No rid names the version counter of a user: the prefixes part at the sixth character. -/
theorem keyRefresh_ne_keyTokenver (rid : Str) (u : Int) : keyRefresh rid ≠ keyTokenver u := by
  intro h
  have hr : (keyRefresh rid).take 6 = redisPrefixRefresh.take 6 :=
    List.take_append_of_le_length (by decide)
  have hv : (keyTokenver u).take 6 = redisPrefixTokenver.take 6 :=
    List.take_append_of_le_length (by decide)
  have h6 : redisPrefixRefresh.take 6 = redisPrefixTokenver.take 6 := by rw [← hr, ← hv, h]
  exact absurd h6 (by decide)

/-! ## Token versions -/

/-- `get_tokenver`: 0 where there is no version or none that reads as an integer. -/
def getTokenver (redis : Redis.Keyspace) (userId : Int) : Int :=
  Redis.counter redis (keyTokenver userId)

/-- `bump_tokenver`; `none` is an error reply of Redis. -/
def bumpTokenver (redis : Redis.Keyspace) (userId : Int) : Option (Int × Redis.Keyspace) :=
  Redis.incr redis (keyTokenver userId)

@[simp] theorem getTokenver_insert_refresh (redis : Redis.Keyspace) (rid v : Str) (u : Int) :
    getTokenver (redis.insert (keyRefresh rid) v) u = getTokenver redis u :=
  Redis.counter_insert_ne v (keyRefresh_ne_keyTokenver rid u).symm

@[simp] theorem getTokenver_erase_refresh (redis : Redis.Keyspace) (rid : Str) (u : Int) :
    getTokenver (redis.erase (keyRefresh rid)) u = getTokenver redis u :=
  Redis.counter_erase_ne (keyRefresh_ne_keyTokenver rid u).symm

theorem getTokenver_insert_self (redis : Redis.Keyspace) (u n : Int) :
    getTokenver (redis.insert (keyTokenver u) (str n)) u = n :=
  Redis.counter_insert_self redis _ n

theorem getTokenver_insert_ne (redis : Redis.Keyspace) {u u' : Int} (n : Int) (h : u' ≠ u) :
    getTokenver (redis.insert (keyTokenver u) (str n)) u' = getTokenver redis u' :=
  Redis.counter_insert_ne _ (fun heq => h (keyTokenver_inj.mp heq))

/-! ## Refresh entries -/

variable (sha256 : Str → Str)

/-- The value stored for a refresh token: `user_id|token_ver|sha256(secret)`. -/
def refreshValue (userId tokenVer : Int) (secret : Str) : Str :=
  str userId ++ '|' :: (str tokenVer ++ '|' :: sha256 secret)

def storeRefresh (redis : Redis.Keyspace) (pair : RefreshTokenPair) (userId tokenVer : Int) :
    Redis.Keyspace :=
  redis.insert (keyRefresh pair.rid) (refreshValue sha256 userId tokenVer pair.secret)

def revokeRefresh (redis : Redis.Keyspace) (rid : Str) : Redis.Keyspace :=
  redis.erase (keyRefresh rid)

/-- One capture `(%d+)%|` of the Lua pattern: the digits in front of the bar, and what follows. -/
def luaDigits (v : Str) : Option (Str × Str) :=
  match v.dropWhile Char.isDigit with
  | '|' :: rest =>
    if v.takeWhile Char.isDigit = [] then none else some (v.takeWhile Char.isDigit, rest)
  | _ => none

/--
`string.match(v, "^(%d+)%|(%d+)%|(.+)$")`.

The class `%d` does not contain the bar, so the greedy captures never have to give back.
-/
def luaMatch (v : Str) : Option (Str × Str × Str) :=
  match luaDigits v with
  | none => none
  | some (userId, rest) =>
    match luaDigits rest with
    | none => none
    | some (tokenVer, hash) => if hash = [] then none else some (userId, tokenVer, hash)

/-- `_LUA_VERIFY_AND_CONSUME`: the reply of the script and the keyspace after it. -/
def luaVerifyAndConsume (redis : Redis.Keyspace) (key want : Str) :
    Option (Str × Str) × Redis.Keyspace :=
  match redis.lookup key with
  | none => (none, redis)
  | some v =>
    match luaMatch v with
    | none => (none, redis)
    | some (userId, tokenVer, hash) =>
      if hash ≠ want then (none, redis) else (some (userId, tokenVer), redis.erase key)

def verifyAndConsumeRefresh (redis : Redis.Keyspace) (pair : RefreshTokenPair) :
    Option (Int × Int) × Redis.Keyspace :=
  let res := luaVerifyAndConsume redis (keyRefresh pair.rid) (sha256 pair.secret)
  match res.1 with
  | none => (none, res.2)
  | some (userId, tokenVer) =>
    match int? userId, int? tokenVer with
    | some u, some v => (some (u, v), res.2)
    | _, _ => (none, res.2)

/-! ## What the script answers -/

/-- In front of a bar, the captured digits are the printed integer, when it has a capture at all. -/
theorem luaDigits_str {n : Int} {rest ds rest' : Str}
    (h : luaDigits (str n ++ '|' :: rest) = some (ds, rest')) : ds = str n ∧ rest' = rest := by
  cases n with
  | ofNat n =>
    have hall : ∀ c ∈ str (Int.ofNat n), c.isDigit = true := fun c hc => isDigit_of_mem_toDigits hc
    unfold luaDigits at h
    rw [List.dropWhile_append_of_pos hall, List.takeWhile_append_of_pos hall] at h
    simp only [List.dropWhile_cons, show Char.isDigit '|' = false by decide, Bool.false_eq_true,
      if_false, List.takeWhile_cons, List.append_nil] at h
    split at h
    · cases h
    · cases h
      exact ⟨rfl, rfl⟩
  | negSucc n =>
    -- the minus sign stops the first capture before it has a digit
    simp [luaDigits, str] at h

theorem luaDigits_spec {v ds rest : Str} (h : luaDigits v = some (ds, rest)) :
    ds ≠ [] ∧ ∀ c ∈ ds, c.isDigit = true := by
  unfold luaDigits at h
  split at h
  · split at h
    · cases h
    · next hne =>
      cases h
      exact ⟨hne, fun c hc => List.mem_takeWhile_imp hc⟩
  · cases h

theorem int?_of_luaDigits {v ds rest : Str} (h : luaDigits v = some (ds, rest)) :
    ∃ n, int? ds = some n := by
  obtain ⟨hne, hall⟩ := luaDigits_spec h
  exact ⟨_, (int?_digits ds hne hall).1⟩

theorem luaMatch_spec {v a b hash : Str} (h : luaMatch v = some (a, b, hash)) :
    ∃ rest, luaDigits v = some (a, rest) ∧ luaDigits rest = some (b, hash) := by
  unfold luaMatch at h
  split at h
  · cases h
  · next a' rest h1 =>
    split at h
    · cases h
    · next b' hash' h2 =>
      split at h
      · cases h
      · cases h
        exact ⟨rest, h1, h2⟩

/-- The pattern takes a stored value apart into what it was put together from. -/
theorem luaMatch_refreshValue {u w : Int} {secret a b hash : Str}
    (h : luaMatch (refreshValue sha256 u w secret) = some (a, b, hash)) :
    a = str u ∧ b = str w ∧ hash = sha256 secret := by
  obtain ⟨rest, h1, h2⟩ := luaMatch_spec h
  obtain ⟨ha, hrest⟩ := luaDigits_str h1
  rw [hrest] at h2
  obtain ⟨hb, hh⟩ := luaDigits_str h2
  exact ⟨ha, hb, hh⟩

/--
`verify_and_consume_refresh` either answers `None` and leaves the keyspace alone, or it finds the
entry of this rid with the hash of this secret, deletes it, and answers with its numbers.
-/
theorem verifyAndConsumeRefresh_cases (redis : Redis.Keyspace) (pair : RefreshTokenPair) :
    verifyAndConsumeRefresh sha256 redis pair = (none, redis) ∨
      ∃ val a b u w, redis.lookup (keyRefresh pair.rid) = some val ∧
        luaMatch val = some (a, b, sha256 pair.secret) ∧ int? a = some u ∧ int? b = some w ∧
        verifyAndConsumeRefresh sha256 redis pair
          = (some (u, w), redis.erase (keyRefresh pair.rid)) := by
  unfold verifyAndConsumeRefresh luaVerifyAndConsume
  cases hl : redis.lookup (keyRefresh pair.rid) with
  | none => exact Or.inl rfl
  | some val =>
    cases hm : luaMatch val with
    | none => exact Or.inl (by simp [hm])
    | some m =>
      obtain ⟨a, b, hash⟩ := m
      by_cases hh : hash = sha256 pair.secret
      · obtain ⟨rest, h1, h2⟩ := luaMatch_spec hm
        obtain ⟨u, hu⟩ := int?_of_luaDigits h1
        obtain ⟨w, hw⟩ := int?_of_luaDigits h2
        exact Or.inr ⟨val, a, b, u, w, rfl, by rw [hm, hh], hu, hw, by simp [hm, hh, hu, hw]⟩
      · exact Or.inl (by simp [hm, hh])

end EnterpriseAssistant.Authn
