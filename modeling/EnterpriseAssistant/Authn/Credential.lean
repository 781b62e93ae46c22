import EnterpriseAssistant.Authn.Versions

/-!
# One live refresh credential per login

A login holds its credential in one of three places: with a handler that has bumped or consumed
and has yet to store, or as one entry in Redis, or nowhere any more.

* `Moves.credential_le` — no move adds a credential of a version, but the bump that makes it
* `one_live_credential` — so there is never more than one, the refresh tokens of a version form
  a chain, and each of them is redeemed at most once
-/

namespace EnterpriseAssistant.Authn

open Py Core Auth Security Interleaving

variable {env : AuthEnv}

/-! ## What is counted -/

/-- The front of a value that records user `u` and version `v`. -/
def recordFront (u v : Int) : Str := str u ++ '|' :: (str v ++ ['|'])

/-- A Redis entry is a refresh entry that records user `u` and version `v`. -/
def records (u v : Int) (key val : Str) : Bool :=
  redisPrefixRefresh.isPrefixOf key && (recordFront u v).isPrefixOf val

/-- The handler still has to store a refresh entry for user `u` and version `v`. -/
def Handler.pendingFor (u v : Int) : Handler → Bool
  | .loginStore user w => user.id == u && w == v
  | .refreshVer _ u' v' => u' == u && v' == v
  | .refreshUser _ u' v' => u' == u && v' == v
  | .refreshStore _ u' v' => u' == u && v' == v
  | _ => false

/-- The refresh entries of a version, and the handlers that still have to store one. -/
def credentials (u v : Int) (c : Config Shared Handler Obs) : Nat :=
  Redis.count (records u v) c.shared.redis + c.threads.countP (Handler.pendingFor u v)

theorem bar_notMem_str (n : Int) : '|' ∉ str n := notMem_str (by decide) (by decide) n

theorem records_refreshValue {u v u' v' : Int} {rid secret : Str} :
    records u v (keyRefresh rid) (refreshValue env.sha256 u' v' secret) = true ↔
      u' = u ∧ v' = v := by
  simp only [records, keyRefresh, Bool.and_eq_true, List.isPrefixOf_iff_prefix]
  constructor
  · rintro ⟨-, rest, heq⟩
    have h₁ := congrArg (splitOnce '|') heq
    simp only [recordFront, refreshValue, List.append_assoc, List.cons_append,
      splitOnce_append (bar_notMem_str _), Prod.mk.injEq] at h₁
    have h₂ := congrArg (splitOnce '|') h₁.2
    simp only [List.nil_append, splitOnce_append (bar_notMem_str _), Prod.mk.injEq] at h₂
    exact ⟨(str_injective h₁.1).symm, (str_injective h₂.1).symm⟩
  · rintro ⟨rfl, rfl⟩
    refine ⟨List.prefix_append _ _, env.sha256 secret, ?_⟩
    simp [recordFront, refreshValue]

theorem records_keyTokenver (u v u' : Int) (val : Str) :
    records u v (keyTokenver u') val = false := by
  have hne : redisPrefixRefresh.isPrefixOf (keyTokenver u') = false := by
    rw [Bool.eq_false_iff, ne_eq, List.isPrefixOf_iff_prefix]
    rintro ⟨rest, hrest⟩
    exact keyRefresh_ne_keyTokenver rest u' hrest
  simp [records, hne]

/-! ## The refresh tokens of a version -/

/-- What an observation adds to the tokens of user `u` and version `v`: parent and pair. -/
def Obs.issueOf (u v : Int) : Obs → Option (Option RefreshTokenPair × RefreshTokenPair)
  | .issued _ parent u' v' _ pair => if u' = u ∧ v' = v then some (parent, pair) else none
  | _ => none

/-- The refresh tokens of user `u` and version `v` with their parents, newest first. -/
def issuesOf (u v : Int) (h : List Obs) : List (Option RefreshTokenPair × RefreshTokenPair) :=
  h.filterMap (Obs.issueOf u v)

theorem issuesOf_append_of_not_issue {os : List Obs} (hos : ∀ o ∈ os, ¬o.IsIssue) (u v : Int)
    (h : List Obs) : issuesOf u v (os ++ h) = issuesOf u v h := by
  have hnil : os.filterMap (Obs.issueOf u v) = [] := by
    rw [List.filterMap_eq_nil_iff]
    intro o ho
    cases o with
    | issued t parent u' v' access pair => exact absurd trivial (hos _ ho)
    | _ => rfl
  rw [issuesOf, List.filterMap_append, hnil, List.nil_append, issuesOf]

theorem issuesOf_issued_self (t : Nat) (parent : Option RefreshTokenPair) (u v : Int)
    (access : AccessClaims) (pair : RefreshTokenPair) (h : List Obs) :
    issuesOf u v (.issued t parent u v access pair :: h) = (parent, pair) :: issuesOf u v h := by
  simp [issuesOf, Obs.issueOf]

theorem issuesOf_issued_ne {u v u' v' : Int} (hne : ¬(u' = u ∧ v' = v)) (t : Nat)
    (parent : Option RefreshTokenPair) (access : AccessClaims) (pair : RefreshTokenPair)
    (h : List Obs) : issuesOf u v (.issued t parent u' v' access pair :: h) = issuesOf u v h := by
  simp [issuesOf, Obs.issueOf, hne]

/-- Newest first: a login issued the oldest token, and each newer one was exchanged for the rid of
the one before it. -/
def LinearChain : List (Option RefreshTokenPair × RefreshTokenPair) → Prop
  | [] => True
  | [(parent, _)] => parent = none
  | (parent, _) :: (parent', older) :: rest =>
    parent.map RefreshTokenPair.rid = some older.rid ∧ LinearChain ((parent', older) :: rest)

/-- `verify_and_consume_refresh` has answered for this rid. -/
def Obs.redeems (rid : Str) : Obs → Bool
  | .redeemed _ pair _ _ => pair.rid == rid
  | _ => false

/-! ## The invariant -/

/-- The newest token of the version has this rid. -/
def Newest (h : List Obs) (u v : Int) (rid : Str) : Prop :=
  ∃ parent secret rest, issuesOf u v h = (parent, ⟨rid, secret⟩) :: rest

/-- A handler that will issue continues what has been issued so far. -/
def Handler.Continues (h : List Obs) : Handler → Prop
  | .loginStore user v => issuesOf user.id v h = []
  | .refreshVer pair u v => Newest h u v pair.rid
  | .refreshUser pair u v => Newest h u v pair.rid
  | .refreshStore pair u v => Newest h u v pair.rid
  | _ => True

structure CredentialInv (env : AuthEnv) (c : Config Shared Handler Obs) : Prop where
  minted : ∀ rid val, c.shared.redis.lookup (keyRefresh rid) = some val →
    rid ∈ c.shared.mintedRids
  entries : ∀ rid val, c.shared.redis.lookup (keyRefresh rid) = some val →
    ∃ u v secret, val = refreshValue env.sha256 u v secret ∧ Newest c.history u v rid
  threads : ∀ (t : Nat) (th : Handler), c.threads[t]? = some th → th.Continues c.history
  atMostOne : ∀ u v, credentials u v c ≤ 1
  unborn : ∀ u v, getTokenver c.shared.redis u < v → credentials u v c = 0
  issuedLe : ∀ u v, issuesOf u v c.history ≠ [] → v ≤ getTokenver c.shared.redis u
  chain : ∀ u v, LinearChain (issuesOf u v c.history)
  redeemedGone : ∀ t pair u v, .redeemed t pair u v ∈ c.history →
    pair.rid ∈ c.shared.mintedRids ∧ c.shared.redis.lookup (keyRefresh pair.rid) = none
  redeemedOnce : ∀ rid, c.history.countP (Obs.redeems rid) ≤ 1

/-! ## What a move does to the count -/

/-- 1 when the handler still has to store a credential of the version. -/
def Handler.owes (u v : Int) (th : Handler) : Nat := if th.pendingFor u v then 1 else 0

theorem Handler.owes_loginStore {user : User} {w u v : Int} :
    (Handler.loginStore user w).owes u v = if user.id = u ∧ w = v then 1 else 0 := by
  simp [owes, pendingFor]

theorem Handler.owes_refreshStore {pair : RefreshTokenPair} {u' v' u v : Int} :
    (Handler.refreshStore pair u' v').owes u v = if u' = u ∧ v' = v then 1 else 0 := by
  simp [owes, pendingFor]

theorem Handler.owes_refreshVer (pair : RefreshTokenPair) (u' v' u v : Int) :
    (Handler.refreshVer pair u' v').owes u v = if u' = u ∧ v' = v then 1 else 0 := by
  simp [owes, pendingFor]

/-- A handler that issues owes a credential of that version, and of no other. -/
theorem Handler.MayIssue.owes {parent : Option RefreshTokenPair} {u v : Int} {th : Handler}
    (h : th.MayIssue parent u v) (u' v' : Int) :
    th.owes u' v' = if u = u' ∧ v = v' then 1 else 0 := by
  cases th with
  | loginStore user w =>
    obtain ⟨-, rfl, rfl⟩ : _ ∧ user.id = u ∧ w = v := h
    exact owes_loginStore
  | refreshStore p u₀ v₀ =>
    obtain ⟨-, rfl, rfl⟩ : _ ∧ u₀ = u ∧ v₀ = v := h
    exact owes_refreshStore
  | _ => exact absurd h id

/-- Writing a version counter adds no entry. -/
theorem count_insert_tokenver (redis : Redis.Keyspace) (u v u' n : Int) :
    Redis.count (records u v) (redis.insert (keyTokenver u') (str n))
      = Redis.count (records u v) redis :=
  Redis.count_insert_of_not _ (records_keyTokenver u v u')

/-- A fresh rid adds one entry, of the version it is stored for. -/
theorem count_store {redis : Redis.Keyspace} {rid : Str}
    (hnew : redis.lookup (keyRefresh rid) = none) (secret : Str) (u v u' v' : Int) :
    Redis.count (records u v) (redis.insert (keyRefresh rid) (refreshValue env.sha256 u' v' secret))
      = Redis.count (records u v) redis + if u' = u ∧ v' = v then 1 else 0 := by
  rw [Redis.count_insert_new _ hnew]
  simp only [records_refreshValue]

theorem count_consume {redis : Redis.Keyspace} {rid secret : Str} {u' v' : Int}
    (hl : redis.lookup (keyRefresh rid) = some (refreshValue env.sha256 u' v' secret))
    (u v : Int) :
    Redis.count (records u v) (redis.erase (keyRefresh rid)) + (if u' = u ∧ v' = v then 1 else 0)
      = Redis.count (records u v) redis := by
  have h := Redis.count_erase_add (p := records u v) hl
  simpa only [records_refreshValue] using h

/-- No move adds a credential of a version, except the bump that creates the version. -/
theorem Moves.credential_le {c : Config Shared Handler Obs} {t : Nat} {th : Handler} {m : AuthMove}
    (h : Moves env c.shared t th m) (hinv : CredentialInv env c) (u v : Int) :
    Redis.count (records u v) m.shared.redis + m.thread.owes u v
        ≤ Redis.count (records u v) c.shared.redis + th.owes u v ∨
      (v = getTokenver c.shared.redis u + 1 ∧ getTokenver m.shared.redis u = v ∧
        Redis.count (records u v) m.shared.redis + m.thread.owes u v
          = Redis.count (records u v) c.shared.redis + 1) := by
  have hdone : ∀ r, (Handler.done r).owes u v = 0 := fun _ => rfl
  have hfree : ∀ pair : RefreshTokenPair, pair.rid ∉ c.shared.mintedRids →
      c.shared.redis.lookup (keyRefresh pair.rid) = none := by
    intro pair hnew
    cases hl : c.shared.redis.lookup (keyRefresh pair.rid) with
    | none => rfl
    | some val => exact absurd (hinv.minted _ _ hl) hnew
  cases h with
  | ends h r => exact Or.inl (Nat.add_le_add_left (Nat.zero_le _) _)
  | loginSelected req user => exact Or.inl (Nat.le_refl _)
  | loginBumped user =>
    simp only [count_insert_tokenver, Handler.owes_loginStore]
    by_cases huv : user.id = u ∧ getTokenver c.shared.redis user.id + 1 = v
    · obtain ⟨rfl, rfl⟩ := huv
      exact Or.inr ⟨rfl, getTokenver_insert_self _ _ _, by simp⟩
    · rw [if_neg huv]
      exact Or.inl (Nat.add_le_add_left (Nat.zero_le _) _)
  | loginIssued user tokenVer now pair _ hm =>
    obtain ⟨hnew, access, -, -, rfl⟩ := issueTokens_eq hm
    simp only [storeRefresh, count_store (hfree pair hnew), Handler.owes_loginStore, hdone]
    exact Or.inl (Nat.le_refl _)
  | redeemed refreshToken pair val a b u' v' hunpack hval hmatch hu hv =>
    obtain ⟨u₀, v₀, secret, rfl, -⟩ := hinv.entries pair.rid val hval
    obtain ⟨ha, hb, -⟩ := luaMatch_refreshValue env.sha256 hmatch
    rw [ha, int?_str] at hu
    rw [hb, int?_str] at hv
    cases hu
    cases hv
    have hcount := count_consume hval u v
    rw [← Handler.owes_refreshVer pair] at hcount
    exact Or.inl (Nat.le_trans (Nat.le_of_eq hcount) (Nat.le_add_right _ _))
  | refreshCurrent pair u' v' => exact Or.inl (Nat.le_refl _)
  | refreshSelected pair u' v' => exact Or.inl (Nat.le_refl _)
  | refreshIssued parent u' v' now pair _ hm =>
    obtain ⟨hnew, access, -, -, rfl⟩ := issueTokens_eq hm
    simp only [storeRefresh, count_store (hfree pair hnew), Handler.owes_refreshStore, hdone]
    exact Or.inl (Nat.le_refl _)
  | accessCurrent endpoint token u' => exact Or.inl (Nat.le_refl _)
  | accepted endpoint token u' user =>
    cases endpoint with
    | me => exact Or.inl (Nat.le_refl _)
    | logout refreshToken => exact Or.inl (Nat.le_refl _)
  | logoutPassed refreshToken me => exact Or.inl (Nat.le_refl _)
  | logoutRevoked refreshToken me pair =>
    exact Or.inl (Nat.add_le_add_right (Redis.count_erase_le _ _) _)
  | logoutBumped me =>
    simp only [count_insert_tokenver]
    exact Or.inl (Nat.le_refl _)

/-- A thread that moves changes the count of the threads by its own part. -/
theorem countP_pending_set {ths : List Handler} {t : Nat} {th : Handler} (th' : Handler)
    (h : ths[t]? = some th) (u v : Int) :
    (ths.set t th').countP (Handler.pendingFor u v) + th.owes u v
      = ths.countP (Handler.pendingFor u v) + th'.owes u v :=
  countP_set_of_getElem? th' h

/-- The credentials of a version after a move. -/
theorem CredentialInv.credentials_move {c : Config Shared Handler Obs} (hinv : CredentialInv env c)
    {t : Nat} {th : Handler} {m : AuthMove} (hth : c.threads[t]? = some th)
    (hm : Moves env c.shared t th m) (u v : Int) :
    credentials u v (System.after c t m) ≤ credentials u v c ∨
      (v = getTokenver c.shared.redis u + 1 ∧ getTokenver m.shared.redis u = v ∧
        credentials u v (System.after c t m) = credentials u v c + 1) := by
  have hcount := countP_pending_set m.thread hth u v
  have hle := hm.credential_le hinv u v
  simp only [credentials, System.after_shared, System.after_threads]
  -- the move of the thread that owed nothing cannot take anything off the others
  rcases hle with hle | ⟨hv, hv', heq⟩
  · exact Or.inl (by omega)
  · by_cases how : th.owes u v = 0
    · exact Or.inr ⟨hv, hv', by omega⟩
    · exact Or.inl (by omega)

/-! ## Every move keeps the invariant -/

theorem Moves.tokenver_le {s : Shared} {t : Nat} {th : Handler} {m : AuthMove}
    (h : Moves env s t th m) (u : Int) : getTokenver s.redis u ≤ getTokenver m.shared.redis u := by
  rcases h.version_cases with ⟨who, u', -, hredis⟩ | ⟨hver, -⟩
  · rw [hredis]
    by_cases hu : u = u'
    · subst hu
      rw [getTokenver_insert_self]
      omega
    · exact Int.le_of_eq (getTokenver_insert_ne _ _ hu).symm
  · exact Int.le_of_eq (hver u).symm

/-- A move redeems a token whose entry it deletes, or it redeems nothing. -/
theorem Moves.redeem_cases {s : Shared} {t : Nat} {th : Handler} {m : AuthMove}
    (h : Moves env s t th m) :
    (∃ pair u v val, m.obs = [.redeemed t pair u v] ∧
        s.redis.lookup (keyRefresh pair.rid) = some val ∧
        m.shared.redis = s.redis.erase (keyRefresh pair.rid)) ∨
      ∀ o ∈ m.obs, ∀ rid, o.redeems rid = false := by
  cases h with
  | redeemed refreshToken pair val a b u v hunpack hval =>
    exact Or.inl ⟨pair, u, v, val, rfl, hval, rfl⟩
  | loginIssued user tokenVer now pair _ hm =>
    obtain ⟨-, access, -, -, rfl⟩ := issueTokens_eq hm
    exact Or.inr (by simp [Obs.redeems])
  | refreshIssued parent u v now pair _ hm =>
    obtain ⟨-, access, -, -, rfl⟩ := issueTokens_eq hm
    exact Or.inr (by simp [Obs.redeems])
  | _ => exact Or.inr (by simp [goOn, Obs.redeems])

theorem Newest.congr {h h' : List Obs} {u v : Int} {rid : Str}
    (hsame : issuesOf u v h' = issuesOf u v h) (hn : Newest h u v rid) : Newest h' u v rid := by
  obtain ⟨parent, secret, rest, heq⟩ := hn
  exact ⟨parent, secret, rest, by rw [hsame, heq]⟩

/-- Only the tokens of the version that a handler owes a credential of concern it. -/
theorem Handler.Continues.congr {h h' : List Obs} {th : Handler} (hc : th.Continues h)
    (hsame : ∀ u v, th.pendingFor u v = true → issuesOf u v h' = issuesOf u v h) :
    th.Continues h' := by
  cases th with
  | loginStore user v =>
    have hnil : issuesOf user.id v h = [] := hc
    show issuesOf user.id v h' = []
    rw [hsame _ _ (by simp [pendingFor]), hnil]
  | refreshVer pair u v => exact Newest.congr (hsame u v (by simp [pendingFor])) hc
  | refreshUser pair u v => exact Newest.congr (hsame u v (by simp [pendingFor])) hc
  | refreshStore pair u v => exact Newest.congr (hsame u v (by simp [pendingFor])) hc
  | _ => trivial

theorem Handler.Continues.issued {h : List Obs} {th : Handler} (hc : th.Continues h) {u v : Int}
    (hp : th.pendingFor u v = false) (t : Nat) (parent : Option RefreshTokenPair)
    (access : AccessClaims) (pair : RefreshTokenPair) :
    th.Continues (.issued t parent u v access pair :: h) := by
  refine hc.congr fun u' v' hp' => issuesOf_issued_ne ?_ t parent access pair h
  rintro ⟨rfl, rfl⟩
  rw [hp] at hp'
  cases hp'

/-- What a handler issues goes on top of the chain. -/
theorem Handler.Continues.chain {h : List Obs} {th : Handler} (hc : th.Continues h)
    {parent : Option RefreshTokenPair} {u v : Int} (hmay : th.MayIssue parent u v)
    (hchain : LinearChain (issuesOf u v h)) (pair : RefreshTokenPair) :
    LinearChain ((parent, pair) :: issuesOf u v h) := by
  cases th with
  | loginStore user w =>
    obtain ⟨rfl, rfl, rfl⟩ : parent = none ∧ user.id = u ∧ w = v := hmay
    have hnil : issuesOf user.id w h = [] := hc
    rw [hnil]
    exact rfl
  | refreshStore p u' v' =>
    obtain ⟨rfl, rfl, rfl⟩ : parent = some p ∧ u' = u ∧ v' = v := hmay
    obtain ⟨parent', secret, rest, heq⟩ : Newest h u' v' p.rid := hc
    rw [heq] at hchain ⊢
    exact ⟨rfl, hchain⟩
  | _ => exact absurd hmay id

/-- The handler that has moved continues what has been issued. -/
theorem CredentialInv.continues_move {c : Config Shared Handler Obs} (hinv : CredentialInv env c)
    {t : Nat} {th : Handler} {m : AuthMove} (hth : c.threads[t]? = some th)
    (hm : Moves env c.shared t th m) (hobs : ∀ o ∈ m.obs, ¬o.IsIssue) :
    m.thread.Continues (m.obs ++ c.history) := by
  have hsame := fun u v => issuesOf_append_of_not_issue hobs u v c.history
  refine Handler.Continues.congr ?_ fun u v _ => hsame u v
  have hback := hinv.threads t th hth
  cases hm with
  | loginBumped user =>
    show issuesOf user.id (getTokenver c.shared.redis user.id + 1) c.history = []
    by_contra hne
    have hle := hinv.issuedLe _ _ hne
    omega
  | redeemed refreshToken pair val a b u v hunpack hval hmatch hu hv =>
    obtain ⟨u₀, v₀, secret, rfl, hnewest⟩ := hinv.entries pair.rid val hval
    obtain ⟨ha, hb, -⟩ := luaMatch_refreshValue env.sha256 hmatch
    rw [ha, int?_str] at hu
    rw [hb, int?_str] at hv
    cases hu
    cases hv
    exact hnewest
  | refreshCurrent pair u v => exact hback
  | refreshSelected pair u v => exact hback
  | loginIssued user tokenVer now pair _ hm =>
    obtain ⟨-, access, -, -, rfl⟩ := issueTokens_eq hm
    trivial
  | refreshIssued parent u v now pair _ hm =>
    obtain ⟨-, access, -, -, rfl⟩ := issueTokens_eq hm
    trivial
  | accepted endpoint token u user =>
    cases endpoint with
    | me => trivial
    | logout refreshToken => trivial
  | _ => trivial

/-- The counting half of the invariant after any move. -/
theorem CredentialInv.atMostOne_move {c : Config Shared Handler Obs} (hinv : CredentialInv env c)
    {t : Nat} {th : Handler} {m : AuthMove} (hth : c.threads[t]? = some th)
    (hm : Moves env c.shared t th m) (u v : Int) :
    credentials u v (System.after c t m) ≤ 1 ∧
      (getTokenver m.shared.redis u < v → credentials u v (System.after c t m) = 0) := by
  have hmono := hm.tokenver_le u
  rcases hinv.credentials_move hth hm u v with hle | ⟨hv, hv', heq⟩
  · refine ⟨Nat.le_trans hle (hinv.atMostOne u v), fun hlt => ?_⟩
    have hzero := hinv.unborn u v (by omega)
    omega
  · -- the version did not exist before its bump
    have hzero := hinv.unborn u v (by omega)
    exact ⟨by omega, fun hlt => by omega⟩

/-- An entry that is still there has not been redeemed, and a move redeems it at most once. -/
theorem CredentialInv.redeemedOnce_move {c : Config Shared Handler Obs}
    (hinv : CredentialInv env c) {t : Nat} {th : Handler} {m : AuthMove}
    (hm : Moves env c.shared t th m) (rid : Str) :
    (System.after c t m).history.countP (Obs.redeems rid) ≤ 1 := by
  rw [System.after_history, List.countP_append]
  have hold := hinv.redeemedOnce rid
  rcases hm.redeem_cases with ⟨pair, u, v, val, heq, hl, -⟩ | hno
  · rw [heq, List.countP_singleton]
    by_cases hrid : pair.rid = rid
    · have hzero : c.history.countP (Obs.redeems rid) = 0 := by
        rw [List.countP_eq_zero]
        intro o ho hred
        cases o with
        | redeemed t' pair' u' v' =>
          have heq' : pair'.rid = rid := by simpa [Obs.redeems] using hred
          obtain ⟨-, hnone⟩ := hinv.redeemedGone _ _ _ _ ho
          rw [heq', ← hrid, hl] at hnone
          cases hnone
        | _ => cases hred
      rw [hzero]
      split <;> omega
    · have hf : Obs.redeems rid (.redeemed t pair u v) = false := by
        simpa [Obs.redeems] using hrid
      rw [hf]
      simpa using hold
  · have hzero : m.obs.countP (Obs.redeems rid) = 0 := by
      rw [List.countP_eq_zero]
      intro o ho
      rw [hno o ho rid]
      exact Bool.false_ne_true
    omega

/-- A move that issues nothing. -/
theorem CredentialInv.move_of_not_issue {c : Config Shared Handler Obs}
    (hinv : CredentialInv env c) {t : Nat} {th : Handler} {m : AuthMove}
    (hth : c.threads[t]? = some th) (hm : Moves env c.shared t th m)
    (hminted : m.shared.mintedRids = c.shared.mintedRids)
    (hredis : ∀ rid val, m.shared.redis.lookup (keyRefresh rid) = some val →
      c.shared.redis.lookup (keyRefresh rid) = some val)
    (hobs : ∀ o ∈ m.obs, ¬o.IsIssue) : CredentialInv env (System.after c t m) := by
  have hsame : ∀ u v, issuesOf u v (System.after c t m).history = issuesOf u v c.history :=
    fun u v => issuesOf_append_of_not_issue hobs u v c.history
  have hgone : ∀ rid, c.shared.redis.lookup (keyRefresh rid) = none →
      m.shared.redis.lookup (keyRefresh rid) = none := by
    intro rid hnone
    cases hl : m.shared.redis.lookup (keyRefresh rid) with
    | none => rfl
    | some val =>
      rw [hredis rid val hl] at hnone
      cases hnone
  exact
    { minted := by
        intro rid val hl
        rw [System.after_shared, hminted]
        exact hinv.minted rid val (hredis rid val hl)
      entries := by
        intro rid val hl
        obtain ⟨u, v, secret, hval, hnewest⟩ := hinv.entries rid val (hredis rid val hl)
        exact ⟨u, v, secret, hval, hnewest.congr (hsame u v)⟩
      threads := forall_set
        (fun i th' hi => (hinv.threads i th' hi).congr fun u v _ => hsame u v)
        (hinv.continues_move hth hm hobs)
      atMostOne := fun u v => (hinv.atMostOne_move hth hm u v).1
      unborn := fun u v => (hinv.atMostOne_move hth hm u v).2
      issuedLe := by
        intro u v hne
        rw [hsame] at hne
        exact Int.le_trans (hinv.issuedLe u v hne) (hm.tokenver_le u)
      chain := by
        intro u v
        rw [hsame]
        exact hinv.chain u v
      redeemedGone := by
        intro t' pair u v hmem
        rw [System.after_shared, hminted]
        rcases List.mem_append.mp hmem with hnew | hold
        · rcases hm.redeem_cases with ⟨pair', u', v', val, heq, hl, hr⟩ | hno
          · rw [heq, List.mem_singleton] at hnew
            cases hnew
            rw [hr, AList.lookup_erase]
            exact ⟨hinv.minted _ _ hl, rfl⟩
          · have hf := hno _ hnew pair.rid
            simp [Obs.redeems] at hf
        · obtain ⟨hmint, hnone⟩ := hinv.redeemedGone t' pair u v hold
          exact ⟨hmint, hgone _ hnone⟩
      redeemedOnce := fun rid => hinv.redeemedOnce_move hm rid }

/-- Where a handler owes the credential of a version, nothing else has one. -/
theorem CredentialInv.none_else {c : Config Shared Handler Obs} (hinv : CredentialInv env c)
    {t : Nat} {th th' : Handler} (hth : c.threads[t]? = some th) {u v : Int}
    (howes : th.owes u v = 1) (hnot : th'.owes u v = 0) :
    Redis.count (records u v) c.shared.redis = 0 ∧
      (c.threads.set t th').countP (Handler.pendingFor u v) = 0 ∧
      v ≤ getTokenver c.shared.redis u := by
  have hcount := countP_pending_set th' hth u v
  have hone := hinv.atMostOne u v
  have hunborn := hinv.unborn u v
  unfold credentials at hone hunborn
  refine ⟨by omega, by omega, ?_⟩
  by_contra hlt
  have hzero := hunborn (by omega)
  omega

theorem Issues.issuesOf_self {c : Config Shared Handler Obs} {t : Nat} {th : Handler}
    {m : AuthMove} {parent : Option RefreshTokenPair} {u v : Int} {access : AccessClaims}
    {pair : RefreshTokenPair} (hi : Issues env c.shared t th m parent u v access pair) :
    issuesOf u v (System.after c t m).history = (parent, pair) :: issuesOf u v c.history := by
  rw [hi.history, issuesOf_issued_self]

theorem Issues.issuesOf_ne {c : Config Shared Handler Obs} {t : Nat} {th : Handler}
    {m : AuthMove} {parent : Option RefreshTokenPair} {u v : Int} {access : AccessClaims}
    {pair : RefreshTokenPair} (hi : Issues env c.shared t th m parent u v access pair)
    {u' v' : Int} (hne : ¬(u = u' ∧ v = v')) :
    issuesOf u' v' (System.after c t m).history = issuesOf u' v' c.history := by
  rw [hi.history, issuesOf_issued_ne hne]

/-- Behind a move that issues tokens, the entry it stores holds the newest token of its version,
and the other entries are of other versions. -/
theorem CredentialInv.entries_issued {c : Config Shared Handler Obs} (hinv : CredentialInv env c)
    {t : Nat} {th : Handler} {m : AuthMove} {parent : Option RefreshTokenPair} {u v : Int}
    {access : AccessClaims} {pair : RefreshTokenPair}
    (hi : Issues env c.shared t th m parent u v access pair)
    (hnone : Redis.count (records u v) c.shared.redis = 0) {rid val : Str}
    (hl : m.shared.redis.lookup (keyRefresh rid) = some val) :
    ∃ u' v' secret, val = refreshValue env.sha256 u' v' secret ∧
      Newest (System.after c t m).history u' v' rid := by
  rcases hi.lookup_cases hl with ⟨rfl, rfl⟩ | hold
  · exact ⟨u, v, pair.secret, rfl, parent, pair.secret, _, hi.issuesOf_self⟩
  · obtain ⟨u', v', secret, rfl, hnewest⟩ := hinv.entries rid val hold
    refine ⟨u', v', secret, rfl, hnewest.congr (hi.issuesOf_ne ?_)⟩
    rintro ⟨rfl, rfl⟩
    have hpos := Redis.count_pos (p := records u v) hold (records_refreshValue.mpr ⟨rfl, rfl⟩)
    omega

/-- Behind a move that issues tokens, its thread is done and no other owes its version. -/
theorem CredentialInv.threads_issued {c : Config Shared Handler Obs} (hinv : CredentialInv env c)
    {t : Nat} {th : Handler} {m : AuthMove} {parent : Option RefreshTokenPair} {u v : Int}
    {access : AccessClaims} {pair : RefreshTokenPair}
    (hi : Issues env c.shared t th m parent u v access pair)
    (hnone : (c.threads.set t m.thread).countP (Handler.pendingFor u v) = 0) {i : Nat}
    {th' : Handler} (hget : (System.after c t m).threads[i]? = some th') :
    th'.Continues (System.after c t m).history := by
  have hfalse : th'.pendingFor u v = false := by
    have hnot := List.countP_eq_zero.mp hnone th' (List.mem_of_getElem? hget)
    simpa using hnot
  rw [hi.history]
  rw [System.after_threads, List.getElem?_set] at hget
  split at hget
  · split at hget
    · cases hget
      rw [hi.thread]
      trivial
    · cases hget
  · exact (hinv.threads i th' hget).issued hfalse t parent access pair

/-- A redeemed token stays redeemed: the new pair has another rid. -/
theorem CredentialInv.redeemedGone_issued {c : Config Shared Handler Obs}
    (hinv : CredentialInv env c) {t : Nat} {th : Handler} {m : AuthMove}
    {parent : Option RefreshTokenPair} {u v : Int} {access : AccessClaims}
    {pair : RefreshTokenPair} (hi : Issues env c.shared t th m parent u v access pair) {t' : Nat}
    {pair' : RefreshTokenPair} {u' v' : Int}
    (hmem : .redeemed t' pair' u' v' ∈ (System.after c t m).history) :
    pair'.rid ∈ m.shared.mintedRids ∧ m.shared.redis.lookup (keyRefresh pair'.rid) = none := by
  rw [hi.history] at hmem
  rcases List.mem_cons.mp hmem with hnew | hold
  · cases hnew
  · obtain ⟨hmint, hnone⟩ := hinv.redeemedGone t' pair' u' v' hold
    rw [hi.minted, hi.redis]
    refine ⟨List.mem_cons_of_mem _ hmint, ?_⟩
    rw [AList.lookup_insert_ne, hnone]
    intro hk
    exact hi.new (keyRefresh_inj.mp hk ▸ hmint)

/-- A move that issues tokens. -/
theorem CredentialInv.move_of_issue {c : Config Shared Handler Obs} (hinv : CredentialInv env c)
    {t : Nat} {th : Handler} {m : AuthMove} (hth : c.threads[t]? = some th)
    (hm : Moves env c.shared t th m) {parent : Option RefreshTokenPair} {u v : Int}
    {access : AccessClaims} {pair : RefreshTokenPair}
    (hi : Issues env c.shared t th m parent u v access pair) :
    CredentialInv env (System.after c t m) := by
  have hback := hinv.threads t th hth
  have howes : th.owes u v = 1 := by rw [hi.may.owes, if_pos ⟨rfl, rfl⟩]
  have hmdone : m.thread.owes u v = 0 := by rw [hi.thread]; rfl
  obtain ⟨hentries, hothers, hborn⟩ := hinv.none_else hth howes hmdone
  exact
    { minted := by
        intro rid val hl
        rw [System.after_shared, hi.minted]
        rcases hi.lookup_cases hl with ⟨rfl, -⟩ | hold
        · exact List.mem_cons_self
        · exact List.mem_cons_of_mem _ (hinv.minted rid val hold)
      entries := fun _ _ hl => hinv.entries_issued hi hentries hl
      threads := fun _ _ hget => hinv.threads_issued hi hothers hget
      atMostOne := fun u' v' => (hinv.atMostOne_move hth hm u' v').1
      unborn := fun u' v' => (hinv.atMostOne_move hth hm u' v').2
      issuedLe := by
        intro u' v' hne
        refine Int.le_trans ?_ (hm.tokenver_le u')
        by_cases huv : u = u' ∧ v = v'
        · obtain ⟨rfl, rfl⟩ := huv
          exact hborn
        · rw [hi.issuesOf_ne huv] at hne
          exact hinv.issuedLe u' v' hne
      chain := by
        intro u' v'
        by_cases huv : u = u' ∧ v = v'
        · obtain ⟨rfl, rfl⟩ := huv
          rw [hi.issuesOf_self]
          exact hback.chain hi.may (hinv.chain u v) pair
        · rw [hi.issuesOf_ne huv]
          exact hinv.chain u' v'
      redeemedGone := fun _ _ _ _ hmem => hinv.redeemedGone_issued hi hmem
      redeemedOnce := by
        intro rid
        rw [hi.history, List.countP_cons_of_neg (by simp [Obs.redeems])]
        exact hinv.redeemedOnce rid }

theorem CredentialInv.fire {c c' : Config Shared Handler Obs} {e : Event Choice Outside}
    (hinv : CredentialInv env c) (he : (authSystem env).fire c e = some c') :
    CredentialInv env c' := by
  rcases fire_cases he with ⟨t, th, m, hth, hm, rfl⟩ | ⟨rid, rfl⟩ | ⟨users, rfl⟩
  · rcases hm.issue_cases with ⟨parent, u, v, access, pair, hi⟩ | ⟨-, hmin, hr, hobs⟩
    · exact hinv.move_of_issue hth hm hi
    · exact hinv.move_of_not_issue hth hm hmin hr hobs
  · have hle : ∀ u v, credentials u v { c with shared := { c.shared with
        redis := c.shared.redis.erase (keyRefresh rid) } } ≤ credentials u v c :=
      fun u v => Nat.add_le_add_right (Redis.count_erase_le _ _) _
    exact
      { hinv with
        minted := fun rid' val hl => hinv.minted rid' val (Redis.lookup_of_erase hl)
        entries := fun rid' val hl => hinv.entries rid' val (Redis.lookup_of_erase hl)
        atMostOne := fun u v => Nat.le_trans (hle u v) (hinv.atMostOne u v)
        unborn := by
          intro u v hlt
          rw [getTokenver_erase_refresh] at hlt
          have hzero := hinv.unborn u v hlt
          exact Nat.le_zero.mp (hzero ▸ hle u v)
        issuedLe := by
          intro u v hne
          rw [getTokenver_erase_refresh]
          exact hinv.issuedLe u v hne
        redeemedGone := by
          intro t pair u v hmem
          obtain ⟨hmint, hnone⟩ := hinv.redeemedGone t pair u v hmem
          refine ⟨hmint, ?_⟩
          cases hl : (c.shared.redis.erase (keyRefresh rid)).lookup (keyRefresh pair.rid) with
          | none => rfl
          | some val =>
            rw [Redis.lookup_of_erase hl] at hnone
            cases hnone }
  · exact { hinv with }

theorem credential_start (users : List User) {requests : List Handler}
    (hfresh : ∀ r ∈ requests, Handler.Fresh r) :
    CredentialInv env (Config.start (initial users) requests) := by
  have hzero : ∀ u v, credentials u v (Config.start (initial users) requests) = 0 := by
    intro u v
    have hnone : requests.countP (Handler.pendingFor u v) = 0 := by
      rw [List.countP_eq_zero]
      intro r hr
      cases hfresh r hr with
      | _ => exact Bool.false_ne_true
    simp only [credentials, Config.start_shared, Config.start_threads, initial, Redis.count_empty,
      hnone]
  exact
    { minted := by simp [initial]
      entries := by simp [initial]
      threads := by
        intro t th hth
        cases hfresh th (List.mem_of_getElem? hth) with
        | _ => trivial
      atMostOne := fun u v => by rw [hzero]; omega
      unborn := fun u v _ => hzero u v
      issuedLe := by simp [issuesOf]
      chain := fun _ _ => trivial
      redeemedGone := by simp
      redeemedOnce := by simp }

theorem credential_invariant {c : Config Shared Handler Obs} (h : Reachable env c) :
    CredentialInv env c := by
  obtain ⟨users, requests, es, hfresh, hexec⟩ := h
  exact System.exec_invariant _ (fun c e c' hc he => hc.fire he) es
    (credential_start users hfresh) hexec

/--
**One live refresh credential per login.**

A version of a user comes from one bump, at most one credential of it is stored or about to be,
its refresh tokens form a chain, and no refresh token is redeemed twice.
-/
theorem one_live_credential {c : Config Shared Handler Obs} (h : Reachable env c) :
    (∀ u v, credentials u v c ≤ 1) ∧
      (∀ u v t who t' who', .bumped t who u v ∈ c.history → .bumped t' who' u v ∈ c.history →
        t' = t ∧ who' = who) ∧
      (∀ u v, LinearChain (issuesOf u v c.history)) ∧
      ∀ rid, c.history.countP (Obs.redeems rid) ≤ 1 := by
  have hinv := credential_invariant h
  exact ⟨hinv.atMostOne, fun u v t who t' who' hb hb' => (versions_invariant h).unique hb hb',
    hinv.chain, hinv.redeemedOnce⟩

theorem one_live_credential_in_logoutRace :
    ∃ c, Reachable sampleEnv c ∧ c.history = logoutRaceHistory ∧
      (∀ u v, credentials u v c ≤ 1) ∧
      (∀ u v t who t' who', .bumped t who u v ∈ c.history → .bumped t' who' u v ∈ c.history →
        t' = t ∧ who' = who) ∧
      (∀ u v, LinearChain (issuesOf u v c.history)) ∧
      ∀ rid, c.history.countP (Obs.redeems rid) ≤ 1 := by
  obtain ⟨c, hc, hhist⟩ := logoutRace_reachable
  exact ⟨c, hc, hhist, one_live_credential hc⟩

end EnterpriseAssistant.Authn
