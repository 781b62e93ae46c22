import Mathlib.Algebra.Group.Nat.Defs
import EnterpriseAssistant.Authn.Service

/-!
# Refresh tokens: the text and the record

What `unpack_refresh` accepts, what `mint_refresh_token` produces, and what
`verify_and_consume_refresh` makes of the records that `store_refresh` writes.

* `Spells.eq_split` — a text spells at most one pair, though the secret may contain the separator
* `unpackRefresh_ok_iff` — the grammar, from the checks
* `refresh_grammar` — the parser accepts the grammar and inverts `pack_refresh`
* `luaMatch_iff` — what the Lua pattern matches
* `stored_refresh_decoded` — a stored record is decoded for its owner, and for nobody else
-/

namespace EnterpriseAssistant.Authn

open Py

/-! ## The grammar -/

/-- The 8-4-4-4-12 hexadecimal form. -/
def UuidForm (rid : Str) : Prop :=
  ∃ groups : List Str, groups.map List.length = [8, 4, 4, 4, 12] ∧
    (∀ g ∈ groups, ∀ c ∈ g, isHex c = true) ∧ rid = ['-'].intercalate groups

/-- A nonempty word over `[A-Za-z0-9._~-]` of at most 256 characters. -/
def SecretForm (secret : Str) : Prop :=
  secret ≠ [] ∧ secret.length ≤ 256 ∧ ∀ c ∈ secret, isSafe c = true

/-- `t = w₁ rid w₂ '.' w₃ secret w₄`, with blanks for the `w`s. -/
def Spells (t : Str) (pair : RefreshTokenPair) : Prop :=
  UuidForm pair.rid ∧ SecretForm pair.secret ∧
    ∃ w₁ w₂ w₃ w₄, Blank w₁ ∧ Blank w₂ ∧ Blank w₃ ∧ Blank w₄ ∧
      t = (w₁ ++ (pair.rid ++ w₂)) ++ refreshSeparator :: (w₃ ++ (pair.secret ++ w₄))

/-! ## The regular expressions -/

theorem intercalate_dash (g g' : Str) (gs : List Str) :
    ['-'].intercalate (g :: g' :: gs) = g ++ '-' :: ['-'].intercalate (g' :: gs) := by
  rw [List.intercalate_cons_cons, List.append_assoc, List.singleton_append]

/-- Groups of hex digits are what the pattern of `_RE_UUID` describes. -/
theorem hexGroups_iff (n : Nat) (ns : List Nat) (s : Str) :
    hexGroups (n :: ns) s = true ↔ ∃ groups : List Str, groups.map List.length = n :: ns ∧
      (∀ g ∈ groups, ∀ c ∈ g, isHex c = true) ∧ s = ['-'].intercalate groups := by
  induction ns generalizing n s with
  | nil =>
    simp only [hexGroups, Bool.and_eq_true, beq_iff_eq, List.all_eq_true]
    constructor
    · rintro ⟨hlen, hall⟩
      exact ⟨[s], by simp [hlen], by simpa using hall, by simp [List.intercalate]⟩
    · rintro ⟨groups, hlen, hall, rfl⟩
      obtain ⟨g, rfl⟩ : ∃ g, groups = [g] := List.length_eq_one_iff.mp (by
        simpa using congrArg List.length hlen)
      exact ⟨by simpa [List.intercalate] using hlen, by simpa [List.intercalate] using hall⟩
  | cons m ns ih =>
    simp only [hexGroups, Bool.and_eq_true, beq_iff_eq, List.all_eq_true, ih]
    constructor
    · rintro ⟨⟨⟨hlen, hall⟩, hdash⟩, groups, hlens, halls, hs⟩
      refine ⟨s.take n :: groups, by rw [List.map_cons, hlen, hlens], ?_, ?_⟩
      · intro g hg
        rcases List.mem_cons.mp hg with rfl | hg
        · exact hall
        · exact halls g hg
      · cases groups with
        | nil => simp at hlens
        | cons g gs =>
          obtain ⟨hn, hget⟩ := List.getElem?_eq_some_iff.mp hdash
          calc s = s.take n ++ s.drop n := (List.take_append_drop n s).symm
            _ = s.take n ++ '-' :: s.drop (n + 1) := by rw [List.drop_eq_getElem_cons hn, hget]
            _ = ['-'].intercalate (s.take n :: g :: gs) := by
              rw [hs, intercalate_dash]
    · rintro ⟨groups, hlens, halls, rfl⟩
      rcases groups with _ | ⟨g, _ | ⟨g', gs⟩⟩
      · cases hlens
      · simp at hlens
      · rw [List.map_cons, List.cons.injEq] at hlens
        obtain ⟨rfl, hlens⟩ := hlens
        rw [intercalate_dash]
        refine ⟨⟨⟨by simp, ?_⟩, by simp⟩, g' :: gs, hlens, ?_, by simp⟩
        · simpa using halls g List.mem_cons_self
        · exact fun x hx => halls x (List.mem_cons_of_mem g hx)

/-- The newline that `$` may leave is a blank, so `strip` has taken it off. -/
theorem atEnd_strip (body : Str → Bool) (s : Str) : atEnd body (strip s) = body (strip s) := by
  have hlast : (strip s).getLast? ≠ some '\n' := by
    intro h
    have hne : strip s ≠ [] := by
      intro hnil
      rw [hnil] at h
      cases h
    have hends := (strip_eq_self_iff (strip s)).mp (strip_strip s) hne
    rw [List.getLast?_eq_some_getLast hne, Option.some.injEq] at h
    rw [h] at hends
    exact absurd hends.2 (by decide)
  simp [atEnd, hlast]

theorem reUuid_strip (s : Str) : reUuid (strip s) = true ↔ UuidForm (strip s) := by
  rw [reUuid, atEnd_strip, hexGroups_iff]
  rfl

theorem reSafeSeg_strip (s : Str) :
    reSafeSeg (strip s) = true ↔ strip s ≠ [] ∧ ∀ c ∈ strip s, isSafe c = true := by
  rw [reSafeSeg, atEnd_strip]
  simp

/-! ## Characters of the two segments -/

theorem isHex_ne {c d : Char} (hc : isHex c = true) (hd : isHex d = false) : c ≠ d := by
  rintro rfl
  rw [hd] at hc
  cases hc

/-- Capital letters, small letters and digits. -/
theorem isAlphanum_iff {c : Char} : c.isAlphanum = true ↔
    (('A' ≤ c ∧ c ≤ 'Z') ∨ ('a' ≤ c ∧ c ≤ 'z')) ∨ ('0' ≤ c ∧ c ≤ '9') := by
  show ((decide ('A' ≤ c ∧ c ≤ 'Z') || (decide ('a' ≤ c) && decide (c ≤ 'z'))) ||
    (decide ('0' ≤ c) && decide (c ≤ '9'))) = true ↔ _
  simp only [Bool.or_eq_true, Bool.and_eq_true, decide_eq_true_eq]

/-- A blank is neither a hexadecimal digit nor a safe character. -/
theorem isSpace_of_isSafe {c : Char} (h : isSafe c = true) : isSpace c = false := by
  have hascii : 0x21 ≤ c.toNat ∧ c.toNat < 0x7F := by
    simp only [isSafe, Bool.or_eq_true, beq_iff_eq, isAlphanum_iff] at h
    rcases h with (((((h | h) | h) | rfl) | rfl) | rfl) | rfl
    · have h1 : 65 ≤ c.toNat := h.1
      have h2 : c.toNat ≤ 90 := h.2
      omega
    · have h1 : 97 ≤ c.toNat := h.1
      have h2 : c.toNat ≤ 122 := h.2
      omega
    · have h1 : 48 ≤ c.toNat := h.1
      have h2 : c.toNat ≤ 57 := h.2
      omega
    all_goals decide
  simp only [isSpace, Bool.or_eq_false_iff, Bool.and_eq_false_iff, decide_eq_false_iff_not,
    beq_eq_false_iff_ne, ne_eq]
  omega

theorem isSafe_of_isHex {c : Char} (h : isHex c = true) : isSafe c = true := by
  have halnum : c.isAlphanum = true := by
    simp only [isHex, Char.isDigit, Bool.or_eq_true, Bool.and_eq_true, decide_eq_true_eq] at h
    rw [isAlphanum_iff]
    rcases h with (h | ⟨h1, h2⟩) | ⟨h1, h2⟩
    · exact Or.inr h
    · exact Or.inl (Or.inr ⟨h1, Char.le_trans h2 (by decide)⟩)
    · exact Or.inl (Or.inl ⟨h1, Char.le_trans h2 (by decide)⟩)
  simp [isSafe, halnum]

/-- A text of the 8-4-4-4-12 form, group by group. -/
theorem UuidForm.groups {rid : Str} (h : UuidForm rid) :
    ∃ a b c d e, rid = a ++ '-' :: (b ++ '-' :: (c ++ '-' :: (d ++ '-' :: e))) ∧
      (∀ g ∈ [a, b, c, d, e], ∀ x ∈ g, isHex x = true) ∧
      [a, b, c, d, e].map List.length = [8, 4, 4, 4, 12] := by
  obtain ⟨groups, hlens, hall, rfl⟩ := h
  obtain ⟨a, b, c, d, e, rfl⟩ : ∃ a b c d e, groups = [a, b, c, d, e] := by
    rcases groups with _ | ⟨a, _ | ⟨b, _ | ⟨c, _ | ⟨d, _ | ⟨e, _ | _⟩⟩⟩⟩⟩ <;> simp at hlens
    exact ⟨a, b, c, d, e, rfl⟩
  exact ⟨a, b, c, d, e, by simp, hall, hlens⟩

theorem UuidForm.mem {rid : Str} (h : UuidForm rid) {x : Char} (hx : x ∈ rid) :
    isHex x = true ∨ x = '-' := by
  obtain ⟨a, b, c, d, e, rfl, hall, -⟩ := h.groups
  simp only [List.mem_append, List.mem_cons] at hx
  simp only [List.mem_cons, List.not_mem_nil, or_false, forall_eq_or_imp, forall_eq] at hall
  grind

theorem UuidForm.length {rid : Str} (h : UuidForm rid) : rid.length = 36 := by
  obtain ⟨a, b, c, d, e, rfl, -, hlens⟩ := h.groups
  simp only [List.map_cons, List.map_nil, List.cons.injEq, and_true] at hlens
  simp only [List.length_append, List.length_cons]
  omega

theorem UuidForm.isSafe {rid : Str} (h : UuidForm rid) {c : Char} (hc : c ∈ rid) :
    isSafe c = true := by
  rcases h.mem hc with hhex | rfl
  · exact isSafe_of_isHex hhex
  · decide

theorem UuidForm.separator_notMem {rid : Str} (h : UuidForm rid) : refreshSeparator ∉ rid := by
  intro hmem
  rcases h.mem hmem with hhex | heq
  · exact isHex_ne hhex (by decide) rfl
  · exact absurd heq (by decide)

/-- `strip` leaves a text alone that has no blank. -/
theorem strip_of_isSafe {s : Str} (h : ∀ c ∈ s, isSafe c = true) : strip s = s := by
  rw [strip_eq_self_iff]
  exact fun hs => ⟨isSpace_of_isSafe (h _ (List.head_mem hs)),
    isSpace_of_isSafe (h _ (List.getLast_mem hs))⟩

theorem Blank.separator_notMem {w : Str} (h : Blank w) : refreshSeparator ∉ w := by
  intro hmem
  exact absurd (h _ hmem) (by decide)

/-! ## The parser -/

theorem strip_around {w₁ w₂ s : Str} (h₁ : Blank w₁) (h₂ : Blank w₂)
    (hs : ∀ c ∈ s, isSafe c = true) : strip (w₁ ++ (s ++ w₂)) = s := by
  rw [strip_pad h₁ s h₂, strip_of_isSafe hs]

/-- The first separator of a spelling is the one behind the rid. -/
theorem Spells.eq_split {t : Str} {pair : RefreshTokenPair} (h : Spells t pair) :
    refreshSeparator ∈ t ∧ pair.rid = strip (splitOnce refreshSeparator t).1 ∧
      pair.secret = strip (splitOnce refreshSeparator t).2 := by
  obtain ⟨hrid, ⟨-, -, hsafe⟩, w₁, w₂, w₃, w₄, h₁, h₂, h₃, h₄, rfl⟩ := h
  have hfront : refreshSeparator ∉ w₁ ++ (pair.rid ++ w₂) := by
    rw [List.mem_append, List.mem_append]
    rintro (h | h | h)
    · exact Blank.separator_notMem h₁ h
    · exact hrid.separator_notMem h
    · exact Blank.separator_notMem h₂ h
  rw [splitOnce_append hfront, strip_around h₁ h₂ fun c hc => hrid.isSafe hc,
    strip_around h₃ h₄ hsafe]
  exact ⟨List.mem_append_right _ List.mem_cons_self, rfl, rfl⟩

/-- A text spells at most one pair. -/
theorem Spells.unique {t : Str} {pair pair' : RefreshTokenPair} (h : Spells t pair)
    (h' : Spells t pair') : pair = pair' := by
  obtain ⟨-, hrid, hsecret⟩ := h.eq_split
  obtain ⟨-, hrid', hsecret'⟩ := h'.eq_split
  cases pair
  cases pair'
  simp only at hrid hsecret hrid' hsecret'
  rw [hrid, hsecret, hrid', hsecret']

/-- The two sides of the first separator, with the blanks that `strip` takes off. -/
theorem spells_of_split {t : Str} (hsep : refreshSeparator ∈ t)
    (hrid : UuidForm (strip (splitOnce refreshSeparator t).1))
    (hsecret : SecretForm (strip (splitOnce refreshSeparator t).2)) :
    Spells t ⟨strip (splitOnce refreshSeparator t).1, strip (splitOnce refreshSeparator t).2⟩ := by
  obtain ⟨w₁, w₂, h₁, h₂, hfront⟩ := strip_spec (splitOnce refreshSeparator t).1
  obtain ⟨w₃, w₄, h₃, h₄, hback⟩ := strip_spec (splitOnce refreshSeparator t).2
  refine ⟨hrid, hsecret, w₁, w₂, w₃, w₄, h₁, h₂, h₃, h₄, ?_⟩
  rw [← hfront, ← hback, splitOnce_join hsep]

/-- **`unpack_refresh` accepts the grammar**, and answers with the pair that is spelled. -/
theorem unpackRefresh_ok_iff (t : Str) (pair : RefreshTokenPair) :
    unpackRefresh t = .ok pair ↔ (1 ≤ t.length ∧ t.length ≤ 4096) ∧ Spells t pair := by
  constructor
  · intro h
    unfold unpackRefresh at h
    split at h
    · cases h
    next hlen =>
    split at h
    · cases h
    next hsep =>
    simp only at h
    split at h
    · cases h
    next hne =>
    split at h
    · cases h
    next hmax =>
    split at h
    · cases h
    next huuid =>
    split at h
    · cases h
    next hseg =>
    cases h
    simp only [Bool.not_eq_true', Bool.not_eq_false] at huuid hseg
    simp only [maxRefreshTokenLen, maxSecretLen, not_or, Nat.not_lt] at hlen hmax
    obtain ⟨hnil, hsafe⟩ := (reSafeSeg_strip _).mp hseg
    refine ⟨⟨Nat.pos_of_ne_zero hlen.1, hlen.2⟩, ?_⟩
    exact spells_of_split (Decidable.not_not.mp hsep) ((reUuid_strip _).mp huuid)
      ⟨hnil, hmax.2, hsafe⟩
  · rintro ⟨⟨hpos, hle⟩, hsp⟩
    obtain ⟨hsep, hrid, hsecret⟩ := hsp.eq_split
    obtain ⟨huuid, ⟨hnil, hmax, hsafe⟩, -⟩ := hsp
    have hlen := huuid.length
    rw [hrid] at huuid hlen
    rw [hsecret] at hnil hmax hsafe
    have hne : strip (splitOnce refreshSeparator t).1 ≠ [] := List.ne_nil_of_length_eq_add_one hlen
    unfold unpackRefresh
    rw [if_neg (by simp only [maxRefreshTokenLen]; omega), if_neg (not_not_intro hsep)]
    simp only
    rw [if_neg (not_or.mpr ⟨hne, hnil⟩), if_neg (by simp only [maxRidLen, maxSecretLen]; omega),
      (reUuid_strip _).mpr huuid, (reSafeSeg_strip _).mpr ⟨hnil, hsafe⟩, ← hrid, ← hsecret]
    rfl

/-- **`unpack_refresh` inverts `pack_refresh`.** -/
theorem unpackRefresh_packRefresh {pair : RefreshTokenPair} (hrid : UuidForm pair.rid)
    (hsecret : SecretForm pair.secret) : unpackRefresh (packRefresh pair) = .ok pair := by
  have hblank : Blank [] := fun c hc => absurd hc List.not_mem_nil
  rw [unpackRefresh_ok_iff]
  refine ⟨?_, hrid, hsecret, [], [], [], [], hblank, hblank, hblank, hblank, by simp [packRefresh]⟩
  have hlen := hrid.length
  have hmax := hsecret.2.1
  simp only [packRefresh, List.length_append, List.length_cons]
  omega

/-! ## Minting -/

/-- `'%032x' % n` -/
def hex32 (n : Nat) : Str := (List.range 32).map fun i => Nat.digitChar (n / 16 ^ (31 - i) % 16)

/-- `str(uuid.uuid4())`, from 128 random bits: variant and version are set, then it is printed. -/
def uuid4 (random : BitVec 128) : Str :=
  let variant := (random &&& ~~~(0xc000#128 <<< 48)) ||| (0x8000#128 <<< 48)
  let int := (variant &&& ~~~(0xf000#128 <<< 64)) ||| (4#128 <<< 76)
  let hex := hex32 int.toNat
  ['-'].intercalate [hex.take 8, (hex.drop 8).take 4, (hex.drop 12).take 4, (hex.drop 16).take 4,
    hex.drop 20]

/-- The alphabet of `base64.urlsafe_b64encode`. -/
def b64Alphabet : Str := "ABCDEFGHIJKLMNOPQRSTUVWXYZabcdefghijklmnopqrstuvwxyz0123456789-_".toList

def b64Char (n : Nat) : Char := b64Alphabet[n % 64]?.getD '-'

/-- `base64.urlsafe_b64encode`: four characters for three bytes, with `=` for what is missing. -/
def urlsafeB64encode : List UInt8 → Str
  | [] => []
  | [a] => [b64Char (a.toNat / 4), b64Char (a.toNat * 16), '=', '=']
  | [a, b] =>
    [b64Char (a.toNat / 4), b64Char (a.toNat * 16 + b.toNat / 16), b64Char (b.toNat * 4), '=']
  | a :: b :: c :: rest =>
    b64Char (a.toNat / 4) :: b64Char (a.toNat * 16 + b.toNat / 16) ::
      b64Char (b.toNat * 4 + c.toNat / 64) :: b64Char c.toNat :: urlsafeB64encode rest

/-- `secrets.token_urlsafe(nbytes)` of these random bytes. -/
def tokenUrlsafe (bytes : List UInt8) : Str := (urlsafeB64encode bytes).rdropWhile (· == '=')

def mintRefreshToken (random : BitVec 128) (bytes : Vector UInt8 48) : RefreshTokenPair :=
  { rid := uuid4 random, secret := tokenUrlsafe bytes.toList }

theorem isHex_digitChar {n : Nat} (h : n < 16) : isHex (Nat.digitChar n) = true := by
  have hall : ∀ m : Fin 16, isHex (Nat.digitChar m) = true := by decide
  exact hall ⟨n, h⟩

theorem uuidForm_uuid4 (random : BitVec 128) : UuidForm (uuid4 random) := by
  unfold uuid4
  simp only
  generalize BitVec.toNat _ = n
  have hlen : (hex32 n).length = 32 := by simp [hex32]
  have hhex : ∀ c ∈ hex32 n, isHex c = true := by
    intro c hc
    obtain ⟨i, -, rfl⟩ := List.mem_map.mp hc
    exact isHex_digitChar (Nat.mod_lt _ (by decide))
  refine ⟨_, ?_, ?_, rfl⟩
  · simp [hlen]
  · intro g hg c hc
    refine hhex c ?_
    simp only [List.mem_cons, List.not_mem_nil, or_false] at hg
    rcases hg with rfl | rfl | rfl | rfl | rfl
    · exact List.mem_of_mem_take hc
    · exact List.mem_of_mem_drop (List.mem_of_mem_take hc)
    · exact List.mem_of_mem_drop (List.mem_of_mem_take hc)
    · exact List.mem_of_mem_drop (List.mem_of_mem_take hc)
    · exact List.mem_of_mem_drop hc

theorem b64Char_mem (n : Nat) : b64Char n ∈ b64Alphabet := by
  have hlt : n % 64 < b64Alphabet.length := Nat.mod_lt _ (by decide)
  rw [b64Char, List.getElem?_eq_getElem hlt, Option.getD_some]
  exact List.getElem_mem hlt

/-- Whole groups of three bytes need no `=`. -/
theorem urlsafeB64encode_spec (bytes : List UInt8) (h : bytes.length % 3 = 0) :
    3 * (urlsafeB64encode bytes).length = 4 * bytes.length ∧
      ∀ c ∈ urlsafeB64encode bytes, c ∈ b64Alphabet := by
  induction bytes using urlsafeB64encode.induct with
  | case1 => exact ⟨rfl, fun c hc => absurd hc List.not_mem_nil⟩
  | case2 a => simp at h
  | case3 a b => simp at h
  | case4 a b c rest ih =>
    obtain ⟨hlen, hmem⟩ := ih (by simp only [List.length_cons] at h; omega)
    refine ⟨by simp only [urlsafeB64encode, List.length_cons]; omega, ?_⟩
    intro x hx
    simp only [urlsafeB64encode, List.mem_cons] at hx
    rcases hx with rfl | rfl | rfl | rfl | hx
    · exact b64Char_mem _
    · exact b64Char_mem _
    · exact b64Char_mem _
    · exact b64Char_mem _
    · exact hmem x hx

theorem secretForm_tokenUrlsafe (bytes : Vector UInt8 48) :
    SecretForm (tokenUrlsafe bytes.toList) := by
  have hbytes : bytes.toList.length = 48 := bytes.length_toList
  obtain ⟨hlen, hmem⟩ := urlsafeB64encode_spec bytes.toList (by rw [hbytes])
  rw [hbytes] at hlen
  have hsafe : ∀ c ∈ b64Alphabet, isSafe c = true ∧ (c == '=') = false := by
    have hall : b64Alphabet.all (fun c => isSafe c && !(c == '=')) = true := by decide
    simpa using hall
  have htoken : tokenUrlsafe bytes.toList = urlsafeB64encode bytes.toList := by
    rw [tokenUrlsafe, List.rdropWhile_eq_self_iff]
    intro hne
    rw [(hsafe _ (hmem _ (List.getLast_mem hne))).2]
    exact Bool.false_ne_true
  rw [htoken]
  exact ⟨List.ne_nil_of_length_pos (by omega), by omega, fun c hc => (hsafe c (hmem c hc)).1⟩

/--
**The text of a refresh token.**  `unpack_refresh` accepts exactly the grammar, a text has one
reading, and packing is undone, for every minted pair in particular.
-/
theorem refresh_grammar :
    (∀ t pair, unpackRefresh t = .ok pair ↔ (1 ≤ t.length ∧ t.length ≤ 4096) ∧ Spells t pair) ∧
    (∀ t pair pair', Spells t pair → Spells t pair' → pair = pair') ∧
    (∀ rid secret, UuidForm rid → SecretForm secret →
      unpackRefresh (packRefresh ⟨rid, secret⟩) = .ok ⟨rid, secret⟩) ∧
    ∀ random bytes, unpackRefresh (packRefresh (mintRefreshToken random bytes))
      = .ok (mintRefreshToken random bytes) := by
  refine ⟨unpackRefresh_ok_iff, fun t pair pair' h h' => h.unique h', ?_, ?_⟩
  · intro rid secret hrid hsecret
    exact unpackRefresh_packRefresh hrid hsecret
  · intro random bytes
    exact unpackRefresh_packRefresh (uuidForm_uuid4 random) (secretForm_tokenUrlsafe bytes)

/-! ## The stored record -/

variable (sha256 : Str → Str)

/-- `digits|digits|rest` -/
def RecordForm (v : Str) : Prop :=
  ∃ a b rest, a ≠ [] ∧ (∀ c ∈ a, c.isDigit = true) ∧ b ≠ [] ∧ (∀ c ∈ b, c.isDigit = true) ∧
    rest ≠ [] ∧ v = a ++ '|' :: (b ++ '|' :: rest)

/-- The capture takes all digits, for the bar is none. -/
theorem luaDigits_iff {v a rest : Str} :
    luaDigits v = some (a, rest) ↔
      a ≠ [] ∧ (∀ c ∈ a, c.isDigit = true) ∧ v = a ++ '|' :: rest := by
  constructor
  · intro h
    obtain ⟨hne, hall⟩ := luaDigits_spec h
    refine ⟨hne, hall, ?_⟩
    unfold luaDigits at h
    split at h
    next rest' hdrop =>
      split at h
      · cases h
      · cases h
        rw [← hdrop, List.takeWhile_append_dropWhile]
    · cases h
  · rintro ⟨hne, hall, rfl⟩
    unfold luaDigits
    rw [List.dropWhile_append_of_pos hall, List.takeWhile_append_of_pos hall]
    simp [hne, show Char.isDigit '|' = false by decide]

/-- What `string.match` captures. -/
theorem luaMatch_iff {v a b hash : Str} :
    luaMatch v = some (a, b, hash) ↔ a ≠ [] ∧ (∀ c ∈ a, c.isDigit = true) ∧ b ≠ [] ∧
      (∀ c ∈ b, c.isDigit = true) ∧ hash ≠ [] ∧ v = a ++ '|' :: (b ++ '|' :: hash) := by
  constructor
  · intro h
    have hne : hash ≠ [] := by
      unfold luaMatch at h
      split at h
      · cases h
      · split at h
        · cases h
        · split at h
          · cases h
          next hne =>
            cases h
            exact hne
    obtain ⟨rest, h1, h2⟩ := luaMatch_spec h
    obtain ⟨ha, halla, rfl⟩ := luaDigits_iff.mp h1
    obtain ⟨hb, hallb, rfl⟩ := luaDigits_iff.mp h2
    exact ⟨ha, halla, hb, hallb, hne, rfl⟩
  · rintro ⟨ha, halla, hb, hallb, hne, rfl⟩
    unfold luaMatch
    rw [luaDigits_iff.mpr ⟨ha, halla, rfl⟩]
    simp only
    rw [luaDigits_iff.mpr ⟨hb, hallb, rfl⟩]
    simp only
    rw [if_neg hne]

theorem luaMatch_eq_none {v : Str} (h : ¬RecordForm v) : luaMatch v = none := by
  cases hm : luaMatch v with
  | none => rfl
  | some m =>
    obtain ⟨a, b, hash⟩ := m
    exact absurd ⟨a, b, hash, luaMatch_iff.mp hm⟩ h

/-- A number that is not negative is printed without a sign. -/
theorem digits_of_nonneg {n : Int} (h : 0 ≤ n) : ∀ c ∈ str n, c.isDigit = true := by
  intro c hc
  cases n with
  | ofNat n => exact isDigit_of_mem_toDigits hc
  | negSucc n => exact absurd h (Int.not_le.mpr (Int.negSucc_lt_zero n))

variable {sha256}

/-- The owner gets the numbers that were stored. -/
theorem verify_stored (hsha : ∀ s, sha256 s ≠ []) {redis : Redis.Keyspace}
    {pair : RefreshTokenPair} {userId tokenVer : Int} (hu : 0 ≤ userId) (hv : 0 ≤ tokenVer)
    (hlookup : redis.lookup (keyRefresh pair.rid)
      = some (refreshValue sha256 userId tokenVer pair.secret)) :
    verifyAndConsumeRefresh sha256 redis pair
      = (some (userId, tokenVer), redis.erase (keyRefresh pair.rid)) := by
  have hmatch : luaMatch (refreshValue sha256 userId tokenVer pair.secret)
      = some (str userId, str tokenVer, sha256 pair.secret) :=
    luaMatch_iff.mpr ⟨str_ne_nil _, digits_of_nonneg hu, str_ne_nil _, digits_of_nonneg hv,
      hsha _, rfl⟩
  simp [verifyAndConsumeRefresh, luaVerifyAndConsume, hlookup, hmatch, int?_str]

/-- The entry that answers has the form of a record, and the hash of the secret in it. -/
theorem verify_none {redis : Redis.Keyspace} {pair : RefreshTokenPair}
    (h : ∀ val a b, redis.lookup (keyRefresh pair.rid) = some val →
      luaMatch val ≠ some (a, b, sha256 pair.secret)) :
    verifyAndConsumeRefresh sha256 redis pair = (none, redis) := by
  rcases verifyAndConsumeRefresh_cases sha256 redis pair with hnone | hsome
  · exact hnone
  · obtain ⟨val, a, b, u, w, hlookup, hmatch, -⟩ := hsome
    exact absurd hmatch (h val a b hlookup)

/--
**A stored refresh record is decoded to what was stored, and only for its owner.**  The answer
deletes this key; every other outcome leaves the whole keyspace as it was.
-/
theorem stored_refresh_decoded (hsha : ∀ s, sha256 s ≠ []) (redis : Redis.Keyspace)
    (pair : RefreshTokenPair) (userId tokenVer : Int) (hu : 0 ≤ userId) (hv : 0 ≤ tokenVer) :
    let stored := storeRefresh sha256 redis pair userId tokenVer
    (∃ redis', verifyAndConsumeRefresh sha256 stored pair = (some (userId, tokenVer), redis') ∧
      ∀ k, redis'.lookup k = if k = keyRefresh pair.rid then none else stored.lookup k) ∧
    (∀ secret, sha256 secret ≠ sha256 pair.secret →
      verifyAndConsumeRefresh sha256 stored { pair with secret } = (none, stored)) ∧
    (∀ (store : Redis.Keyspace) (other : RefreshTokenPair),
      store.lookup (keyRefresh other.rid) = none →
        verifyAndConsumeRefresh sha256 store other = (none, store)) ∧
    ∀ (store : Redis.Keyspace) (other : RefreshTokenPair) (val : Str),
      store.lookup (keyRefresh other.rid) = some val → ¬RecordForm val →
        verifyAndConsumeRefresh sha256 store other = (none, store) := by
  intro stored
  have hlookup : stored.lookup (keyRefresh pair.rid)
      = some (refreshValue sha256 userId tokenVer pair.secret) := AList.lookup_insert redis
  refine ⟨⟨_, verify_stored hsha hu hv hlookup, ?_⟩, ?_, ?_, ?_⟩
  · intro k
    split
    next hk => rw [hk, AList.lookup_erase]
    next hk => exact AList.lookup_erase_ne hk
  · intro secret hne
    refine verify_none fun val a b hval hmatch => ?_
    rw [hlookup, Option.some.injEq] at hval
    rw [← hval] at hmatch
    exact hne (luaMatch_refreshValue sha256 hmatch).2.2
  · intro store other hnone
    refine verify_none fun val a b hval => ?_
    rw [hnone] at hval
    cases hval
  · intro store other val hval hform
    refine verify_none fun val' a b hval' => ?_
    rw [hval, Option.some.injEq] at hval'
    rw [← hval', luaMatch_eq_none hform]
    exact (Option.some_ne_none _).symm

/-- SHA-256 of the two secrets below. -/
def twoDigests (s : Str) : Str :=
  if s = ['s'] then "043a718774c572bd8a25adbeb1bfcd5c0256ae11cecf9f9c3f925d0e52beaf89".toList
  else "e3b98a4da31a127d4bde6e43033f66ba274cab0eb7eb1c70ec41402bf6273dd8".toList

/-- The session of user 12 is taken out, and the one of user 3 stays. -/
theorem stored_refresh_decoded_two :
    ∃ redis', verifyAndConsumeRefresh twoDigests (storeRefresh twoDigests
        (storeRefresh twoDigests ∅ ⟨['r'], ['s']⟩ 3 0) ⟨['q'], ['t']⟩ 12 7) ⟨['q'], ['t']⟩
        = (some (12, 7), redis') ∧
      redis'.lookup (keyRefresh ['r']) ≠ none := by
  have hsha : ∀ s, twoDigests s ≠ [] := by
    intro s
    unfold twoDigests
    split <;> decide
  have hstored := stored_refresh_decoded hsha (storeRefresh twoDigests ∅ ⟨['r'], ['s']⟩ 3 0)
    ⟨['q'], ['t']⟩ 12 7 (by decide) (by decide)
  obtain ⟨redis', hverify, hkeys⟩ := hstored.1
  refine ⟨redis', hverify, ?_⟩
  rw [hkeys, if_neg (by decide)]
  decide

end EnterpriseAssistant.Authn
