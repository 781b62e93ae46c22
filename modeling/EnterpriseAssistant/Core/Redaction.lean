import EnterpriseAssistant.Lib.Regex

/-!
# Redaction of strings

The patterns of `app/core/redaction.py`, and `redact_str`.

* `accepts_bearer_iff`, `accepts_jwt_head` — how a credential looks
* `absorbs_bearer`, `absorbs_jwt` — a mask makes no credential with what is around it
* `redactStr_clean` — no token is found in the result, and redacting it again does nothing
* `redactStr_eq_iff` — two texts are redacted to the same when they differ in tokens only
-/

namespace EnterpriseAssistant.Core

open Py Regex

/-- `\w`: letters, digits and the underscore; of the other scripts nothing is assumed. -/
structure WordClass where
  isWord : Char → Bool
  ascii : ∀ c, c.toNat < 128 → isWord c = (c.isAlphanum || c == '_')

/-- The word characters of ASCII, and no others. -/
def asciiWords : WordClass where
  isWord c := c.isAlphanum || c == '_'
  ascii _ _ := rfl

/-! ## The patterns -/

/-- A letter under `re.IGNORECASE`. -/
def letter (c : Char) : Atom := .one fun x => x == c || x == c.toUpper

/--
`[A-Za-z0-9\-._~+/]` under `re.IGNORECASE`: the Turkish i's, the long s and the Kelvin sign have an
ASCII letter as their other case.
-/
def isTokenChar (c : Char) : Bool :=
  c.isAlphanum || "-._~+/".toList.contains c || [0x130, 0x131, 0x17F, 0x212A].contains c.toNat

/-- `[A-Za-z0-9_-]` -/
def isSegmentChar (c : Char) : Bool := c.isAlphanum || c == '_' || c == '-'

def isEqualsSign (c : Char) : Bool := c == '='

def literal (c : Char) : Atom := .one fun x => x == c

/-- `\bBearer\s+` -/
def bearerHead : Pattern :=
  [.boundary, letter 'b', letter 'e', letter 'a', letter 'r', letter 'e', letter 'r',
    .one isSpace, .many isSpace]

/-- `_RE_BEARER`: `\bBearer\s+([A-Za-z0-9\-._~+/]+=*)` -/
def reBearer : Pattern :=
  bearerHead ++ [.one isTokenChar, .many isTokenChar, .many isEqualsSign]

/-- `[A-Za-z0-9_-]+=*` -/
def segment : Pattern := [.one isSegmentChar, .many isSegmentChar, .many isEqualsSign]

/-- `_RE_JWT`: `\beyJ[A-Za-z0-9_-]+=*\.[A-Za-z0-9_-]+=*\.[A-Za-z0-9_-]+=*\b` -/
def reJwt : Pattern :=
  [.boundary, literal 'e', literal 'y', literal 'J'] ++ segment ++ [literal '.'] ++ segment ++
    [literal '.'] ++ segment ++ [.boundary]

def bearerMask : Str := "Bearer ***".toList

def jwtMask : Str := "***.***.***".toList

variable (w : WordClass)

/-- `redact_str` -/
def redactStr (s : Str) : Str :=
  sub w.isWord reJwt jwtMask (sub w.isWord reBearer bearerMask s)

variable {w}

/-! ## How a credential looks -/

theorem isWord_b {b : Char} (hb : b = 'b' ∨ b = 'B') : w.isWord b = true := by
  rcases hb with rfl | rfl
  · rw [w.ascii 'b' (by decide)]
    decide
  · rw [w.ascii 'B' (by decide)]
    decide

theorem isTokenChar_b {b : Char} (hb : b = 'b' ∨ b = 'B') : isTokenChar b = true := by
  rcases hb with rfl | rfl
  · decide
  · decide

theorem isWord_e : w.isWord 'e' = true := by
  rw [w.ascii 'e' (by decide)]
  decide

theorem isWord_star : w.isWord '*' = false := by
  rw [w.ascii '*' (by decide)]
  decide

theorem bearerHead_spec {prev : Option Char} {m : Str} {next : Option Char}
    (h : Accepts w.isWord bearerHead prev m next) :
    ∃ b t, m = b :: t ∧ (b = 'b' ∨ b = 'B') ∧ 'B' ∉ t ∧ wordAt w.isWord prev = false ∧
      ∀ next', Accepts w.isWord bearerHead prev m next' := by
  have hB : ∀ {d x : Char}, (x == d || x == d.toUpper) = true → d ≠ 'B' → d.toUpper ≠ 'B' →
      x ≠ 'B' := by
    rintro d x hx hd hD rfl
    rcases Bool.or_eq_true_iff.mp hx with hx | hx
    · exact hd (beq_iff_eq.mp hx).symm
    · exact hD (beq_iff_eq.mp hx).symm
  obtain ⟨hword, b, _, rfl, hb, e, _, rfl, he, a, _, rfl, ha, r, _, rfl, hr, e', _, rfl, he',
    r', _, rfl, hr', c, _, rfl, hc, ws, _, rfl, hws, rfl⟩ := h
  have hb' : b = 'b' ∨ b = 'B' := by simpa using hb
  refine ⟨b, _, rfl, hb', ?_, ?_, ?_⟩
  · intro hmem
    simp only [List.append_nil, List.mem_cons] at hmem
    rcases hmem with h | h | h | h | h | h | h
    · exact hB he (by decide) (by decide) h.symm
    · exact hB ha (by decide) (by decide) h.symm
    · exact hB hr (by decide) (by decide) h.symm
    · exact hB he' (by decide) (by decide) h.symm
    · exact hB hr' (by decide) (by decide) h.symm
    · rw [← h] at hc
      exact absurd hc (by decide)
    · exact absurd (hws 'B' h) (by decide)
  · simp only [List.head?_cons, Option.some_or, wordAt_some, isWord_b hb'] at hword
    simpa using hword
  · intro next'
    exact ⟨hword, b, _, rfl, hb, e, _, rfl, he, a, _, rfl, ha, r, _, rfl, hr, e', _, rfl, he',
      r', _, rfl, hr', c, _, rfl, hc, ws, _, rfl, hws, rfl⟩

/-- Seven characters, and then only blanks. -/
theorem bearerHead_split {prev : Option Char} {m : Str} {next : Option Char}
    (h : Accepts w.isWord bearerHead prev m next) :
    ∃ l ws, m = l ++ ws ∧ l.length = 7 ∧ Blank ws := by
  obtain ⟨-, b, _, rfl, -, e, _, rfl, -, a, _, rfl, -, r, _, rfl, -, e', _, rfl, -,
    r', _, rfl, -, c, _, rfl, -, ws, _, rfl, hws, rfl⟩ := h
  exact ⟨[b, e, a, r, e', r', c], ws, by simp, rfl, hws⟩

theorem accepts_bearer_iff {prev : Option Char} {m : Str} {next : Option Char} :
    Accepts w.isWord reBearer prev m next ↔ ∃ x c toks eqs, m = x ++ c :: (toks ++ eqs) ∧
      Accepts w.isWord bearerHead prev x (some c) ∧ isTokenChar c = true ∧
      (∀ d ∈ toks, isTokenChar d = true) ∧ ∀ d ∈ eqs, isEqualsSign d = true := by
  rw [reBearer, accepts_append]
  constructor
  · rintro ⟨x, _, rfl, hx, c, _, rfl, hc, toks, _, rfl, htoks, eqs, _, rfl, heqs, rfl⟩
    rw [List.append_nil]
    exact ⟨x, c, toks, eqs, rfl, hx, hc, htoks, heqs⟩
  · rintro ⟨x, c, toks, eqs, rfl, hx, hc, htoks, heqs⟩
    exact ⟨x, _, rfl, hx, c, _, rfl, hc, toks, _, rfl, htoks, eqs, [], (List.append_nil eqs).symm,
      heqs, rfl⟩

/-- What follows a bearer credential is not felt. -/
theorem accepts_bearer_next {prev : Option Char} {m : Str} {next : Option Char}
    (h : Accepts w.isWord reBearer prev m next) (next' : Option Char) :
    Accepts w.isWord reBearer prev m next' := accepts_bearer_iff.mpr (accepts_bearer_iff.mp h)

theorem accepts_bearer_head {prev : Option Char} {m : Str} {next : Option Char}
    (h : Accepts w.isWord reBearer prev m next) :
    ∃ b t, m = b :: t ∧ (b = 'b' ∨ b = 'B') ∧ wordAt w.isWord prev = false := by
  obtain ⟨x, c, toks, eqs, rfl, hx, -⟩ := accepts_bearer_iff.mp h
  obtain ⟨b, t, rfl, hb, -, hprev, -⟩ := bearerHead_spec hx
  exact ⟨b, _, rfl, hb, hprev⟩

/-- One character of the token is enough. -/
theorem accepts_bearer_short {prev : Option Char} {x : Str} {c : Char}
    (hx : Accepts w.isWord bearerHead prev x (some c)) (hc : isTokenChar c = true)
    (next : Option Char) : Accepts w.isWord reBearer prev (x ++ [c]) next :=
  accepts_bearer_iff.mpr ⟨x, c, [], [], rfl, hx, hc, fun _ h => absurd h List.not_mem_nil,
    fun _ h => absurd h List.not_mem_nil⟩

/-! ## The first pass -/

/-- There is no credential at any position of the mask. -/
theorem ends_bearerMask (prev : Option Char) {x y : Str} (hxy : bearerMask = x ++ y)
    (hy : y ≠ []) (out : Str) : ends w.isWord reBearer (after prev x) (y ++ out) = [] := by
  rw [ends_eq_nil_iff]
  intro m t hs hm
  cases x with
  | nil =>
    -- behind the blank there is a star
    rw [List.nil_append] at hxy
    obtain ⟨x, c, toks, eqs, rfl, hx, hc, -⟩ := accepts_bearer_iff.mp hm
    obtain ⟨l, ws, rfl, hlen, hws⟩ := bearerHead_split hx
    have hsplit : "Bearer ".toList ++ ("***".toList ++ out)
        = l ++ (ws ++ c :: (toks ++ eqs ++ t)) := by
      calc "Bearer ".toList ++ ("***".toList ++ out) = bearerMask ++ out := rfl
        _ = l ++ ws ++ c :: (toks ++ eqs) ++ t := by rw [hxy, hs]
        _ = l ++ (ws ++ c :: (toks ++ eqs ++ t)) := by simp
    have hrest := (List.append_inj hsplit (by rw [hlen]; rfl)).2
    cases ws with
    | nil =>
      obtain rfl : '*' = c := (List.cons.inj hrest).1
      exact absurd hc (by decide)
    | cons d ws =>
      obtain rfl : '*' = d := (List.cons.inj hrest).1
      exact absurd (hws '*' List.mem_cons_self) (by decide)
  | cons c x =>
    obtain ⟨b, m', rfl, hb, -⟩ := accepts_bearer_head hm
    obtain ⟨d, y, rfl⟩ := List.exists_cons_of_ne_nil hy
    obtain rfl : d = b := (List.cons.inj hs).1
    have hmem : d ∈ "earer ***".toList := by
      have htail : "earer ***".toList = x ++ d :: y := (List.cons.inj hxy).2
      rw [htail]
      exact List.mem_append_right x List.mem_cons_self
    rcases hb with rfl | rfl
    · exact absurd hmem (by decide)
    · exact absurd hmem (by decide)

/--
What a bearer credential in front of a mask would be made of: the original has its head, too, with
one character of a token behind it.
-/
theorem bearer_in_literals {y m t x t' : Str} {b' d : Char}
    (heq : y ++ (bearerMask ++ t) = x ++ d :: t') (hd : isTokenChar d = true)
    (hb : b' = 'b' ∨ b' = 'B') (hy : y ≠ []) (hB : 'B' ∉ x.tail) :
    ∃ e t'', y ++ (b' :: m ++ t) = x ++ e :: t'' ∧ isTokenChar e = true := by
  have hwhole : x = y → ∃ e t'', y ++ (b' :: m ++ t) = x ++ e :: t'' ∧ isTokenChar e = true := by
    rintro rfl
    exact ⟨b', m ++ t, rfl, isTokenChar_b hb⟩
  rcases List.append_eq_append_iff.mp heq with ⟨l, rfl, hl⟩ | ⟨l, rfl, hl⟩
  · cases l with
    | nil => exact hwhole (List.append_nil y)
    | cons c l =>
      obtain rfl : 'B' = c := (List.cons.inj hl).1
      obtain ⟨a, y, rfl⟩ := List.exists_cons_of_ne_nil hy
      exact absurd (List.mem_append_right y List.mem_cons_self) hB
  · cases l with
    | nil => exact hwhole (List.append_nil x).symm
    | cons c l =>
      obtain rfl : d = c := (List.cons.inj hl).1
      exact ⟨d, l ++ (b' :: m ++ t), by simp, hd⟩

/-- **A bearer mask makes no bearer credential** with what is around it. -/
theorem absorbs_bearer : Absorbs w.isWord reBearer bearerMask reBearer where
  before {prev a m t} htaken hno x y hxy hy := by
    obtain ⟨b', m, rfl, hb', -⟩ := accepts_bearer_head htaken.accepts
    rw [ends_eq_nil_iff]
    intro m₁ t₁ hm₁ haccepts
    obtain ⟨x₁, d, toks, eqs, rfl, hx₁, hd, -⟩ := accepts_bearer_iff.mp haccepts
    obtain ⟨b, x₁, rfl, -, hB, -, hnext⟩ := bearerHead_spec hx₁
    rw [List.append_assoc, List.cons_append] at hm₁
    obtain ⟨e, t', heq, he⟩ := bearer_in_literals (x := b :: x₁) hm₁ hd hb' hy hB
    refine ends_eq_nil_iff.mp (hno x y hxy hy) (b :: x₁ ++ [e]) t' ?_
      (accepts_bearer_short (hnext (some e)) he _)
    rw [heq, List.append_assoc, List.singleton_append]
  inside prev t x y hxy hy := ends_bearerMask prev hxy hy t
  behind {prev m t} prev' htaken := by
    have hnone : ∀ p, (∀ b t', t = b :: t' → ¬(b = 'b' ∨ b = 'B')) →
        ends w.isWord reBearer p t = [] := by
      intro p hhead
      rw [ends_eq_nil_iff]
      intro m₁ t₁ hm₁ haccepts
      obtain ⟨b, m₁, rfl, hb, -⟩ := accepts_bearer_head haccepts
      exact hhead b (m₁ ++ t₁) hm₁ hb
    by_cases hhead : ∀ b t', t = b :: t' → ¬(b = 'b' ∨ b = 'B')
    · rw [hnone _ hhead, hnone _ hhead]
    · push Not at hhead
      obtain ⟨b, t, rfl, hb⟩ := hhead
      -- a letter only follows a credential that has taken an equals sign
      obtain ⟨d, hd, hequals⟩ := after_greedy_tail (r := bearerHead ++ [.one isTokenChar])
        htaken.head (isTokenChar_b hb)
      refine ends_congr ?_
      rw [hd, beq_iff_eq.mp hequals]
      show w.isWord '*' = w.isWord '='
      rw [w.ascii '*' (by decide), w.ascii '=' (by decide)]
      decide

theorem bearer_nonempty (prev next : Option Char) : ¬Accepts w.isWord reBearer prev [] next := by
  intro h
  obtain ⟨b, t, ht, -⟩ := accepts_bearer_head h
  cases ht

/-! ## The second pass -/

theorem accepts_jwt_head {prev : Option Char} {m : Str} {next : Option Char}
    (h : Accepts w.isWord reJwt prev m next) :
    ∃ t, m = 'e' :: t ∧ wordAt w.isWord prev = false := by
  obtain ⟨hword, e, t, rfl, he, -⟩ := h
  obtain rfl : e = 'e' := beq_iff_eq.mp he
  refine ⟨t, rfl, ?_⟩
  simp only [List.head?_cons, Option.some_or, wordAt_some, isWord_e] at hword
  simpa using hword

theorem accepts_jwt_final {prev : Option Char} {m : Str} {next : Option Char}
    (h : Accepts w.isWord reJwt prev m next) :
    wordAt w.isWord (after prev m) ≠ wordAt w.isWord next := h.final_boundary

/-- The matches of a pattern begin with a word, and with no character of the mask. -/
def StartsWord (w : WordClass) (r : Pattern) : Prop :=
  ∀ prev m next, Accepts w.isWord r prev m next →
    ∃ c t, m = c :: t ∧ w.isWord c = true ∧ c ∉ jwtMask ∧ wordAt w.isWord prev = false

theorem startsWord_bearer : StartsWord w reBearer := by
  intro prev m next hm
  obtain ⟨b, t, rfl, hb, hprev⟩ := accepts_bearer_head hm
  refine ⟨b, t, rfl, isWord_b hb, ?_, hprev⟩
  rcases hb with rfl | rfl
  · decide
  · decide

theorem startsWord_jwt : StartsWord w reJwt := by
  intro prev m next hm
  obtain ⟨t, rfl, hprev⟩ := accepts_jwt_head hm
  exact ⟨'e', t, rfl, isWord_e, by decide, hprev⟩

/-- A JWT mask makes no match of a pattern that begins with a word and takes no star. -/
theorem absorbs_jwt_of {r : Pattern} (hstart : StartsWord w r)
    (hstar : ∀ a ∈ r, a.admits '*' = false)
    (hbefore : ∀ p q m m' next, Accepts w.isWord r p m (some '*') → m' ≠ [] →
      Accepts w.isWord reJwt (after q m) m' next → Accepts w.isWord r p m m'.head?) :
    Absorbs w.isWord reJwt jwtMask r where
  before {prev a m t} htaken hno x y hxy hy := by
    rw [ends_eq_nil_iff]
    intro m₁ t₁ hm₁ haccepts
    have hstarless : '*' ∉ m₁ := by
      intro hmem
      obtain ⟨atom, hatom, hadmits⟩ := haccepts.exists_admits hmem
      rw [hstar atom hatom] at hadmits
      cases hadmits
    have hends := ends_eq_nil_iff.mp (hno x y hxy hy)
    -- a match that ends where the mask begins ends where the token began
    have hwhole : m₁ = y → t₁ = jwtMask ++ t → False := by
      rintro rfl rfl
      refine hends m₁ (m ++ t) rfl ?_
      rw [List.head?_append_of_ne_nil _ htaken.nonempty]
      refine hbefore _ (after prev x) m₁ m t.head? haccepts htaken.nonempty ?_
      rw [← after_append, ← hxy]
      exact htaken.accepts
    rcases List.append_eq_append_iff.mp hm₁ with ⟨l, rfl, hl⟩ | ⟨l, rfl, rfl⟩
    · cases l with
      | nil => exact hwhole (List.append_nil y) hl.symm
      | cons c l =>
        obtain rfl : '*' = c := (List.cons.inj hl).1
        exact hstarless (List.mem_append_right y List.mem_cons_self)
    · cases l with
      | nil => exact hwhole (List.append_nil m₁).symm rfl
      | cons c l => exact hends m₁ (c :: l ++ (m ++ t)) (by simp) haccepts
  inside prev t x y hxy hy := by
    rw [ends_eq_nil_iff]
    intro m₁ t₁ hm₁ haccepts
    obtain ⟨c, m₁, rfl, -, hc, -⟩ := hstart _ _ _ haccepts
    obtain ⟨d, y, rfl⟩ := List.exists_cons_of_ne_nil hy
    obtain rfl : d = c := (List.cons.inj hm₁).1
    exact hc (hxy ▸ List.mem_append_right x List.mem_cons_self)
  behind {prev m t} prev' htaken := by
    have hfinal := accepts_jwt_final htaken.accepts
    cases hword : wordAt w.isWord t.head? with
    | true =>
      rw [hword, ne_eq, Bool.not_eq_true] at hfinal
      refine ends_congr (Eq.trans ?_ hfinal.symm)
      exact isWord_star
    | false =>
      have hnone : ∀ p, ends w.isWord r p t = [] := by
        intro p
        rw [ends_eq_nil_iff]
        rintro m₁ t₁ rfl haccepts
        obtain ⟨c, m₁, rfl, hc, -⟩ := hstart _ _ _ haccepts
        rw [List.cons_append, List.head?_cons, wordAt_some, hc] at hword
        cases hword
      rw [hnone, hnone]

theorem reJwt_star : ∀ a ∈ reJwt, a.admits '*' = false := by
  have hall : reJwt.all (fun a => !a.admits '*') = true := by decide
  simpa using hall

theorem reBearer_star : ∀ a ∈ reBearer, a.admits '*' = false := by
  have hall : reBearer.all (fun a => !a.admits '*') = true := by decide
  simpa using hall

/-- **A JWT mask makes no JWT** with what is around it. -/
theorem absorbs_jwt : Absorbs w.isWord reJwt jwtMask reJwt := by
  refine absorbs_jwt_of startsWord_jwt reJwt_star ?_
  -- what ends in front of a mask ends with a word, and so no token began there
  intro p q m m' next hm _ hm'
  obtain ⟨t, rfl, -⟩ := accepts_jwt_head hm
  obtain ⟨-, -, hprev⟩ := accepts_jwt_head hm'
  have hfinal := accepts_jwt_final hm
  rw [after_cons] at hprev hfinal
  rw [hprev, wordAt_some, isWord_star] at hfinal
  exact absurd rfl hfinal

/-- **A JWT mask makes no bearer credential**, either. -/
theorem absorbs_jwt_bearer : Absorbs w.isWord reJwt jwtMask reBearer :=
  absorbs_jwt_of startsWord_bearer reBearer_star
    fun _ _ _ _ _ hm _ _ => accepts_bearer_next hm _

theorem jwt_nonempty (prev next : Option Char) : ¬Accepts w.isWord reJwt prev [] next := by
  intro h
  obtain ⟨t, ht, -⟩ := accepts_jwt_head h
  cases ht

/-! ## One token after the other -/

/-- The first token that is found of a text is masked; bearer credentials are found before JWTs. -/
inductive TokenMasked (w : WordClass) : Str → Str → Prop
  | bearer {s s' : Str} (hs : subFirst w.isWord reBearer bearerMask s = some s') : TokenMasked w s s'
  | jwt {s s' : Str} (hno : search w.isWord reBearer none s = none)
      (hs : subFirst w.isWord reJwt jwtMask s = some s') : TokenMasked w s s'

/-- To mask a token does not change what a text is redacted to. -/
theorem TokenMasked.redactStr_eq {s s' : Str} (h : TokenMasked w s s') :
    redactStr w s' = redactStr w s := by
  cases h with
  | bearer hs => rw [redactStr, redactStr, absorbs_bearer.sub_subFirst bearer_nonempty hs]
  | jwt hno hs =>
    rw [search_eq_none_iff] at hno
    have hno' := absorbs_jwt_bearer.noMatch_subFirst jwt_nonempty hs hno
    have hpass : ∀ {s : Str}, NoMatch w.isWord reBearer none s →
        sub w.isWord reBearer bearerMask s = s := subFrom_eq_self
    rw [redactStr, redactStr, hpass hno, hpass hno']
    exact absorbs_jwt.sub_subFirst jwt_nonempty hs

/-- The second pass keeps to texts without bearer credentials. -/
theorem reaches_jwt {s s' : Str} (hno : NoMatch w.isWord reBearer none s)
    (h : Relation.ReflTransGen (fun s s' => subFirst w.isWord reJwt jwtMask s = some s') s s') :
    Relation.ReflTransGen (TokenMasked w) s s' ∧ NoMatch w.isWord reBearer none s' := by
  induction h with
  | refl => exact ⟨.refl, hno⟩
  | tail _ hstep ih =>
    obtain ⟨hreaches, hno⟩ := ih
    exact ⟨hreaches.tail (.jwt (search_eq_none_iff.mpr hno) hstep),
      absorbs_jwt_bearer.noMatch_subFirst jwt_nonempty hstep hno⟩

/-- **Redaction masks one token after the other**, until none is found. -/
theorem reaches_redactStr (w : WordClass) (s : Str) :
    Relation.ReflTransGen (TokenMasked w) s (redactStr w s) ∧
      NoMatch w.isWord reBearer none (redactStr w s) ∧
      NoMatch w.isWord reJwt none (redactStr w s) := by
  have hbearer : Relation.ReflTransGen (TokenMasked w) s (sub w.isWord reBearer bearerMask s) :=
    Relation.ReflTransGen.mono (fun _ _ hs => TokenMasked.bearer hs) _ _
      (absorbs_bearer.reaches bearer_nonempty s)
  obtain ⟨hjwt, hno⟩ := reaches_jwt (absorbs_bearer.noMatch_sub bearer_nonempty s)
    (absorbs_jwt.reaches jwt_nonempty (sub w.isWord reBearer bearerMask s))
  exact ⟨hbearer.trans hjwt, hno, absorbs_jwt.noMatch_sub jwt_nonempty _⟩

/-! ## Redaction -/

/-- A text in which nothing is found is redacted to itself. -/
theorem redactStr_eq_self {s : Str} (hbearer : NoMatch w.isWord reBearer none s)
    (hjwt : NoMatch w.isWord reJwt none s) : redactStr w s = s := by
  rw [redactStr, sub, sub, subFrom_eq_self hbearer, subFrom_eq_self hjwt]

theorem redactStr_redactStr (w : WordClass) (s : Str) :
    redactStr w (redactStr w s) = redactStr w s := by
  obtain ⟨-, hbearer, hjwt⟩ := reaches_redactStr w s
  exact redactStr_eq_self hbearer hjwt

/--
**Redaction leaves no recognisable token.**  Neither pattern is found anywhere in the result, though
the second pass rewrites the output of the first; so redacting again does nothing.
-/
theorem redactStr_clean (w : WordClass) (s : Str) :
    search w.isWord reBearer none (redactStr w s) = none ∧
      search w.isWord reJwt none (redactStr w s) = none ∧
      redactStr w (redactStr w s) = redactStr w s := by
  obtain ⟨-, hbearer, hjwt⟩ := reaches_redactStr w s
  exact ⟨search_eq_none_iff.mpr hbearer, search_eq_none_iff.mpr hjwt, redactStr_redactStr w s⟩

example : redactStr asciiWords "bearer a=eyJa.b.c= eyJ0.1.2-=.3".toList
    = "Bearer ******.***.***= ***.***.***-=.3".toList := by
  decide +kernel

/--
Two texts differ only inside of tokens that are recognised in them: one is made of the other by
exchanging one such token for its mask at a time, or a mask for such a token.
-/
def OnlyTokensDiffer (w : WordClass) : Str → Str → Prop := Relation.EqvGen (TokenMasked w)

/-- **What redaction identifies** are the texts that differ only inside of recognised tokens. -/
theorem redactStr_eq_iff {s s' : Str} : redactStr w s = redactStr w s' ↔ OnlyTokensDiffer w s s' := by
  constructor
  · intro heq
    have hreaches : ∀ s, OnlyTokensDiffer w s (redactStr w s) := fun s =>
      Relation.EqvGen.reflTransGen_le_eqvGen _ _ _ (reaches_redactStr w s).1
    exact .trans _ _ _ (heq ▸ hreaches s) (.symm _ _ (hreaches s'))
  · intro h
    induction h with
    | rel s s' hmasked => exact hmasked.redactStr_eq.symm
    | refl s => rfl
    | symm s s' _ ih => exact ih.symm
    | trans s s' s'' _ _ ih ih' => exact ih.trans ih'

end EnterpriseAssistant.Core
