import Mathlib.Logic.Relation
import EnterpriseAssistant.Lib.PyStr

/-!
# Regular expressions that backtrack

Patterns without alternatives and groups: single characters, greedy repetitions of a class, and word
boundaries.  `ends` are the matches at a position in the order in which they are tried, so the
first one is the match that is taken; `search` and `sub` go over the positions from the left.

Which characters are word characters is a parameter.

* `mem_ends_iff` — the texts that match, without the order: `Accepts`
* `Accepts.congr` — of the text around a match, only the boundaries are felt
* `search_eq_none_iff`, `search_eq_some_iff` — where nothing is found, and what is found
* `Absorbs` — a replacement that makes no new matches
* `Absorbs.noMatch_sub`, `Absorbs.reaches` — then `sub` leaves no match, and replaces one after the
  other
-/

namespace Regex

open Py

inductive Atom where
  | one (p : Char → Bool)
  /-- greedy `*` -/
  | many (p : Char → Bool)
  /-- `\b` -/
  | boundary

/-- A sequence of atoms. -/
abbrev Pattern := List Atom

/-- The characters that an atom takes. -/
def Atom.admits : Atom → Char → Bool
  | .one p, c => p c
  | .many p, c => p c
  | .boundary, _ => false

/-- The character in front of what follows a text. -/
def after (prev : Option Char) : Str → Option Char
  | [] => prev
  | c :: s => after (some c) s

@[simp] theorem after_nil (prev : Option Char) : after prev [] = prev := rfl

@[simp] theorem after_cons (prev : Option Char) (c : Char) (s : Str) :
    after prev (c :: s) = after (some c) s := rfl

@[simp] theorem after_append (prev : Option Char) (s t : Str) :
    after prev (s ++ t) = after (after prev s) t := by
  induction s generalizing prev with
  | nil => rfl
  | cons c s ih => exact ih (some c)

theorem after_of_ne_nil (prev : Option Char) {s : Str} (h : s ≠ []) :
    after prev s = some (s.getLast h) := by
  induction s generalizing prev with
  | nil => exact absurd rfl h
  | cons c s ih =>
    cases s with
    | nil => rfl
    | cons d s => exact ih (some c) (List.cons_ne_nil d s)

variable (isWord : Char → Bool)

/-- `\w` in front of a position or behind it; the ends of the text are no word. -/
def wordAt (c : Option Char) : Bool := c.any isWord

@[simp] theorem wordAt_none : wordAt isWord none = false := rfl

@[simp] theorem wordAt_some (c : Char) : wordAt isWord (some c) = isWord c := rfl

/-! ## Matching -/

/-- A greedy repetition: on as long as it goes, and then the rest of the pattern. -/
def manyEnds (p : Char → Bool) (rest : Option Char → Str → List Nat) :
    Option Char → Str → List Nat
  | prev, [] => rest prev []
  | prev, c :: s =>
    (if p c then (manyEnds p rest (some c) s).map (· + 1) else []) ++ rest prev (c :: s)

/-- The lengths of the matches behind `prev`, in the order in which they are tried. -/
def ends : Pattern → Option Char → Str → List Nat
  | [], _, _ => [0]
  | .one p :: r, _, s =>
    match s with
    | [] => []
    | c :: t => if p c then (ends r (some c) t).map (· + 1) else []
  | .many p :: r, prev, s => manyEnds p (ends r) prev s
  | .boundary :: r, prev, s =>
    if wordAt isWord prev = wordAt isWord s.head? then [] else ends r prev s

/-- `re.search`: the position of the first match, and its length. -/
def search (r : Pattern) : Option Char → Str → Option (Nat × Nat)
  | prev, [] => (ends isWord r prev []).head?.map fun n => (0, n)
  | prev, c :: s =>
    match (ends isWord r prev (c :: s)).head? with
    | some n => some (0, n)
    | none => (search r (some c) s).map fun x => (x.1 + 1, x.2)

/-- `re.sub` behind `skip` characters of a match, for a pattern that takes at least one. -/
def subFrom (r : Pattern) (repl : Str) : Nat → Option Char → Str → Str
  | _, _, [] => []
  | skip + 1, _, c :: s => subFrom r repl skip (some c) s
  | 0, prev, c :: s =>
    match (ends isWord r prev (c :: s)).head? with
    | some (n + 1) => repl ++ subFrom r repl n (some c) s
    | _ => c :: subFrom r repl 0 (some c) s

/-- `re.sub(r, repl, s)` -/
def sub (r : Pattern) (repl s : Str) : Str := subFrom isWord r repl 0 none s

/-! ## What matches -/

/-- The text `m` matches between the characters `prev` and `next`. -/
def Accepts : Pattern → Option Char → Str → Option Char → Prop
  | [], _, m, _ => m = []
  | .one p :: r, _, m, next => ∃ c m', m = c :: m' ∧ p c = true ∧ Accepts r (some c) m' next
  | .many p :: r, prev, m, next =>
    ∃ m₁ m₂, m = m₁ ++ m₂ ∧ (∀ c ∈ m₁, p c = true) ∧ Accepts r (after prev m₁) m₂ next
  | .boundary :: r, prev, m, next =>
    wordAt isWord prev ≠ wordAt isWord (m.head?.or next) ∧ Accepts r prev m next

variable {isWord}

theorem mem_manyEnds_iff {p : Char → Bool} {rest : Option Char → Str → List Nat}
    {prev : Option Char} {s : Str} {n : Nat} :
    n ∈ manyEnds p rest prev s ↔ ∃ m t, s = m ++ t ∧ (∀ c ∈ m, p c = true) ∧ m.length ≤ n ∧
      n - m.length ∈ rest (after prev m) t := by
  induction s generalizing prev n with
  | nil =>
    constructor
    · intro h
      exact ⟨[], [], rfl, fun c hc => absurd hc List.not_mem_nil, Nat.zero_le n, h⟩
    · rintro ⟨m, t, hs, -, -, h⟩
      obtain ⟨rfl, rfl⟩ := List.nil_eq_append_iff.mp hs
      exact h
  | cons c s ih =>
    rw [manyEnds, List.mem_append]
    constructor
    · rintro (h | h)
      · split at h
        next hc =>
          obtain ⟨k, hk, rfl⟩ := List.mem_map.mp h
          obtain ⟨m, t, rfl, hm, hle, hrest⟩ := ih.mp hk
          refine ⟨c :: m, t, rfl, ?_, Nat.succ_le_succ hle, ?_⟩
          · simpa [hc] using hm
          · rwa [List.length_cons, Nat.add_sub_add_right]
        · cases h
      · exact ⟨[], c :: s, rfl, fun c hc => absurd hc List.not_mem_nil, Nat.zero_le n, h⟩
    · rintro ⟨m, t, hs, hm, hle, hrest⟩
      cases m with
      | nil =>
        rw [List.nil_append] at hs
        exact Or.inr (hs ▸ hrest)
      | cons d m =>
        obtain ⟨rfl, rfl⟩ := List.cons.inj hs
        obtain ⟨k, rfl⟩ : ∃ k, n = k + 1 := Nat.exists_eq_succ_of_ne_zero (by
          rintro rfl
          simp at hle)
        left
        rw [if_pos (hm c List.mem_cons_self)]
        refine List.mem_map.mpr ⟨k, ih.mpr ⟨m, t, rfl, ?_, ?_, ?_⟩, rfl⟩
        · exact fun x hx => hm x (List.mem_cons_of_mem c hx)
        · simpa using hle
        · rwa [List.length_cons, Nat.add_sub_add_right] at hrest

theorem mem_ends_one_iff {p : Char → Bool} {r : Pattern} {prev : Option Char} {s : Str} {n : Nat} :
    n ∈ ends isWord (.one p :: r) prev s ↔
      ∃ c t k, s = c :: t ∧ n = k + 1 ∧ p c = true ∧ k ∈ ends isWord r (some c) t := by
  cases s with
  | nil =>
    rw [ends]
    constructor
    · intro h
      cases h
    · rintro ⟨c, t, k, hs, -⟩
      cases hs
  | cons c s =>
    simp only [ends]
    constructor
    · intro h
      split at h
      next hc =>
        obtain ⟨k, hk, rfl⟩ := List.mem_map.mp h
        exact ⟨c, s, k, rfl, rfl, hc, hk⟩
      · cases h
    · rintro ⟨d, t, k, hs, rfl, hd, hk⟩
      obtain ⟨rfl, rfl⟩ := List.cons.inj hs
      rw [if_pos hd]
      exact List.mem_map.mpr ⟨k, hk, rfl⟩

theorem mem_ends_boundary_iff {r : Pattern} {prev : Option Char} {s : Str} {n : Nat} :
    n ∈ ends isWord (.boundary :: r) prev s ↔
      wordAt isWord prev ≠ wordAt isWord s.head? ∧ n ∈ ends isWord r prev s := by
  rw [ends]
  split
  next hb => exact iff_of_false List.not_mem_nil fun h => h.1 hb
  next hb => exact (and_iff_right hb).symm

/-- **The matches at a position** are the texts there that the pattern accepts. -/
theorem mem_ends_iff {r : Pattern} {prev : Option Char} {s : Str} {n : Nat} :
    n ∈ ends isWord r prev s ↔
      ∃ m t, s = m ++ t ∧ m.length = n ∧ Accepts isWord r prev m t.head? := by
  induction r generalizing prev s n with
  | nil =>
    rw [ends, List.mem_singleton]
    constructor
    · rintro rfl
      exact ⟨[], s, rfl, rfl, rfl⟩
    · rintro ⟨m, t, -, hlen, rfl⟩
      exact hlen.symm
  | cons a r ih =>
    cases a with
    | one p =>
      rw [mem_ends_one_iff]
      constructor
      · rintro ⟨c, t, k, rfl, rfl, hc, hk⟩
        obtain ⟨m, t, rfl, rfl, hm⟩ := ih.mp hk
        exact ⟨c :: m, t, rfl, rfl, c, m, rfl, hc, hm⟩
      · rintro ⟨m, t, rfl, rfl, c, m', rfl, hc, hm⟩
        exact ⟨c, m' ++ t, m'.length, rfl, rfl, hc, ih.mpr ⟨m', t, rfl, rfl, hm⟩⟩
    | many p =>
      rw [ends, mem_manyEnds_iff]
      constructor
      · rintro ⟨m₁, t, rfl, hm₁, hle, hrest⟩
        obtain ⟨m₂, t', rfl, hlen, hm₂⟩ := ih.mp hrest
        refine ⟨m₁ ++ m₂, t', (List.append_assoc m₁ m₂ t').symm, ?_, m₁, m₂, rfl, hm₁, hm₂⟩
        rw [List.length_append]
        omega
      · rintro ⟨m, t, rfl, rfl, m₁, m₂, rfl, hm₁, hm₂⟩
        refine ⟨m₁, m₂ ++ t, List.append_assoc m₁ m₂ t, hm₁, ?_, ih.mpr ⟨m₂, t, rfl, ?_, hm₂⟩⟩
        · rw [List.length_append]
          omega
        · rw [List.length_append]
          omega
    | boundary =>
      rw [mem_ends_boundary_iff]
      constructor
      · rintro ⟨hb, hn⟩
        obtain ⟨m, t, rfl, rfl, hm⟩ := ih.mp hn
        rw [List.head?_append] at hb
        exact ⟨m, t, rfl, rfl, hb, hm⟩
      · rintro ⟨m, t, rfl, rfl, hb, hm⟩
        rw [List.head?_append]
        exact ⟨hb, ih.mpr ⟨m, t, rfl, rfl, hm⟩⟩

theorem ends_eq_nil_iff {r : Pattern} {prev : Option Char} {s : Str} :
    ends isWord r prev s = [] ↔ ∀ m t, s = m ++ t → ¬Accepts isWord r prev m t.head? := by
  rw [List.eq_nil_iff_forall_not_mem]
  constructor
  · intro h m t hs hm
    exact h m.length (mem_ends_iff.mpr ⟨m, t, hs, rfl, hm⟩)
  · intro h n hn
    obtain ⟨m, t, hs, -, hm⟩ := mem_ends_iff.mp hn
    exact h m t hs hm

/-- The match that is taken is a match. -/
theorem accepts_of_head? {r : Pattern} {prev : Option Char} {m t : Str}
    (h : (ends isWord r prev (m ++ t)).head? = some m.length) :
    Accepts isWord r prev m t.head? := by
  obtain ⟨m', t', hs, hlen, hm⟩ := mem_ends_iff.mp (List.mem_of_head? h)
  obtain ⟨rfl, rfl⟩ := List.append_inj hs hlen.symm
  exact hm

theorem accepts_append {r₁ r₂ : Pattern} {prev : Option Char} {m : Str} {next : Option Char} :
    Accepts isWord (r₁ ++ r₂) prev m next ↔ ∃ m₁ m₂, m = m₁ ++ m₂ ∧
      Accepts isWord r₁ prev m₁ (m₂.head?.or next) ∧
      Accepts isWord r₂ (after prev m₁) m₂ next := by
  induction r₁ generalizing prev m with
  | nil =>
    constructor
    · intro h
      exact ⟨[], m, rfl, rfl, h⟩
    · rintro ⟨m₁, m₂, rfl, rfl, h⟩
      exact h
  | cons a r₁ ih =>
    cases a with
    | one p =>
      constructor
      · rintro ⟨c, m', rfl, hc, hm⟩
        obtain ⟨m₁, m₂, rfl, h₁, h₂⟩ := ih.mp hm
        exact ⟨c :: m₁, m₂, rfl, ⟨c, m₁, rfl, hc, h₁⟩, h₂⟩
      · rintro ⟨m₁, m₂, rfl, ⟨c, m', rfl, hc, h₁⟩, h₂⟩
        exact ⟨c, m' ++ m₂, rfl, hc, ih.mpr ⟨m', m₂, rfl, h₁, h₂⟩⟩
    | many p =>
      constructor
      · rintro ⟨n₁, n₂, rfl, hn₁, hn₂⟩
        obtain ⟨m₁, m₂, rfl, h₁, h₂⟩ := ih.mp hn₂
        refine ⟨n₁ ++ m₁, m₂, (List.append_assoc n₁ m₁ m₂).symm, ⟨n₁, m₁, rfl, hn₁, h₁⟩, ?_⟩
        rwa [after_append]
      · rintro ⟨m₁, m₂, rfl, ⟨n₁, n₂, rfl, hn₁, h₁⟩, h₂⟩
        rw [after_append] at h₂
        exact ⟨n₁, n₂ ++ m₂, List.append_assoc n₁ n₂ m₂, hn₁, ih.mpr ⟨n₂, m₂, rfl, h₁, h₂⟩⟩
    | boundary =>
      constructor
      · rintro ⟨hb, hm⟩
        obtain ⟨m₁, m₂, rfl, h₁, h₂⟩ := ih.mp hm
        rw [List.head?_append, Option.or_assoc] at hb
        exact ⟨m₁, m₂, rfl, ⟨hb, h₁⟩, h₂⟩
      · rintro ⟨m₁, m₂, rfl, ⟨hb, h₁⟩, h₂⟩
        refine ⟨?_, ih.mpr ⟨m₁, m₂, rfl, h₁, h₂⟩⟩
        rwa [List.head?_append, Option.or_assoc]

namespace Accepts

/-- Of the characters around a text only their being word characters is felt. -/
theorem congr {r : Pattern} {prev prev' : Option Char} {m : Str} {next next' : Option Char}
    (h : Accepts isWord r prev m next) (hprev : wordAt isWord prev = wordAt isWord prev')
    (hnext : wordAt isWord next = wordAt isWord next') : Accepts isWord r prev' m next' := by
  induction r generalizing prev prev' m with
  | nil => exact h
  | cons a r ih =>
    cases a with
    | one p =>
      obtain ⟨c, m', rfl, hc, hm⟩ := h
      exact ⟨c, m', rfl, hc, ih hm rfl⟩
    | many p =>
      obtain ⟨m₁, m₂, rfl, hm₁, hm₂⟩ := h
      refine ⟨m₁, m₂, rfl, hm₁, ih hm₂ ?_⟩
      cases m₁ with
      | nil => exact hprev
      | cons c m₁ => rfl
    | boundary =>
      obtain ⟨hb, hm⟩ := h
      refine ⟨?_, ih hm hprev⟩
      cases m with
      | nil => rwa [← hprev, List.head?_nil, Option.none_or, ← hnext]
      | cons c m => rwa [← hprev]

/-- Every character of a match is taken by an atom. -/
theorem exists_admits {r : Pattern} {prev : Option Char} {m : Str} {next : Option Char}
    (h : Accepts isWord r prev m next) {c : Char} (hc : c ∈ m) : ∃ a ∈ r, a.admits c = true := by
  induction r generalizing prev m with
  | nil => exact absurd (h ▸ hc) List.not_mem_nil
  | cons a r ih =>
    have hrest : ∀ {prev' : Option Char} {m' : Str}, Accepts isWord r prev' m' next → c ∈ m' →
        ∃ b ∈ a :: r, b.admits c = true := by
      intro prev' m' hm hmem
      obtain ⟨b, hb, hbc⟩ := ih hm hmem
      exact ⟨b, List.mem_cons_of_mem a hb, hbc⟩
    cases a with
    | one p =>
      obtain ⟨d, m', rfl, hd, hm⟩ := h
      rcases List.mem_cons.mp hc with rfl | hc
      · exact ⟨_, List.mem_cons_self, hd⟩
      · exact hrest hm hc
    | many p =>
      obtain ⟨m₁, m₂, rfl, hm₁, hm₂⟩ := h
      rcases List.mem_append.mp hc with hc | hc
      · exact ⟨_, List.mem_cons_self, hm₁ c hc⟩
      · exact hrest hm₂ hc
    | boundary => exact hrest h.2 hc

/-- At the end of a pattern that ends with a boundary there is one. -/
theorem final_boundary {r : Pattern} {prev : Option Char} {m : Str} {next : Option Char}
    (h : Accepts isWord (r ++ [.boundary]) prev m next) :
    wordAt isWord (after prev m) ≠ wordAt isWord next := by
  obtain ⟨m₁, m₂, rfl, -, hb, rfl⟩ := accepts_append.mp h
  rw [List.append_nil]
  exact hb

end Accepts

/-! ## What is taken first -/

theorem head?_manyEnds {p : Char → Bool} {rest : Option Char → Str → List Nat}
    {prev : Option Char} {s : Str} {n : Nat} (h : (manyEnds p rest prev s).head? = some n) :
    ∃ m t k, s = m ++ t ∧ n = m.length + k ∧ (rest (after prev m) t).head? = some k := by
  induction s generalizing prev n with
  | nil => exact ⟨[], [], n, rfl, (Nat.zero_add n).symm, h⟩
  | cons c s ih =>
    rw [manyEnds, List.head?_append] at h
    have hhere : (rest prev (c :: s)).head? = some n →
        ∃ m t k, c :: s = m ++ t ∧ n = m.length + k ∧ (rest (after prev m) t).head? = some k :=
      fun h => ⟨[], c :: s, n, rfl, (Nat.zero_add n).symm, h⟩
    split at h
    next hc =>
      cases hon : (manyEnds p rest (some c) s).head? with
      | none =>
        rw [List.head?_map, hon, Option.map_none, Option.none_or] at h
        exact hhere h
      | some k =>
        rw [List.head?_map, hon, Option.map_some, Option.some_or, Option.some.injEq] at h
        obtain ⟨m, t, j, rfl, rfl, hrest⟩ := ih hon
        refine ⟨c :: m, t, j, rfl, ?_, hrest⟩
        rw [← h, List.length_cons]
        omega
    · exact hhere h

/-- The first match of a pattern takes the first match of its rest, somewhere. -/
theorem head?_ends_append {r₁ r₂ : Pattern} {prev : Option Char} {s : Str} {n : Nat}
    (h : (ends isWord (r₁ ++ r₂) prev s).head? = some n) :
    ∃ m t k, s = m ++ t ∧ n = m.length + k ∧ (ends isWord r₂ (after prev m) t).head? = some k := by
  induction r₁ generalizing prev s n with
  | nil => exact ⟨[], s, n, rfl, (Nat.zero_add n).symm, h⟩
  | cons a r₁ ih =>
    cases a with
    | one p =>
      cases s with
      | nil => cases h
      | cons c s =>
        rw [List.cons_append] at h
        simp only [ends] at h
        split at h
        · rw [List.head?_map, Option.map_eq_some_iff] at h
          obtain ⟨n', hn', rfl⟩ := h
          obtain ⟨m, t, k, rfl, rfl, hrest⟩ := ih hn'
          refine ⟨c :: m, t, k, rfl, ?_, hrest⟩
          rw [List.length_cons]
          omega
        · cases h
    | many p =>
      obtain ⟨m₁, t₁, n₁, rfl, rfl, h₁⟩ := head?_manyEnds h
      obtain ⟨m, t, k, rfl, rfl, hrest⟩ := ih h₁
      refine ⟨m₁ ++ m, t, k, (List.append_assoc m₁ m t).symm, ?_, ?_⟩
      · rw [List.length_append]
        omega
      · rwa [after_append]
    | boundary =>
      rw [List.cons_append, ends] at h
      split at h
      · cases h
      · exact ih h

/-- In front of what always matches, a repetition takes all it can. -/
theorem head?_manyEnds_total {p : Char → Bool} {rest : Option Char → Str → List Nat}
    (hrest : ∀ prev s, rest prev s ≠ []) (prev : Option Char) (s : Str) :
    (manyEnds p rest prev s).head?
      = (rest (after prev (s.takeWhile p)) (s.dropWhile p)).head?.map
          (· + (s.takeWhile p).length) := by
  have htotal : ∀ prev s, manyEnds p rest prev s ≠ [] := by
    intro prev s
    cases s with
    | nil => exact hrest prev []
    | cons c s => exact List.append_ne_nil_of_right_ne_nil _ (hrest prev (c :: s))
  induction s generalizing prev with
  | nil =>
    rw [manyEnds, List.takeWhile_nil, List.dropWhile_nil, after_nil, List.length_nil]
    simp
  | cons c s ih =>
    rw [manyEnds]
    by_cases hc : p c = true
    · rw [if_pos hc, List.head?_append_of_ne_nil _ (by simpa using htotal (some c) s),
        List.head?_map, ih, List.takeWhile_cons_of_pos hc, List.dropWhile_cons_of_pos hc,
        after_cons, Option.map_map, List.length_cons]
      rfl
    · rw [if_neg hc, List.nil_append, List.takeWhile_cons_of_neg hc,
        List.dropWhile_cons_of_neg hc, after_nil, List.length_nil]
      simp

/-- Behind a greedy tail `p*q*`, a character of `p` only follows a character of `q`. -/
theorem after_greedy_tail {r : Pattern} {p q : Char → Bool} {prev : Option Char} {m t : Str}
    {c : Char}
    (h : (ends isWord (r ++ [.many p, .many q]) prev (m ++ c :: t)).head? = some m.length)
    (hc : p c = true) : ∃ d, after prev m = some d ∧ q d = true := by
  obtain ⟨m₀, u, k, hs, hlen, hhead⟩ := head?_ends_append h
  have hnil : ∀ prev s, ends isWord [] prev s ≠ [] := fun _ _ => List.cons_ne_nil 0 []
  have hq : ∀ prev s, ends isWord [.many q] prev s ≠ [] := by
    intro prev s hends
    have hfirst := head?_manyEnds_total (p := q) hnil prev s
    rw [show manyEnds q (ends isWord []) prev s = [] from hends] at hfirst
    cases hfirst
  have hp := head?_manyEnds_total (p := p) hq (after prev m₀) u
  have htail := head?_manyEnds_total (p := q) hnil
    (after (after prev m₀) (u.takeWhile p)) (u.dropWhile p)
  simp only [ends] at hhead hp htail
  rw [hhead, htail, List.head?_cons, Option.map_some, Option.map_some, Option.some.injEq,
    Nat.zero_add] at hp
  -- what is taken: up to the tail, then a run of `p`, then a run of `q`
  have hsplit : m ++ c :: t = (m₀ ++ u.takeWhile p ++ (u.dropWhile p).takeWhile q) ++
      (u.dropWhile p).dropWhile q := by
    rw [hs, List.append_assoc, List.takeWhile_append_dropWhile, List.append_assoc,
      List.takeWhile_append_dropWhile]
  obtain ⟨rfl, ht⟩ := List.append_inj hsplit (by
    simp only [List.length_append]
    omega)
  rcases List.eq_nil_or_concat ((u.dropWhile p).takeWhile q) with hrun | ⟨l, d, hrun⟩
  · -- no run of `q`: then the run of `p` would go on
    have hdrop : u.dropWhile p = c :: t := by
      have hall := List.takeWhile_append_dropWhile (p := q) (l := u.dropWhile p)
      rwa [hrun, List.nil_append, ← ht, eq_comm] at hall
    have hne : u.dropWhile p ≠ [] := hdrop ▸ List.cons_ne_nil c t
    have hnot := List.head_dropWhile_not p hne
    simp only [hdrop, List.head_cons, hc] at hnot
    cases hnot
  · refine ⟨d, ?_, ?_⟩
    · rw [hrun]
      simp
    · refine List.mem_takeWhile_imp (l := u.dropWhile p) ?_
      rw [hrun]
      simp

/-- Of what is in front of a match, only the boundary is felt. -/
theorem ends_congr {r : Pattern} {prev prev' : Option Char} {s : Str}
    (h : wordAt isWord prev = wordAt isWord prev') :
    ends isWord r prev s = ends isWord r prev' s := by
  induction r generalizing prev prev' s with
  | nil => rfl
  | cons a r ih =>
    cases a with
    | one p => cases s <;> rfl
    | many p =>
      simp only [ends]
      cases s with
      | nil => exact ih h
      | cons c s => rw [manyEnds, manyEnds, ih h]
    | boundary => rw [ends, ends, h, ih h]

/-! ## Search -/

/-- Nothing matches at any position. -/
def NoMatch (isWord : Char → Bool) (r : Pattern) (prev : Option Char) (s : Str) : Prop :=
  ∀ x y, s = x ++ y → ends isWord r (after prev x) y = []

/-- Nothing matches at the positions of `s`, in a text that goes on with `t`. -/
def NoMatchIn (isWord : Char → Bool) (r : Pattern) (prev : Option Char) (s t : Str) : Prop :=
  ∀ x y, s = x ++ y → y ≠ [] → ends isWord r (after prev x) (y ++ t) = []

theorem noMatchIn_nil {r : Pattern} {prev : Option Char} {t : Str} :
    NoMatchIn isWord r prev [] t := by
  intro x y hs hy
  obtain ⟨rfl, rfl⟩ := List.nil_eq_append_iff.mp hs
  exact absurd rfl hy

theorem noMatchIn_cons_iff {r : Pattern} {prev : Option Char} {c : Char} {s t : Str} :
    NoMatchIn isWord r prev (c :: s) t ↔
      ends isWord r prev (c :: (s ++ t)) = [] ∧ NoMatchIn isWord r (some c) s t := by
  constructor
  · intro h
    exact ⟨h [] (c :: s) rfl (List.cons_ne_nil c s),
      fun x y hs hy => h (c :: x) y (by rw [hs, List.cons_append]) hy⟩
  · rintro ⟨hhere, hrest⟩ x y hs hy
    cases x with
    | nil =>
      rw [List.nil_append] at hs
      rwa [after_nil, ← hs]
    | cons d x =>
      obtain ⟨rfl, rfl⟩ := List.cons.inj hs
      exact hrest x y rfl hy

theorem NoMatchIn.append {r : Pattern} {prev : Option Char} {s s' t : Str}
    (h : NoMatchIn isWord r prev s (s' ++ t)) (h' : NoMatchIn isWord r (after prev s) s' t) :
    NoMatchIn isWord r prev (s ++ s') t := by
  induction s generalizing prev with
  | nil => exact h'
  | cons c s ih =>
    obtain ⟨hhere, hrest⟩ := noMatchIn_cons_iff.mp h
    refine noMatchIn_cons_iff.mpr ⟨?_, ih hrest h'⟩
    rwa [← List.append_assoc] at hhere

theorem noMatch_append_iff {r : Pattern} {prev : Option Char} {s t : Str} :
    NoMatch isWord r prev (s ++ t) ↔
      NoMatchIn isWord r prev s t ∧ NoMatch isWord r (after prev s) t := by
  constructor
  · intro h
    refine ⟨fun x y hs _ => h x (y ++ t) (by rw [hs, List.append_assoc]), fun x y ht => ?_⟩
    rw [← after_append]
    exact h (s ++ x) y (by rw [ht, List.append_assoc])
  · rintro ⟨hs, ht⟩ x y hxy
    rcases List.append_eq_append_iff.mp hxy with ⟨x', rfl, rfl⟩ | ⟨y', rfl, rfl⟩
    · rw [after_append]
      exact ht x' y rfl
    · cases y' with
      | nil =>
        rw [List.append_nil] at ht
        exact ht [] t rfl
      | cons c y' => exact hs x (c :: y') rfl (List.cons_ne_nil c y')

theorem noMatch_cons_iff {r : Pattern} {prev : Option Char} {c : Char} {s : Str} :
    NoMatch isWord r prev (c :: s) ↔
      ends isWord r prev (c :: s) = [] ∧ NoMatch isWord r (some c) s := by
  rw [← List.singleton_append, noMatch_append_iff, noMatchIn_cons_iff,
    and_iff_left noMatchIn_nil]
  rfl

/-- Only at the first position the character in front of the text is felt. -/
theorem NoMatch.congr {r : Pattern} {prev prev' : Option Char} {s : Str}
    (h : NoMatch isWord r prev s) (hends : ends isWord r prev' s = ends isWord r prev s) :
    NoMatch isWord r prev' s := by
  intro x y hs
  cases x with
  | nil =>
    rw [after_nil, ← show s = y from hs, hends]
    exact h [] s rfl
  | cons c x => exact h (c :: x) y hs

/-- **`search` finds nothing exactly where nothing matches.** -/
theorem search_eq_none_iff {r : Pattern} {prev : Option Char} {s : Str} :
    search isWord r prev s = none ↔ NoMatch isWord r prev s := by
  induction s generalizing prev with
  | nil =>
    rw [search, Option.map_eq_none_iff, List.head?_eq_none_iff]
    constructor
    · intro h x y hs
      obtain ⟨rfl, rfl⟩ := List.nil_eq_append_iff.mp hs
      exact h
    · exact fun h => h [] [] rfl
  | cons c s ih =>
    rw [search, noMatch_cons_iff, ← ih]
    cases hends : ends isWord r prev (c :: s) with
    | nil => simp
    | cons n l => simp

/-- **What `search` finds** is taken at the first position at which anything matches. -/
theorem search_eq_some_iff {r : Pattern} {prev : Option Char} {s : Str} {n k : Nat} :
    search isWord r prev s = some (n, k) ↔ ∃ a t, s = a ++ t ∧ a.length = n ∧
      NoMatchIn isWord r prev a t ∧ (ends isWord r (after prev a) t).head? = some k := by
  induction s generalizing prev n with
  | nil =>
    rw [search, Option.map_eq_some_iff]
    constructor
    · rintro ⟨k', hk, heq⟩
      cases heq
      exact ⟨[], [], rfl, rfl, noMatchIn_nil, hk⟩
    · rintro ⟨a, t, hs, rfl, -, hk⟩
      obtain ⟨rfl, rfl⟩ := List.nil_eq_append_iff.mp hs
      exact ⟨k, hk, rfl⟩
  | cons c s ih =>
    rw [search]
    cases hhead : (ends isWord r prev (c :: s)).head? with
    | some k' =>
      constructor
      · intro heq
        cases heq
        exact ⟨[], c :: s, rfl, rfl, noMatchIn_nil, hhead⟩
      · rintro ⟨a, t, hs, rfl, ha, hk⟩
        cases a with
        | nil =>
          rw [List.nil_append] at hs
          rw [after_nil, ← hs, hhead] at hk
          cases hk
          rfl
        | cons d a =>
          obtain ⟨rfl, rfl⟩ := List.cons.inj hs
          have hnone : ends isWord r prev (c :: (a ++ t)) = [] := (noMatchIn_cons_iff.mp ha).1
          rw [show c :: a.append t = c :: (a ++ t) from rfl, hnone] at hhead
          cases hhead
    | none =>
      rw [Option.map_eq_some_iff]
      constructor
      · rintro ⟨⟨n', k'⟩, hsearch, heq⟩
        cases heq
        obtain ⟨a, t, rfl, rfl, ha, hk⟩ := ih.mp hsearch
        exact ⟨c :: a, t, rfl, rfl, noMatchIn_cons_iff.mpr ⟨List.head?_eq_none_iff.mp hhead, ha⟩, hk⟩
      · rintro ⟨a, t, hs, rfl, ha, hk⟩
        cases a with
        | nil =>
          rw [List.nil_append] at hs
          rw [after_nil, ← hs, hhead] at hk
          cases hk
        | cons d a =>
          obtain ⟨rfl, rfl⟩ := List.cons.inj hs
          exact ⟨(a.length, k), ih.mpr ⟨a, t, rfl, rfl, (noMatchIn_cons_iff.mp ha).2, hk⟩, rfl⟩

/-- A text has no match if none of its characters is one that every match has. -/
theorem noMatch_of_notMem {r : Pattern} {q : Char → Bool}
    (hr : ∀ p m next, Accepts isWord r p m next → ∃ c ∈ m, q c = true) {s : Str}
    (hs : ∀ c ∈ s, q c = false) (prev : Option Char) : NoMatch isWord r prev s := by
  rintro x y rfl
  rw [ends_eq_nil_iff]
  rintro m t rfl hm
  obtain ⟨c, hc, hq⟩ := hr _ _ _ hm
  rw [hs c (List.mem_append_right x (List.mem_append_left t hc))] at hq
  cases hq

/-! ## Substitution -/

/-- `m` is taken behind `prev`, in a text that goes on with `t`. -/
structure Taken (isWord : Char → Bool) (r : Pattern) (prev : Option Char) (m t : Str) : Prop where
  nonempty : m ≠ []
  head : (ends isWord r prev (m ++ t)).head? = some m.length

theorem Taken.accepts {r : Pattern} {prev : Option Char} {m t : Str}
    (h : Taken isWord r prev m t) : Accepts isWord r prev m t.head? := accepts_of_head? h.head

/-- What is taken first is a text. -/
theorem taken_of_head? {r : Pattern} (hempty : ∀ prev next, ¬Accepts isWord r prev [] next)
    {prev : Option Char} {s : Str} {k : Nat} (h : (ends isWord r prev s).head? = some k) :
    ∃ m t, s = m ++ t ∧ m.length = k ∧ Taken isWord r prev m t := by
  obtain ⟨m, t, rfl, rfl, hm⟩ := mem_ends_iff.mp (List.mem_of_head? h)
  refine ⟨m, t, rfl, rfl, ?_, h⟩
  rintro rfl
  exact hempty prev t.head? hm

theorem subFrom_skip {r : Pattern} {repl : Str} {prev : Option Char} (m s : Str) :
    subFrom isWord r repl m.length prev (m ++ s) = subFrom isWord r repl 0 (after prev m) s := by
  induction m generalizing prev with
  | nil => rfl
  | cons c m ih => exact ih

/-- Where nothing matches, a text is copied. -/
theorem subFrom_append {r : Pattern} {repl : Str} {prev : Option Char} {a t : Str}
    (h : NoMatchIn isWord r prev a t) :
    subFrom isWord r repl 0 prev (a ++ t) = a ++ subFrom isWord r repl 0 (after prev a) t := by
  induction a generalizing prev with
  | nil => rfl
  | cons c a ih =>
    obtain ⟨hhere, hrest⟩ := noMatchIn_cons_iff.mp h
    rw [List.cons_append, subFrom, hhere]
    simp only [List.head?_nil, ih hrest, after_cons, List.cons_append]

theorem subFrom_eq_self {r : Pattern} {repl : Str} {prev : Option Char} {s : Str}
    (h : NoMatch isWord r prev s) : subFrom isWord r repl 0 prev s = s := by
  rw [← List.append_nil s] at h
  have hcopied : subFrom isWord r repl 0 prev (s ++ [])
      = s ++ subFrom isWord r repl 0 (after prev s) [] :=
    subFrom_append (noMatch_append_iff.mp h).1
  rwa [List.append_nil, subFrom, List.append_nil] at hcopied

/-- What is taken is replaced. -/
theorem subFrom_taken {r : Pattern} (repl : Str) {prev : Option Char} {m t : Str}
    (h : Taken isWord r prev m t) :
    subFrom isWord r repl 0 prev (m ++ t) = repl ++ subFrom isWord r repl 0 (after prev m) t := by
  obtain ⟨hne, hhead⟩ := h
  obtain ⟨c, m, rfl⟩ := List.exists_cons_of_ne_nil hne
  rw [List.cons_append] at hhead ⊢
  rw [subFrom, hhead]
  simp only [List.length_cons, subFrom_skip, after_cons]

theorem subFrom_congr {r : Pattern} {repl : Str} {prev prev' : Option Char} {s : Str}
    (h : ends isWord r prev s = ends isWord r prev' s) :
    subFrom isWord r repl 0 prev s = subFrom isWord r repl 0 prev' s := by
  cases s with
  | nil => rfl
  | cons c s => rw [subFrom, subFrom, h]

/-! ## One replacement after the other -/

/-- `re.sub(r, repl, s, count=1)`, where there is a match. -/
def subFirst (isWord : Char → Bool) (r : Pattern) (repl s : Str) : Option Str :=
  (search isWord r none s).map fun x => s.take x.1 ++ (repl ++ s.drop (x.1 + x.2))

theorem replaceAt_eq (repl a m t : Str) :
    (a ++ (m ++ t)).take a.length ++ (repl ++ (a ++ (m ++ t)).drop (a.length + m.length))
      = a ++ (repl ++ t) := by
  rw [List.take_left, ← List.length_append, ← List.append_assoc a m, List.drop_left]

/-- What the first replacement does to a text. -/
theorem subFirst_eq_some_iff {r : Pattern} (hempty : ∀ prev next, ¬Accepts isWord r prev [] next)
    {repl s s' : Str} :
    subFirst isWord r repl s = some s' ↔ ∃ a m t, s = a ++ (m ++ t) ∧ s' = a ++ (repl ++ t) ∧
      NoMatchIn isWord r none a (m ++ t) ∧ Taken isWord r (after none a) m t := by
  rw [subFirst, Option.map_eq_some_iff]
  constructor
  · rintro ⟨⟨n, k⟩, hsearch, rfl⟩
    obtain ⟨a, u, rfl, rfl, ha, hk⟩ := search_eq_some_iff.mp hsearch
    obtain ⟨m, t, rfl, rfl, htaken⟩ := taken_of_head? hempty hk
    exact ⟨a, m, t, rfl, replaceAt_eq repl a m t, ha, htaken⟩
  · rintro ⟨a, m, t, rfl, rfl, ha, htaken⟩
    exact ⟨(a.length, m.length), search_eq_some_iff.mpr ⟨a, m ++ t, rfl, rfl, ha, htaken.head⟩,
      replaceAt_eq repl a m t⟩

/-- A match of `r` that is replaced leaves the matches of `r'` around it as they are. -/
structure Absorbs (isWord : Char → Bool) (r : Pattern) (repl : Str) (r' : Pattern) : Prop where
  before : ∀ {prev : Option Char} {a m t : Str}, Taken isWord r (after prev a) m t →
    NoMatchIn isWord r' prev a (m ++ t) → NoMatchIn isWord r' prev a (repl ++ t)
  inside : ∀ prev t, NoMatchIn isWord r' prev repl t
  behind : ∀ {prev : Option Char} {m t : Str} (prev' : Option Char), Taken isWord r prev m t →
    ends isWord r' (after prev' repl) t = ends isWord r' (after prev m) t

namespace Absorbs

/-- A replacement makes no match of another pattern. -/
theorem noMatch_subFirst {r r' : Pattern} {repl : Str} (h : Absorbs isWord r repl r')
    (hempty : ∀ prev next, ¬Accepts isWord r prev [] next) {s s' : Str}
    (hs : subFirst isWord r repl s = some s') (hno : NoMatch isWord r' none s) :
    NoMatch isWord r' none s' := by
  obtain ⟨a, m, t, rfl, rfl, -, htaken⟩ := (subFirst_eq_some_iff hempty).mp hs
  rw [noMatch_append_iff, noMatch_append_iff] at hno ⊢
  exact ⟨h.before htaken hno.1, h.inside _ t, hno.2.2.congr (h.behind _ htaken)⟩

variable {r : Pattern} {repl : Str} (h : Absorbs isWord r repl r)
  (hempty : ∀ prev next, ¬Accepts isWord r prev [] next)

include h hempty

/-- To replace the first match does not change what `sub` makes of a text. -/
theorem sub_subFirst {s s' : Str} (hs : subFirst isWord r repl s = some s') :
    sub isWord r repl s' = sub isWord r repl s := by
  obtain ⟨a, m, t, rfl, rfl, ha, htaken⟩ := (subFirst_eq_some_iff hempty).mp hs
  rw [sub, sub, subFrom_append (h.before htaken ha), subFrom_append (h.inside _ t),
    subFrom_append ha, subFrom_taken repl htaken, subFrom_congr (h.behind _ htaken)]

/-- Behind `a`, in which nothing matches any more, the rest is replaced from the left. -/
theorem reaches_from {prev : Option Char} {a s : Str} (ha : NoMatchIn isWord r none a s)
    (hprev : ends isWord r (after none a) s = ends isWord r prev s) :
    Relation.ReflTransGen (fun s s' => subFirst isWord r repl s = some s') (a ++ s)
        (a ++ subFrom isWord r repl 0 prev s) ∧
      NoMatchIn isWord r none (a ++ subFrom isWord r repl 0 prev s) [] := by
  induction hlen : s.length using Nat.strongRecOn generalizing prev a s with
  | ind len ih =>
    subst hlen
    cases s with
    | nil =>
      rw [subFrom, List.append_nil]
      exact ⟨.refl, ha⟩
    | cons c s =>
      cases hhead : (ends isWord r prev (c :: s)).head? with
      | none =>
        have hhere : ends isWord r (after none a) (c :: s) = [] := by
          rw [hprev, ← List.head?_eq_none_iff, hhead]
        have hstep := @ih s.length (Nat.lt_succ_self _) (some c) (a ++ [c]) s
          (ha.append (noMatchIn_cons_iff.mpr ⟨hhere, noMatchIn_nil⟩))
          (by rw [after_append]; rfl) rfl
        rw [subFrom, hhead]
        simpa only [List.append_assoc, List.singleton_append] using hstep
      | some k =>
        obtain ⟨m, t, hs, rfl, htaken⟩ := taken_of_head? hempty hhead
        rw [hs] at ha hprev ⊢
        have hfirst : Taken isWord r (after none a) m t := ⟨htaken.nonempty, hprev ▸ htaken.head⟩
        have hshort : t.length < (c :: s).length := by
          rw [hs, List.length_append]
          have hpos := List.length_pos_iff.mpr htaken.nonempty
          omega
        have hstep := @ih t.length hshort (after prev m) (a ++ repl) t
          ((h.before hfirst ha).append (h.inside _ t))
          (by rw [after_append]; exact h.behind _ htaken) rfl
        rw [List.append_assoc, List.append_assoc] at hstep
        rw [subFrom_taken repl htaken]
        exact ⟨.head ((subFirst_eq_some_iff hempty).mpr ⟨a, m, t, rfl, rfl, ha, hfirst⟩) hstep.1,
          hstep.2⟩

/-- **`sub` replaces one match after the other.** -/
theorem reaches (s : Str) : Relation.ReflTransGen
    (fun s s' => subFirst isWord r repl s = some s') s (sub isWord r repl s) :=
  (h.reaches_from hempty (a := []) noMatchIn_nil rfl).1

/-- **`sub` leaves no match.** -/
theorem noMatch_sub (s : Str) : NoMatch isWord r none (sub isWord r repl s) := by
  rw [← List.append_nil (sub isWord r repl s), noMatch_append_iff]
  refine ⟨(h.reaches_from hempty (a := []) noMatchIn_nil rfl).2, fun x y hs => ?_⟩
  obtain ⟨rfl, rfl⟩ := List.nil_eq_append_iff.mp hs
  rw [ends_eq_nil_iff]
  intro m t hmt hm
  obtain ⟨rfl, rfl⟩ := List.nil_eq_append_iff.mp hmt
  exact hempty _ _ hm

end Absorbs

end Regex
