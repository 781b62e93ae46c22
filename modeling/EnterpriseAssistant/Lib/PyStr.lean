import Mathlib.Data.List.DropRight
import Mathlib.Data.List.TakeWhile

/-!
# Python strings

A `str` is the list of its code points.  The functions here are those of the Python built-ins:
`str.strip`, `str.split(sep, 1)`, `str(int)` and `int(str)`.

* `strip_eq_self_iff` — a string is its own strip when neither end is blank
* `strip_pad` — blanks around a text are not felt by `strip`
* `mem_splitOn_iff` — what `split` returns
* `str_injective` — decimal printing loses nothing
* `isDecimal_iff` — what decimal printing produces
* `int?_str` — and `int` reads it back
-/

namespace Py

/-- A Python `str`. -/
abbrev Str := List Char

/-! ## Blanks -/

/-- `str.isspace` of one code point. -/
def isSpace (c : Char) : Bool :=
  let n := c.toNat
  (0x09 ≤ n && n ≤ 0x0D) || (0x1C ≤ n && n ≤ 0x20) || n == 0x85 || n == 0xA0 || n == 0x1680
    || (0x2000 ≤ n && n ≤ 0x200A) || n == 0x2028 || n == 0x2029 || n == 0x202F || n == 0x205F
    || n == 0x3000

/-- `str.strip()`. -/
def strip (s : Str) : Str := (s.dropWhile isSpace).rdropWhile isSpace

/-- A string is its own strip exactly when it neither begins nor ends with a blank. -/
theorem strip_eq_self_iff (s : Str) :
    strip s = s ↔ ∀ hs : s ≠ [], isSpace (s.head hs) = false ∧ isSpace (s.getLast hs) = false := by
  constructor
  · intro h hs
    have hfront : s.dropWhile isSpace = s := by
      have hlen := (List.rdropWhile_prefix isSpace (l := s.dropWhile isSpace)).length_le
      have hsuf := List.dropWhile_suffix (l := s) isSpace
      have hlen' : s.length ≤ (s.dropWhile isSpace).length := by
        have : (strip s).length ≤ (s.dropWhile isSpace).length := hlen
        rwa [h] at this
      exact hsuf.eq_of_length_le hlen'
    have hback : s.rdropWhile isSpace = s := by
      unfold strip at h
      rwa [hfront] at h
    refine ⟨?_, ?_⟩
    · have hpos : 0 < s.length := List.length_pos_iff.mpr hs
      have hnot := List.dropWhile_eq_self_iff.mp hfront hpos
      rw [List.head_eq_getElem]
      simpa using hnot
    · simpa using List.rdropWhile_eq_self_iff.mp hback hs
  · intro h
    unfold strip
    have hfront : s.dropWhile isSpace = s := by
      rw [List.dropWhile_eq_self_iff]
      intro hpos
      have hs : s ≠ [] := List.length_pos_iff.mp hpos
      rw [← List.head_eq_getElem hs, (h hs).1]
      exact Bool.false_ne_true
    rw [hfront, List.rdropWhile_eq_self_iff]
    intro hs
    rw [(h hs).2]
    exact Bool.false_ne_true

/-- A text of blanks. -/
def Blank (w : Str) : Prop := ∀ c ∈ w, isSpace c = true

theorem blank_nil : Blank [] := fun _ hc => absurd hc List.not_mem_nil

theorem Blank.notMem {w : Str} (hw : Blank w) {c : Char} (hc : isSpace c = false) : c ∉ w := by
  intro hmem
  rw [hw c hmem] at hc
  cases hc

/-- Blanks around a text are not felt by `strip`. -/
theorem strip_pad {w₁ w₂ : Str} (h₁ : Blank w₁) (s : Str) (h₂ : Blank w₂) :
    strip (w₁ ++ (s ++ w₂)) = strip s := by
  unfold strip
  rw [List.dropWhile_append_of_pos h₁, List.rdropWhile, List.rdropWhile, List.reverse_inj]
  have hrev : ∀ c ∈ w₂.reverse, isSpace c = true := fun c hc => h₂ c (List.mem_reverse.mp hc)
  by_cases hs : ∀ c ∈ s, isSpace c = true
  · -- nothing but blanks
    rw [List.dropWhile_append_of_pos hs, List.dropWhile_eq_nil_iff.mpr h₂,
      List.dropWhile_eq_nil_iff.mpr hs]
  · obtain ⟨c, hc, hcs⟩ : ∃ c ∈ s, ¬isSpace c = true := by simpa using hs
    rw [List.dropWhile_append, if_neg, List.reverse_append, List.dropWhile_append_of_pos hrev]
    rw [List.isEmpty_iff, List.dropWhile_eq_nil_iff]
    exact fun hall => hcs (hall c hc)

/-- What `strip` takes off are blanks. -/
theorem strip_spec (s : Str) : ∃ w₁ w₂, Blank w₁ ∧ Blank w₂ ∧ s = w₁ ++ (strip s ++ w₂) := by
  refine ⟨s.takeWhile isSpace, (s.dropWhile isSpace).rtakeWhile isSpace, ?_, ?_, ?_⟩
  · exact fun c hc => List.mem_takeWhile_imp hc
  · exact fun c hc => List.mem_rtakeWhile_imp hc
  · rw [strip, List.rdropWhile_append_rtakeWhile, List.takeWhile_append_dropWhile]

theorem strip_strip (s : Str) : strip (strip s) = strip s := by
  obtain ⟨w₁, w₂, h₁, h₂, hs⟩ := strip_spec s
  conv_rhs => rw [hs, strip_pad h₁ _ h₂]

/-- The texts that strip to a given one. -/
theorem strip_eq_iff {s t : Str} (ht : strip t = t) :
    strip s = t ↔ ∃ w₁ w₂, Blank w₁ ∧ Blank w₂ ∧ s = w₁ ++ (t ++ w₂) := by
  constructor
  · rintro rfl
    exact strip_spec s
  · rintro ⟨w₁, w₂, h₁, h₂, rfl⟩
    rw [strip_pad h₁ t h₂, ht]

/-- `v or None` of an optional string. -/
def orNone (v : Option Str) : Option Str := v.filter fun s => !s.isEmpty

/-! ## Splitting -/

/-- `s.split(sep, 1)` where `sep` occurs: what is before its first occurrence and after it. -/
def splitOnce (sep : Char) (s : Str) : Str × Str :=
  (s.takeWhile (fun c => c != sep), (s.dropWhile (fun c => c != sep)).tail)

theorem splitOnce_append {sep : Char} {a : Str} (h : sep ∉ a) (b : Str) :
    splitOnce sep (a ++ sep :: b) = (a, b) := by
  have ha : ∀ c ∈ a, (c != sep) = true := by
    intro c hc
    simp only [bne_iff_ne, ne_eq]
    intro he
    exact h (he ▸ hc)
  unfold splitOnce
  rw [List.takeWhile_append_of_pos ha, List.dropWhile_append_of_pos ha]
  simp

theorem notMem_splitOnce (sep : Char) (s : Str) : sep ∉ (splitOnce sep s).1 := by
  intro h
  have hne := List.mem_takeWhile_imp h
  simp at hne

/-- Where the separator occurs, the parts join to the text. -/
theorem splitOnce_join {sep : Char} {s : Str} (h : sep ∈ s) :
    (splitOnce sep s).1 ++ sep :: (splitOnce sep s).2 = s := by
  have hdrop : s.dropWhile (fun c => c != sep) ≠ [] := by
    rw [ne_eq, List.dropWhile_eq_nil_iff]
    intro hall
    simpa using hall sep h
  have hhead : (s.dropWhile fun c => c != sep).head hdrop = sep := by
    simpa using List.head_dropWhile_not (fun c => c != sep) hdrop
  calc (splitOnce sep s).1 ++ sep :: (splitOnce sep s).2
      = s.takeWhile (fun c => c != sep) ++
          (s.dropWhile fun c => c != sep).head hdrop :: (s.dropWhile fun c => c != sep).tail := by
        rw [hhead, splitOnce]
    _ = s := by rw [List.cons_head_tail, List.takeWhile_append_dropWhile]

/-- `x` stands in `s` between two separators, or between one and an end of `s`. -/
def Piece {α : Type} (sep : α) (x s : List α) : Prop :=
  sep ∉ x ∧ ∃ a b, s = a ++ (x ++ b) ∧ (a = [] ∨ a.getLast? = some sep) ∧
    (b = [] ∨ b.head? = some sep)

section Split

variable {α : Type} {sep : α}

theorem Piece.after {x s : List α} (h : Piece sep x s) (front : List α) :
    Piece sep x (front ++ sep :: s) := by
  obtain ⟨hx, a, b, rfl, ha, hb⟩ := h
  refine ⟨hx, front ++ sep :: a, b, by simp, Or.inr ?_, hb⟩
  rcases ha with rfl | ha
  · simp
  · rw [List.getLast?_append, List.getLast?_cons, ha]
    rfl

variable [DecidableEq α]

theorem piece_of_mem_splitOn : ∀ {s x : List α}, x ∈ s.splitOn sep → Piece sep x s := by
  intro s
  induction hn : s.length using Nat.strongRecOn generalizing s with
  | ind n ih =>
    intro x hx
    by_cases hmem : sep ∈ s
    · obtain ⟨a, b, rfl, ha⟩ := List.eq_append_cons_of_mem hmem
      rw [List.splitOn_append_cons_self_of_not_mem ha] at hx
      rcases List.mem_cons.mp hx with rfl | hx
      · exact ⟨ha, [], sep :: b, rfl, Or.inl rfl, Or.inr rfl⟩
      · have hlt : b.length < n := by
          rw [← hn, List.length_append, List.length_cons]
          omega
        exact (ih b.length hlt rfl hx).after a
    · rw [List.splitOn_eq_singleton hmem, List.mem_singleton] at hx
      exact ⟨hx ▸ hmem, [], [], by simp [hx], Or.inl rfl, Or.inl rfl⟩

/-- **What `split` returns are the pieces.** -/
theorem mem_splitOn_iff {s x : List α} : x ∈ s.splitOn sep ↔ Piece sep x s := by
  refine ⟨piece_of_mem_splitOn, ?_⟩
  rintro ⟨hx, a, b, rfl, ha, hb⟩
  have htail : x ∈ (x ++ b).splitOn sep := by
    rcases hb with rfl | hb
    · rw [List.append_nil, List.splitOn_eq_singleton hx]
      exact List.mem_singleton_self x
    · obtain ⟨b, rfl⟩ := List.head?_eq_some_iff.mp hb
      rw [List.splitOn_append_cons_self_of_not_mem hx]
      exact List.mem_cons_self
  rcases ha with rfl | ha
  · exact htail
  · obtain ⟨a, rfl⟩ := List.getLast?_eq_some_iff.mp ha
    rw [List.append_assoc, List.singleton_append, List.splitOn_append_cons_self]
    exact List.mem_append_right _ htail

end Split

/-- Blanks around the whole are not felt where every piece is stripped. -/
theorem map_strip_splitOn_pad {sep : Char} (hsep : isSpace sep = false) {w₁ w₂ : Str}
    (h₁ : Blank w₁) (s : Str) (h₂ : Blank w₂) :
    ((w₁ ++ (s ++ w₂)).splitOn sep).map strip = (s.splitOn sep).map strip := by
  induction hn : s.length using Nat.strongRecOn generalizing s w₁ with
  | ind n ih =>
    by_cases hmem : sep ∈ s
    · obtain ⟨a, b, rfl, ha⟩ := List.eq_append_cons_of_mem hmem
      have hfirst : sep ∉ w₁ ++ a := by
        rw [List.mem_append, not_or]
        exact ⟨h₁.notMem hsep, ha⟩
      have hlt : b.length < n := by
        rw [← hn, List.length_append, List.length_cons]
        omega
      have hrest := ih b.length hlt blank_nil b rfl
      rw [List.nil_append] at hrest
      have hsplit : w₁ ++ (a ++ sep :: b ++ w₂) = (w₁ ++ a) ++ sep :: (b ++ w₂) := by simp
      rw [hsplit, List.splitOn_append_cons_self_of_not_mem hfirst,
        List.splitOn_append_cons_self_of_not_mem ha, List.map_cons, List.map_cons, hrest]
      have hpad := strip_pad h₁ a blank_nil
      rw [List.append_nil] at hpad
      rw [hpad]
    · have hall : sep ∉ w₁ ++ (s ++ w₂) := by
        simp [h₁.notMem hsep, h₂.notMem hsep, hmem]
      rw [List.splitOn_eq_singleton hall, List.splitOn_eq_singleton hmem, List.map_singleton,
        List.map_singleton, strip_pad h₁ s h₂]

/-- `s.lower()`, as far as a comparison with an ASCII text can tell. -/
def lower (s : Str) : Str :=
  s.flatMap fun c =>
    if c.toNat = 0x212A then ['k']
    else if c.toNat = 0x130 then ['i', Char.ofNat 0x307]
    else [c.toLower]

/-! ## Printing integers -/

/-- `str(n)` of an integer. -/
def str : Int → Str
  | .ofNat n => Nat.toDigits 10 n
  | .negSucc n => '-' :: Nat.toDigits 10 (n + 1)

theorem isDigit_of_mem_toDigits {n : Nat} {c : Char} (h : c ∈ Nat.toDigits 10 n) :
    c.isDigit = true :=
  Nat.isDigit_of_mem_toDigits (by decide) (by decide) h

theorem toDigits_injective {m n : Nat} (h : Nat.toDigits 10 m = Nat.toDigits 10 n) : m = n := by
  rw [← Nat.ofDigitChars_ten_toDigits (n := m), h, Nat.ofDigitChars_ten_toDigits]

theorem minus_notMem_toDigits (n : Nat) : '-' ∉ Nat.toDigits 10 n := by
  intro h
  have hd := isDigit_of_mem_toDigits h
  revert hd
  decide

/-- **Decimal printing is injective.** -/
theorem str_injective : Function.Injective str := by
  intro m n h
  cases m with
  | ofNat m =>
    cases n with
    | ofNat n => rw [toDigits_injective h]
    | negSucc n =>
      have hmem : '-' ∈ Nat.toDigits 10 m := by
        have heq : Nat.toDigits 10 m = '-' :: Nat.toDigits 10 (n + 1) := h
        rw [heq]
        exact List.mem_cons_self
      exact absurd hmem (minus_notMem_toDigits m)
  | negSucc m =>
    cases n with
    | ofNat n =>
      have hmem : '-' ∈ Nat.toDigits 10 n := by
        have heq : '-' :: Nat.toDigits 10 (m + 1) = Nat.toDigits 10 n := h
        rw [← heq]
        exact List.mem_cons_self
      exact absurd hmem (minus_notMem_toDigits n)
    | negSucc n =>
      have hdig : m + 1 = n + 1 := toDigits_injective (List.cons.inj h).2
      rw [Nat.succ.inj hdig]

theorem str_inj {m n : Int} : str m = str n ↔ m = n := str_injective.eq_iff

@[simp] theorem str_ne_nil (n : Int) : str n ≠ [] := by
  cases n with
  | ofNat n => exact Nat.toDigits_ne_nil
  | negSucc n => exact List.cons_ne_nil _ _

/-- A printed integer consists of digits, and of a minus sign in front of a negative one. -/
theorem mem_str {n : Int} {c : Char} (h : c ∈ str n) : c.isDigit = true ∨ c = '-' := by
  cases n with
  | ofNat n => exact Or.inl (isDigit_of_mem_toDigits h)
  | negSucc n =>
    rcases List.mem_cons.mp h with rfl | h
    · exact Or.inr rfl
    · exact Or.inl (isDigit_of_mem_toDigits h)

theorem notMem_str {c : Char} (hd : c.isDigit = false) (hm : c ≠ '-') (n : Int) : c ∉ str n := by
  intro h
  rcases mem_str h with h | h
  · rw [h] at hd
    cases hd
  · exact hm h

theorem isSpace_of_mem_str {n : Int} {c : Char} (h : c ∈ str n) : isSpace c = false := by
  rcases mem_str h with h | rfl
  · simp only [Char.isDigit, Bool.and_eq_true, decide_eq_true_eq, UInt32.le_iff_toNat_le] at h
    have h1 : 48 ≤ c.toNat := h.1
    have h2 : c.toNat ≤ 57 := h.2
    simp only [isSpace, Bool.or_eq_false_iff, Bool.and_eq_false_iff, decide_eq_false_iff_not,
      beq_eq_false_iff_ne, ne_eq]
    omega
  · decide

/-! ## Canonical decimals -/

/-- Decimal digits without leading zeros, behind at most a minus sign; zero has no sign. -/
def IsDecimal (v : Str) : Prop :=
  v = ['0'] ∨ ∃ c ds, c ≠ '0' ∧ (∀ x ∈ c :: ds, x.isDigit = true) ∧
    (v = c :: ds ∨ v = '-' :: c :: ds)

theorem digitChar_sub {c : Char} (h : c.isDigit = true) :
    c.toNat - 48 < 10 ∧ Nat.digitChar (c.toNat - 48) = c := by
  simp only [Char.isDigit, Bool.and_eq_true, decide_eq_true_eq, UInt32.le_iff_toNat_le] at h
  have h1 : 48 ≤ c.toNat := h.1
  have h2 : c.toNat ≤ 57 := h.2
  have hlt : c.toNat - 48 < 10 := by omega
  refine ⟨hlt, ?_⟩
  rw [← Char.toNat_inj, Nat.toNat_digitChar_of_lt_ten hlt]
  omega

/-- Digits without a leading zero are the digits of the number they are read as. -/
theorem toDigits_ofDigitChars {c : Char} (hc : c ≠ '0') (ds : Str)
    (h : ∀ x ∈ c :: ds, x.isDigit = true) :
    Nat.toDigits 10 (Nat.ofDigitChars 10 (c :: ds) 0) = c :: ds := by
  induction ds using List.reverseRecOn with
  | nil =>
    obtain ⟨hlt, hchar⟩ := digitChar_sub (h c List.mem_cons_self)
    simp only [Nat.ofDigitChars_cons, Nat.ofDigitChars_nil, Nat.mul_zero, Nat.zero_add]
    show Nat.toDigits 10 (c.toNat - 48) = [c]
    rw [Nat.toDigits_of_lt_base hlt, hchar]
  | append_singleton ds d ih =>
    have hfront : ∀ x ∈ c :: ds, x.isDigit = true := fun x hx =>
      h x (List.mem_append_left [d] hx)
    obtain ⟨hlt, hchar⟩ := digitChar_sub (h d (List.mem_append_right (c :: ds) (by simp)))
    have hpos : 0 < Nat.ofDigitChars 10 (c :: ds) 0 := by
      rw [Nat.pos_iff_ne_zero]
      intro hzero
      have hdigits := ih hfront
      rw [hzero, Nat.toDigits_zero] at hdigits
      exact hc (List.cons.inj hdigits).1.symm
    have hread : Nat.ofDigitChars 10 (c :: (ds ++ [d])) 0
        = 10 * Nat.ofDigitChars 10 (c :: ds) 0 + (d.toNat - 48) := by
      rw [← List.cons_append, Nat.ofDigitChars_append]
      simp [Nat.ofDigitChars_cons]
    rw [hread, ← Nat.toDigits_append_toDigits (by decide) hpos hlt, ih hfront,
      Nat.toDigits_of_lt_base hlt, hchar, List.cons_append]

/-- The digits of a positive number have no leading zero. -/
theorem toDigits_eq_cons {n : Nat} (hn : 0 < n) :
    ∃ c ds, Nat.toDigits 10 n = c :: ds ∧ c ≠ '0' := by
  induction n using Nat.strongRecOn with
  | ind n ih =>
    by_cases hlt : n < 10
    · refine ⟨n.digitChar, [], Nat.toDigits_of_lt_base hlt, ?_⟩
      rw [ne_eq, Nat.digitChar_eq_zero]
      omega
    · obtain ⟨c, ds, hdigits, hc⟩ := ih (n / 10) (by omega) (by omega)
      refine ⟨c, ds ++ [Nat.digitChar (n % 10)], ?_, hc⟩
      rw [Nat.toDigits_of_base_le (by decide) (Nat.not_lt.mp hlt), hdigits, List.cons_append]

/-- **The canonical decimals are what `str` prints.** -/
theorem isDecimal_iff {v : Str} : IsDecimal v ↔ ∃ n, v = str n := by
  constructor
  · rintro (rfl | ⟨c, ds, hc, hall, rfl | rfl⟩)
    · exact ⟨0, rfl⟩
    · exact ⟨.ofNat (Nat.ofDigitChars 10 (c :: ds) 0), (toDigits_ofDigitChars hc ds hall).symm⟩
    · have hdigits := toDigits_ofDigitChars hc ds hall
      cases hn : Nat.ofDigitChars 10 (c :: ds) 0 with
      | zero =>
        rw [hn, Nat.toDigits_zero] at hdigits
        exact absurd (List.cons.inj hdigits).1.symm hc
      | succ m =>
        refine ⟨.negSucc m, ?_⟩
        rw [str, ← hn, hdigits]
  · rintro ⟨n, rfl⟩
    have hdigit : ∀ {m : Nat} {x : Char}, x ∈ Nat.toDigits 10 m → x.isDigit = true :=
      isDigit_of_mem_toDigits
    cases n with
    | ofNat m =>
      cases m with
      | zero => exact Or.inl rfl
      | succ m =>
        obtain ⟨c, ds, heq, hc⟩ := toDigits_eq_cons (Nat.succ_pos m)
        exact Or.inr ⟨c, ds, hc, fun x hx => hdigit (heq ▸ hx), Or.inl heq⟩
    | negSucc m =>
      obtain ⟨c, ds, heq, hc⟩ := toDigits_eq_cons (Nat.succ_pos m)
      refine Or.inr ⟨c, ds, hc, fun x hx => hdigit (heq ▸ hx), Or.inr ?_⟩
      rw [str, heq]

/-! ## Reading integers -/

/-- The zeros of the blocks of decimal digits (Unicode category Nd). -/
def decimalZeros : List Nat :=
  [0x30, 0x660, 0x6F0, 0x7C0, 0x966, 0x9E6, 0xA66, 0xAE6, 0xB66, 0xBE6, 0xC66, 0xCE6, 0xD66,
    0xDE6, 0xE50, 0xED0, 0xF20, 0x1040, 0x1090, 0x17E0, 0x1810, 0x1946, 0x19D0, 0x1A80, 0x1A90,
    0x1B50, 0x1BB0, 0x1C40, 0x1C50, 0xA620, 0xA8D0, 0xA900, 0xA9D0, 0xA9F0, 0xAA50, 0xABF0, 0xFF10,
    0x104A0, 0x10D30, 0x11066, 0x110F0, 0x11136, 0x111D0, 0x112F0, 0x11450, 0x114D0, 0x11650,
    0x116C0, 0x11730, 0x118E0, 0x11950, 0x11C50, 0x11D50, 0x11DA0, 0x16A60, 0x16AC0, 0x16B50,
    0x11F50, 0x1D7CE, 0x1D7D8, 0x1D7E2, 0x1D7EC, 0x1D7F6, 0x1E140, 0x1E2F0, 0x1E4F0, 0x1E950,
    0x1FBF0]

/-- The value of a decimal digit of any script. -/
def decimal? (c : Char) : Option Nat :=
  (decimalZeros.find? fun z => z ≤ c.toNat && c.toNat < z + 10).map fun z => c.toNat - z

/--
What `int` makes of a code point before it parses: ASCII stays, another blank becomes a space,
another decimal digit an ASCII digit, and anything else a character that no number contains.
-/
def toAscii (c : Char) : Char :=
  if c.toNat < 127 then c
  else if isSpace c then ' '
  else match decimal? c with
    | some d => Nat.digitChar d
    | none => '?'

/-- The blanks that `int` skips once the text is ASCII. -/
def asciiSpace (c : Char) : Bool := c == ' ' || (0x09 ≤ c.toNat && c.toNat ≤ 0x0D)

/-- Underscores only between digits. -/
def wellGrouped : Str → Bool
  | [] => false
  | [c] => c != '_'
  | c :: d :: rest => c != '_' && (if d == '_' then wellGrouped rest else wellGrouped (d :: rest))

/-- The most digits of a number that is read or written in decimal. -/
def maxStrDigits : Nat := 4300

/-- `str(n)` does not raise. -/
def printableInt (n : Int) : Bool := (Nat.toDigits 10 n.natAbs).length ≤ maxStrDigits

/-- `int(s)` of a text with at most `maxStrDigits` digits; `none` is `ValueError`. -/
def int? (s : Str) : Option Int :=
  let t := (s.map toAscii).dropWhile asciiSpace
  let neg := t.head? == some '-'
  let u := if neg || t.head? == some '+' then t.tail else t
  let ds := u.takeWhile fun c => c.isDigit || c == '_'
  let rest := u.dropWhile fun c => c.isDigit || c == '_'
  if wellGrouped ds && rest.all asciiSpace then
    let n : Int := Nat.ofDigitChars 10 (ds.filter fun c => c != '_') 0
    some (if neg then -n else n)
  else none

/-- `int(s)`; a text with too many digits is a `ValueError`, too. -/
def intLimited? (s : Str) : Option Int :=
  if (s.map toAscii).countP Char.isDigit ≤ maxStrDigits then int? s else none

theorem ne_of_isDigit {c d : Char} (hc : c.isDigit = true) (hd : d.isDigit = false) : c ≠ d := by
  intro he
  rw [he, hd] at hc
  cases hc

theorem toAscii_of_isDigit {c : Char} (h : c.isDigit = true) : toAscii c = c := by
  simp only [Char.isDigit, Bool.and_eq_true, decide_eq_true_eq, UInt32.le_iff_toNat_le] at h
  have h2 : c.toNat ≤ 57 := h.2
  unfold toAscii
  rw [if_pos (by omega)]

theorem asciiSpace_of_isDigit {c : Char} (h : c.isDigit = true) : asciiSpace c = false := by
  have hne : c ≠ ' ' := ne_of_isDigit h (by decide)
  simp only [Char.isDigit, Bool.and_eq_true, decide_eq_true_eq, UInt32.le_iff_toNat_le] at h
  have h1 : 48 ≤ c.toNat := h.1
  simp only [asciiSpace, Bool.or_eq_false_iff, beq_eq_false_iff_ne, Bool.and_eq_false_iff,
    decide_eq_false_iff_not]
  refine ⟨hne, ?_⟩
  omega

theorem wellGrouped_of_digits : ∀ {ds : Str}, ds ≠ [] → (∀ c ∈ ds, c.isDigit = true) →
    wellGrouped ds = true
  | [], hne, _ => absurd rfl hne
  | [c], _, h => by
    have hc := ne_of_isDigit (d := '_') (h c (by simp)) (by decide)
    simpa [wellGrouped] using hc
  | c :: d :: rest, _, h => by
    have hc := ne_of_isDigit (d := '_') (h c (by simp)) (by decide)
    have hd := ne_of_isDigit (d := '_') (h d (by simp)) (by decide)
    have ih : wellGrouped (d :: rest) = true :=
      wellGrouped_of_digits (List.cons_ne_nil _ _) (fun x hx => h x (List.mem_cons_of_mem _ hx))
    simp [wellGrouped, hc, hd, ih]

/-- What `int?` does with a nonempty run of digits behind an optional minus sign. -/
theorem int?_digits (ds : Str) (hne : ds ≠ []) (h : ∀ c ∈ ds, c.isDigit = true) :
    int? ds = some (Nat.ofDigitChars 10 ds 0 : Int) ∧
      int? ('-' :: ds) = some (-(Nat.ofDigitChars 10 ds 0 : Int)) := by
  have hmap : ds.map toAscii = ds := by
    calc ds.map toAscii = ds.map id := List.map_congr_left fun c hc => toAscii_of_isDigit (h c hc)
      _ = ds := List.map_id ds
  have hall : ∀ c ∈ ds, (c.isDigit || c == '_') = true := fun c hc => by simp [h c hc]
  have htake : ds.takeWhile (fun c => c.isDigit || c == '_') = ds :=
    List.takeWhile_eq_self_iff.mpr hall
  have hdrop : ds.dropWhile (fun c => c.isDigit || c == '_') = [] :=
    List.dropWhile_eq_nil_iff.mpr hall
  have hfilter : ds.filter (fun c => c != '_') = ds := by
    rw [List.filter_eq_self]
    intro c hc
    simpa using ne_of_isDigit (d := '_') (h c hc) (by decide)
  have hwg := wellGrouped_of_digits hne h
  have hspace : ds.dropWhile asciiSpace = ds := by
    rw [List.dropWhile_eq_self_iff]
    intro hpos
    rw [asciiSpace_of_isDigit (h _ (List.getElem_mem hpos))]
    exact Bool.false_ne_true
  have hhead : ∀ x : Char, x.isDigit = false → (ds.head? == some x) = false := by
    intro x hx
    cases ds with
    | nil => exact absurd rfl hne
    | cons c rest =>
      have := ne_of_isDigit (h c List.mem_cons_self) hx
      simpa using this
  constructor
  · simp only [int?, hmap, hspace, hhead '-' (by decide), hhead '+' (by decide), Bool.or_self,
      Bool.false_eq_true, if_false, htake, hdrop, hwg, List.all_nil, Bool.and_self, if_true,
      hfilter]
  · have hminus : ('-' :: ds).map toAscii = '-' :: ds := by
      rw [List.map_cons, hmap]
      rfl
    have hskip : ('-' :: ds).dropWhile asciiSpace = '-' :: ds := rfl
    simp only [int?, hminus, hskip, List.head?_cons, beq_self_eq_true, Bool.true_or, if_true,
      List.tail_cons, htake, hdrop, hwg, List.all_nil, Bool.and_self, hfilter]

/-- **`int` reads back what `str` has printed.** -/
@[simp] theorem int?_str (n : Int) : int? (str n) = some n := by
  cases n with
  | ofNat n =>
    have h := (int?_digits (Nat.toDigits 10 n) Nat.toDigits_ne_nil
      (fun c hc => isDigit_of_mem_toDigits hc)).1
    rw [Nat.ofDigitChars_ten_toDigits] at h
    exact h
  | negSucc n =>
    have h := (int?_digits (Nat.toDigits 10 (n + 1)) Nat.toDigits_ne_nil
      (fun c hc => isDigit_of_mem_toDigits hc)).2
    rw [Nat.ofDigitChars_ten_toDigits] at h
    exact h

end Py
