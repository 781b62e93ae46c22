import EnterpriseAssistant.Lib.PyValue

/-!
# JSON texts

What `json.dumps(v, ensure_ascii=False)` writes, with blanks after its separators or without, and a
reader of JSON texts.  A number with a fraction or an exponent is kept as its text.

* `readString_quote` — strings are read back
* `readValue_print` — and so is every value that has one reading
* `read_dumps` — the same for whole texts
* `visible_print` — a text has no control characters
-/

namespace JsonText

open Py

variable {ω : Type}

/-! ## Strings -/

/-- What is written for a code point of a string. -/
def escape (c : Char) : Str :=
  if c = '"' then ['\\', '"']
  else if c = '\\' then ['\\', '\\']
  else if c.toNat = 0x0A then ['\\', 'n']
  else if c.toNat = 0x0D then ['\\', 'r']
  else if c.toNat = 0x09 then ['\\', 't']
  else if c.toNat = 0x08 then ['\\', 'b']
  else if c.toNat = 0x0C then ['\\', 'f']
  else if c.toNat < 0x20 then
    ['\\', 'u', '0', '0', Nat.digitChar (c.toNat / 16), Nat.digitChar (c.toNat % 16)]
  else [c]

/-- A string in quotes. -/
def quote (s : Str) : Str := '"' :: (s.flatMap escape ++ ['"'])

/-- What a letter behind a backslash stands for. -/
def unescape? (c : Char) : Option Char :=
  if c = '"' || c = '\\' || c = '/' then some c
  else if c = 'n' then some (Char.ofNat 0x0A)
  else if c = 'r' then some (Char.ofNat 0x0D)
  else if c = 't' then some (Char.ofNat 0x09)
  else if c = 'b' then some (Char.ofNat 0x08)
  else if c = 'f' then some (Char.ofNat 0x0C)
  else none

def hex? (c : Char) : Option Nat :=
  let n := c.toNat
  if 0x30 ≤ n && n ≤ 0x39 then some (n - 0x30)
  else if 0x61 ≤ n && n ≤ 0x66 then some (n - 0x61 + 10)
  else if 0x41 ≤ n && n ≤ 0x46 then some (n - 0x41 + 10)
  else none

/-- The code point with these four digits, unless it is a surrogate. -/
def codePoint? (a b c d : Char) : Option Char := do
  let n := (((← hex? a) * 16 + (← hex? b)) * 16 + (← hex? c)) * 16 + (← hex? d)
  if n.isValidChar then some (Char.ofNat n) else none

/-- A string up to its closing quote, and what is behind it. -/
def readString : Str → Option (Str × Str)
  | [] => none
  | '"' :: rest => some ([], rest)
  | '\\' :: 'u' :: a :: b :: c :: d :: rest =>
    (codePoint? a b c d).bind fun x => (readString rest).map fun p => (x :: p.1, p.2)
  | '\\' :: c :: rest => (unescape? c).bind fun x => (readString rest).map fun p => (x :: p.1, p.2)
  | c :: rest => if c.toNat < 0x20 then none else (readString rest).map fun p => (c :: p.1, p.2)

/-! ## Words -/

/-- A letter, a digit, a sign or a point. -/
def wordChar (c : Char) : Bool := c.isAlphanum || c == '-' || c == '+' || c == '.'

/-- Digits without a leading zero. -/
def digitsText : Str → Bool
  | [] => false
  | [c] => c.isDigit
  | c :: ds => c != '0' && (c :: ds).all Char.isDigit

/-- Digits behind at most a minus sign. -/
def intText : Str → Bool
  | '-' :: ds => digitsText ds
  | ds => digitsText ds

/-- Digits behind at most a sign, after an `e`. -/
def exponentText : Str → Bool
  | e :: '-' :: ds => (e == 'e' || e == 'E') && !ds.isEmpty && ds.all Char.isDigit
  | e :: '+' :: ds => (e == 'e' || e == 'E') && !ds.isEmpty && ds.all Char.isDigit
  | e :: ds => (e == 'e' || e == 'E') && !ds.isEmpty && ds.all Char.isDigit
  | [] => false

/-- What is behind the integral part: a fraction, an exponent, or both. -/
def fractionText : Str → Bool
  | '.' :: s =>
    !(s.takeWhile Char.isDigit).isEmpty &&
      ((s.dropWhile Char.isDigit).isEmpty || exponentText (s.dropWhile Char.isDigit))
  | s => exponentText s

/-- It is no integral part that ends here. -/
def integral (c : Char) : Bool := c.isDigit || c == '-'

def decimalText (s : Str) : Bool :=
  intText (s.takeWhile integral) && fractionText (s.dropWhile integral)

/-- What `repr` prints of a `float`. -/
def floatRepr (s : Str) : Bool :=
  s == "nan".toList || s == "inf".toList || s == "-inf".toList || decimalText s

/-- What is written of a `float` with this `repr`. -/
def floatText (s : Str) : Str :=
  if s = "nan".toList then "NaN".toList
  else if s = "inf".toList then "Infinity".toList
  else if s = "-inf".toList then "-Infinity".toList
  else s

/-- The constant or the number that a word is. -/
def readWord (s : Str) : Option (Value ω) :=
  if s = "null".toList then some .none
  else if s = "true".toList then some (.bool true)
  else if s = "false".toList then some (.bool false)
  else if s = "NaN".toList then some (.float "nan".toList)
  else if s = "Infinity".toList then some (.float "inf".toList)
  else if s = "-Infinity".toList then some (.float "-inf".toList)
  else if intText s then (int? s).map .int
  else if decimalText s then some (.float s)
  else none

/-! ## Writing -/

/-- What is after a separator. -/
def gap (spaced : Bool) : Str := if spaced then [' '] else []

/-- A key that is no string is written as one. -/
def keyText : Key ω → Str
  | .none => "null".toList
  | .bool true => "true".toList
  | .bool false => "false".toList
  | .int n => Py.str n
  | .float text => floatText text
  | .str s => s
  | .other _ => []

section Print

variable (spaced : Bool)

mutual

/-- The text of a value that can be written. -/
def print : Value ω → Str
  | .none => "null".toList
  | .bool true => "true".toList
  | .bool false => "false".toList
  | .int n => Py.str n
  | .float text => floatText text
  | .str s => quote s
  | .list [] | .tuple [] => ['[', ']']
  | .list (x :: xs) | .tuple (x :: xs) => '[' :: (print x ++ (printItems xs ++ [']']))
  | .dict [] => ['{', '}']
  | .dict ((k, v) :: items) =>
    '{' :: (quote (keyText k) ++ ':' :: (gap spaced ++ (print v ++ (printEntries items ++ ['}']))))
  | .other _ | .set _ | .model _ | .dataclass _ => []

/-- The items after the first. -/
def printItems : List (Value ω) → Str
  | [] => []
  | x :: xs => ',' :: (gap spaced ++ (print x ++ printItems xs))

/-- The entries after the first. -/
def printEntries : List (Key ω × Value ω) → Str
  | [] => []
  | (k, v) :: items =>
    ',' :: (gap spaced ++ (quote (keyText k) ++ ':' :: (gap spaced ++ (print v ++
      printEntries items))))

end

end Print

def writableKey : Key ω → Bool
  | .int n => printableInt n
  | .other _ => false
  | _ => true

/-- No `TypeError` here, and no `ValueError` for the digits of an `int`. -/
def writable : Value ω → Bool
  | .int n => printableInt n
  | .dict items => items.all fun e => writableKey e.1
  | .other _ | .set _ | .model _ | .dataclass _ => false
  | _ => true

/-- `json.dumps(v, ensure_ascii=False)`; `none` is a `TypeError` or a `ValueError`. -/
def dumps (spaced : Bool) (v : Value ω) : Option Str :=
  if v.everywhere writable then some (print spaced v) else none

/-! ## Reading -/

def blank (c : Char) : Bool := c == ' ' || c.toNat == 0x09 || c.toNat == 0x0A || c.toNat == 0x0D

def skip (s : Str) : Str := s.dropWhile blank

/-- The key of an entry, and what is behind its colon. -/
def readKey : Str → Option (Str × Str)
  | '"' :: s => (readString s).bind fun p =>
    match skip p.2 with
    | ':' :: rest => some (p.1, skip rest)
    | _ => none
  | _ => none

mutual

/-- A value, and what is behind it. -/
def readValue : Nat → Str → Option (Value ω × Str)
  | 0, _ => none
  | n + 1, s =>
    match s with
    | '"' :: s => (readString s).map fun p => (.str p.1, p.2)
    | '[' :: s =>
      match skip s with
      | ']' :: rest => some (.list [], rest)
      | s => (readValue n s).bind fun x =>
        (readItems n x.2).map fun xs => (.list (x.1 :: xs.1), xs.2)
    | '{' :: s =>
      match skip s with
      | '}' :: rest => some (.dict [], rest)
      | s => (readKey s).bind fun k => (readValue n k.2).bind fun v =>
        (readEntries n v.2).map fun items => (strDict (dictOf ((k.1, v.1) :: items.1)), items.2)
    | s => (readWord (s.takeWhile wordChar)).map fun v => (v, s.dropWhile wordChar)

/-- The items after the first, up to the end of the list. -/
def readItems : Nat → Str → Option (List (Value ω) × Str)
  | 0, _ => none
  | n + 1, s =>
    match skip s with
    | ']' :: rest => some ([], rest)
    | ',' :: s => (readValue n (skip s)).bind fun x =>
      (readItems n x.2).map fun xs => (x.1 :: xs.1, xs.2)
    | _ => none

/-- The entries after the first, up to the end of the object. -/
def readEntries : Nat → Str → Option (List (Str × Value ω) × Str)
  | 0, _ => none
  | n + 1, s =>
    match skip s with
    | '}' :: rest => some ([], rest)
    | ',' :: s => (readKey (skip s)).bind fun k => (readValue n k.2).bind fun v =>
      (readEntries n v.2).map fun items => ((k.1, v.1) :: items.1, items.2)
    | _ => none

end

/-- The value that a text is; no value has more levels than its text has characters. -/
def read (s : Str) : Option (Value ω) :=
  (readValue s.length (skip s)).bind fun p => if (skip p.2).isEmpty then some p.1 else none

def stringKey : Key ω → Bool
  | .str _ => true
  | _ => false

/-- A `dict` with string keys, a list or a scalar: what has one reading, but for its floats. -/
def plain : Value ω → Bool
  | .dict items =>
    (items.all fun e => stringKey e.1) && decide (items.map fun e => keyText e.1).Nodup
  | .tuple _ | .other _ | .set _ | .model _ | .dataclass _ => false
  | _ => true

/-- A float is given by what `repr` prints. -/
def printedFloat : Value ω → Bool
  | .float text => floatRepr text
  | _ => true

/-- What is read back as it was. -/
def readable (v : Value ω) : Bool := plain v && printedFloat v

theorem everywhere_readable {v : Value ω} (hplain : v.everywhere plain = true)
    (hfloat : v.everywhere printedFloat = true) : v.everywhere readable = true :=
  Value.everywhere_of_and (fun v hp hf => by rw [readable, hp, hf]; rfl) hplain hfloat

/-! ## Strings are read back -/

theorem hex?_digitChar {d : Nat} (h : d < 16) : hex? (Nat.digitChar d) = some d := by
  have hall : ∀ e ∈ List.range 16, hex? (Nat.digitChar e) = some e := by decide
  exact hall d (List.mem_range.mpr h)

theorem codePoint?_digits {c : Char} (h : c.toNat < 0x20) : codePoint? '0' '0'
    (Nat.digitChar (c.toNat / 16)) (Nat.digitChar (c.toNat % 16)) = some c := by
  have hzero : hex? '0' = some 0 := by decide
  have hvalue : ((0 * 16 + 0) * 16 + c.toNat / 16) * 16 + c.toNat % 16 = c.toNat := by omega
  have hvalid : c.toNat.isValidChar := c.valid
  simp only [codePoint?, hzero, hex?_digitChar (show c.toNat / 16 < 16 by omega),
    hex?_digitChar (show c.toNat % 16 < 16 by omega), Option.bind_eq_bind, Option.bind_some,
    hvalue, if_pos hvalid, Char.ofNat_toNat]

theorem readString_letter {e : Char} (he : e ≠ 'u') (rest : Str) : readString ('\\' :: e :: rest)
    = (unescape? e).bind fun x => (readString rest).map fun p => (x :: p.1, p.2) := by
  simp [readString, he]

theorem readString_visible {c : Char} (hquote : c ≠ '"') (hslash : c ≠ '\\')
    (hc : ¬c.toNat < 0x20) (rest : Str) :
    readString (c :: rest) = (readString rest).map fun p => (c :: p.1, p.2) := by
  simp [readString, hslash, hc]

/-- A code point is read back from what is written for it. -/
theorem readString_escape (c : Char) (rest : Str) :
    readString (escape c ++ rest) = (readString rest).map fun p => (c :: p.1, p.2) := by
  -- a letter stands for the code point
  have hletter : ∀ {n : Nat} {e : Char}, e ≠ 'u' → unescape? e = some (Char.ofNat n) →
      c.toNat = n → readString (['\\', e] ++ rest)
        = (readString rest).map fun p => (c :: p.1, p.2) := by
    intro n e hu he hn
    have hc : Char.ofNat n = c := by rw [← hn, Char.ofNat_toNat]
    show readString ('\\' :: e :: rest) = _
    rw [readString_letter hu, he, hc, Option.bind_some]
  unfold escape
  split
  next hc =>
    subst hc
    exact readString_letter (by decide) rest
  split
  next hc =>
    subst hc
    exact readString_letter (by decide) rest
  split
  next hc => exact hletter (by decide) (by decide) hc
  split
  next hc => exact hletter (by decide) (by decide) hc
  split
  next hc => exact hletter (by decide) (by decide) hc
  split
  next hc => exact hletter (by decide) (by decide) hc
  split
  next hc => exact hletter (by decide) (by decide) hc
  split
  next hc =>
    show readString ('\\' :: 'u' :: '0' :: '0' :: _ :: _ :: rest) = _
    rw [readString, codePoint?_digits hc, Option.bind_some]
  next hquote hslash _ _ _ _ _ hc => exact readString_visible hquote hslash hc rest

/-- **A string is read back.** -/
theorem readString_quote (s rest : Str) :
    readString (s.flatMap escape ++ '"' :: rest) = some (s, rest) := by
  induction s with
  | nil => rfl
  | cons c s ih => rw [List.flatMap_cons, List.append_assoc, readString_escape, ih, Option.map_some]

/-- The text does not begin with a blank. -/
def Unblank (s : Str) : Prop := ∀ c ∈ s.head?, blank c = false

theorem skip_of_unblank {s : Str} (h : Unblank s) : skip s = s := by
  cases s with
  | nil => rfl
  | cons c s =>
    have hc : blank c = false := h c rfl
    exact List.dropWhile_cons_of_neg (by simp [hc])

theorem skip_gap {s : Str} (h : Unblank s) (spaced : Bool) : skip (gap spaced ++ s) = s := by
  cases spaced with
  | false => exact skip_of_unblank h
  | true => exact skip_of_unblank h

theorem readKey_quote {s : Str} (hs : Unblank s) (spaced : Bool) (k : Str) :
    readKey (quote k ++ ':' :: (gap spaced ++ s)) = some (k, s) := by
  have hquote : quote k ++ ':' :: (gap spaced ++ s)
      = '"' :: (k.flatMap escape ++ '"' :: ':' :: (gap spaced ++ s)) := by
    simp [quote]
  have hcolon : skip (':' :: (gap spaced ++ s)) = ':' :: (gap spaced ++ s) := rfl
  rw [hquote, readKey, readString_quote, Option.bind_some]
  simp only [hcolon, skip_gap hs]

/-! ## Words are read back -/

/-- What is behind a word: nothing, or what is no part of it. -/
def Ends (s : Str) : Prop := ∀ c ∈ s.head?, wordChar c = false

theorem intText_str (n : Int) : intText (Py.str n) = true := by
  have hdigits : ∀ c ds, c ≠ '0' → (∀ x ∈ c :: ds, x.isDigit = true) →
      digitsText (c :: ds) = true := by
    intro c ds hc hall
    cases ds with
    | nil => exact hall c List.mem_cons_self
    | cons d ds => simpa [digitsText, hc] using hall
  obtain h | ⟨c, ds, hc, hall, h | h⟩ := isDecimal_iff.mpr ⟨n, rfl⟩
  · rw [h]
    rfl
  · rw [h]
    have hminus : c ≠ '-' := ne_of_isDigit (hall c List.mem_cons_self) (by decide)
    rw [intText.eq_2]
    · exact hdigits c ds hc hall
    · intro ds' heq
      exact hminus (List.cons.inj heq).1
  · rw [h]
    exact hdigits c ds hc hall

theorem integral_of_mem_digitsText {s : Str} (h : digitsText s = true) :
    ∀ c ∈ s, c.isDigit = true := by
  match s with
  | [c] => simpa [digitsText] using h
  | c :: d :: ds =>
    simp only [digitsText, Bool.and_eq_true, List.all_eq_true] at h
    exact h.2

theorem integral_of_mem_intText {s : Str} (h : intText s = true) :
    ∀ c ∈ s, integral c = true := by
  unfold intText at h
  split at h
  next ds =>
    intro c hc
    obtain rfl | hc := List.mem_cons.mp hc
    · decide
    · simp [integral, integral_of_mem_digitsText h c hc]
  · intro c hc
    simp [integral, integral_of_mem_digitsText h c hc]

/-- The text of a number with a fraction or an exponent is no text of an integer. -/
theorem intText_of_decimalText {s : Str} (h : decimalText s = true) : intText s = false := by
  rw [← Bool.not_eq_true]
  intro hint
  have hdrop : s.dropWhile integral = [] :=
    List.dropWhile_eq_nil_iff.mpr (integral_of_mem_intText hint)
  simp [decimalText, hdrop, fractionText, exponentText] at h

theorem readWord_str (n : Int) : readWord (Py.str n) = some (.int n : Value ω) := by
  have hne : ∀ {s : Str}, intText s = false → Py.str n ≠ s := by
    rintro s hs rfl
    rw [intText_str] at hs
    cases hs
  rw [readWord, if_neg (hne (by decide)), if_neg (hne (by decide)), if_neg (hne (by decide)),
    if_neg (hne (by decide)), if_neg (hne (by decide)), if_neg (hne (by decide)),
    if_pos (intText_str n), int?_str]
  rfl

theorem readWord_floatText {text : Str} (h : floatRepr text = true) :
    readWord (floatText text) = some (.float text : Value ω) := by
  simp only [floatRepr, Bool.or_eq_true, beq_iff_eq] at h
  rcases h with ((rfl | rfl) | rfl) | h
  · rfl
  · rfl
  · rfl
  · have hne : ∀ {s : Str}, decimalText s = false → text ≠ s := by
      rintro s hs rfl
      rw [h] at hs
      cases hs
    rw [floatText, if_neg (hne (by decide)), if_neg (hne (by decide)), if_neg (hne (by decide)),
      readWord, if_neg (hne (by decide)), if_neg (hne (by decide)), if_neg (hne (by decide)),
      if_neg (hne (by decide)), if_neg (hne (by decide)), if_neg (hne (by decide)),
      intText_of_decimalText h, if_neg Bool.false_ne_true, if_pos h]

theorem wordChar_of_isDigit {c : Char} (h : c.isDigit = true) : wordChar c = true := by
  simp [wordChar, Char.isAlphanum, h]

theorem wordChar_of_integral {c : Char} (h : integral c = true) : wordChar c = true := by
  simp only [integral, Bool.or_eq_true, beq_iff_eq] at h
  obtain h | rfl := h
  · exact wordChar_of_isDigit h
  · decide

theorem wordChar_of_exponentText {s : Str} (h : exponentText s = true) :
    ∀ c ∈ s, wordChar c = true := by
  have hparts : ∀ {e : Char} {ds : Str},
      ((e == 'e' || e == 'E') && !ds.isEmpty && ds.all Char.isDigit) = true →
      wordChar e = true ∧ ∀ c ∈ ds, wordChar c = true := by
    intro e ds h
    simp only [Bool.and_eq_true, Bool.or_eq_true, beq_iff_eq, List.all_eq_true] at h
    obtain ⟨⟨rfl | rfl, -⟩, hds⟩ := h
    · exact ⟨by decide, fun c hc => wordChar_of_isDigit (hds c hc)⟩
    · exact ⟨by decide, fun c hc => wordChar_of_isDigit (hds c hc)⟩
  unfold exponentText at h
  split at h
  · obtain ⟨he, hds⟩ := hparts h
    simpa [he] using ⟨by decide, hds⟩
  · obtain ⟨he, hds⟩ := hparts h
    simpa [he] using ⟨by decide, hds⟩
  · obtain ⟨he, hds⟩ := hparts h
    simpa [he] using hds
  · cases h

theorem wordChar_of_fractionText {s : Str} (h : fractionText s = true) :
    ∀ c ∈ s, wordChar c = true := by
  unfold fractionText at h
  split at h
  next t =>
    simp only [Bool.and_eq_true, Bool.or_eq_true, List.isEmpty_iff] at h
    intro c hc
    obtain rfl | hc := List.mem_cons.mp hc
    · decide
    rw [← List.takeWhile_append_dropWhile (p := Char.isDigit) (l := t), List.mem_append] at hc
    rcases hc with hc | hc
    · exact wordChar_of_isDigit (List.mem_takeWhile_imp hc)
    rcases h.2 with hnil | hexp
    · rw [hnil] at hc
      cases hc
    · exact wordChar_of_exponentText hexp c hc
  · exact wordChar_of_exponentText h

theorem wordChar_of_floatRepr {text : Str} (h : floatRepr text = true) :
    ∀ c ∈ floatText text, wordChar c = true := by
  simp only [floatRepr, Bool.or_eq_true, beq_iff_eq] at h
  rcases h with ((rfl | rfl) | rfl) | h
  · simp [floatText, wordChar]
  · simp [floatText, wordChar]
  · simp [floatText, wordChar]
  · have hne : ∀ {s : Str}, decimalText s = false → text ≠ s := by
      rintro s hs rfl
      rw [h] at hs
      cases hs
    rw [floatText, if_neg (hne (by decide)), if_neg (hne (by decide)), if_neg (hne (by decide))]
    rw [decimalText, Bool.and_eq_true] at h
    intro c hc
    rw [← List.takeWhile_append_dropWhile (p := integral) (l := text), List.mem_append] at hc
    rcases hc with hc | hc
    · exact wordChar_of_integral (List.mem_takeWhile_imp hc)
    · exact wordChar_of_fractionText h.2 c hc

theorem wordChar_of_mem_str {n : Int} {c : Char} (h : c ∈ Py.str n) : wordChar c = true :=
  wordChar_of_integral (integral_of_mem_intText (intText_str n) c h)

/-! ## Values are read back -/

theorem ne_of_wordChar {c d : Char} (hc : wordChar c = true) (hd : wordChar d = false) : c ≠ d := by
  rintro rfl
  rw [hc] at hd
  cases hd

theorem readValue_word (n : Nat) {s rest : Str} (hne : s ≠ []) (hs : ∀ c ∈ s, wordChar c = true)
    (hrest : Ends rest) :
    readValue (n + 1) (s ++ rest) = (readWord s : Option (Value ω)).map fun v => (v, rest) := by
  have htake : (s ++ rest).takeWhile wordChar = s := by
    rw [List.takeWhile_append_of_pos hs]
    cases rest with
    | nil => simp
    | cons c rest => simp [hrest c rfl]
  have hdrop : (s ++ rest).dropWhile wordChar = rest := by
    rw [List.dropWhile_append_of_pos hs]
    cases rest with
    | nil => rfl
    | cons c rest => simp [hrest c rfl]
  rw [readValue]
  · rw [htake, hdrop]
  all_goals
    intro s' heq
    obtain ⟨c, s, rfl⟩ := List.exists_cons_of_ne_nil hne
    exact ne_of_wordChar (hs c List.mem_cons_self) (by decide) (List.cons.inj heq).1

section RoundTrip

variable (spaced : Bool)

/-- The value is read back, in front of anything that does not go on with it. -/
def ReadBack (v : Value ω) : Prop :=
  ∀ (n : Nat) (rest : Str), (print spaced v).length ≤ n → Ends rest →
    readValue n (print spaced v ++ rest) = some (v, rest)

/-- The value is written as one word. -/
structure Word (v : Value ω) : Prop where
  chars : ∀ c ∈ print spaced v, wordChar c = true
  value : readWord (print spaced v) = some v

variable {spaced}

theorem Word.ne_nil {v : Value ω} (h : Word spaced v) : print spaced v ≠ [] := by
  intro hnil
  have hvalue := h.value
  rw [hnil] at hvalue
  cases hvalue

theorem Word.readBack {v : Value ω} (h : Word spaced v) : ReadBack spaced v := by
  intro n rest hn hrest
  cases n with
  | zero => exact absurd (List.length_eq_zero_iff.mp (Nat.le_zero.mp hn)) h.ne_nil
  | succ n => rw [readValue_word n h.ne_nil h.chars hrest, h.value, Option.map_some]

variable (spaced)

theorem word_none : Word spaced (.none : Value ω) := ⟨by simp [print, wordChar], rfl⟩

theorem word_bool (b : Bool) : Word spaced (.bool b : Value ω) := by
  cases b with
  | false => exact ⟨by simp [print, wordChar], rfl⟩
  | true => exact ⟨by simp [print, wordChar], rfl⟩

theorem word_int (n : Int) : Word spaced (.int n : Value ω) :=
  ⟨fun _ hc => wordChar_of_mem_str hc, readWord_str n⟩

theorem word_float {text : Str} (h : floatRepr text = true) : Word spaced (.float text : Value ω) :=
  ⟨wordChar_of_floatRepr h, readWord_floatText h⟩

/-- How the text of a value begins. -/
def opening (c : Char) : Bool := wordChar c || c == '"' || c == '[' || c == '{'

theorem print_opening {v : Value ω} (h : v.everywhere readable = true) :
    ∃ c s, print spaced v = c :: s ∧ opening c = true := by
  have hword : ∀ {v : Value ω}, Word spaced v → ∃ c s, print spaced v = c :: s ∧
      opening c = true := by
    intro v hv
    obtain ⟨c, s, heq⟩ := List.exists_cons_of_ne_nil hv.ne_nil
    have hc := hv.chars c (heq ▸ List.mem_cons_self)
    exact ⟨c, s, heq, by simp [opening, hc]⟩
  cases v with
  | none => exact hword (word_none spaced)
  | bool b => exact hword (word_bool spaced b)
  | int n => exact hword (word_int spaced n)
  | float text => exact hword (word_float spaced h)
  | str s => exact ⟨'"', _, rfl, rfl⟩
  | list xs =>
    cases xs with
    | nil => exact ⟨'[', _, rfl, rfl⟩
    | cons x xs => exact ⟨'[', _, rfl, rfl⟩
  | dict items =>
    cases items with
    | nil => exact ⟨'{', _, rfl, rfl⟩
    | cons e items => exact ⟨'{', _, rfl, rfl⟩
  | tuple xs => simp [readable, plain] at h
  | set xs => simp [readable, plain] at h
  | other o => cases h
  | model fields => simp [readable, plain] at h
  | dataclass fields => simp [readable, plain] at h

theorem unblank_print {v : Value ω} (h : v.everywhere readable = true) (rest : Str) :
    Unblank (print spaced v ++ rest) := by
  obtain ⟨c, s, heq, hc⟩ := print_opening spaced h
  have hblank : ∀ c, opening c = true → blank c = false := by
    intro c hc
    rw [← Bool.not_eq_true]
    intro hb
    simp only [blank, Bool.or_eq_true, beq_iff_eq] at hb
    have hnat : ∀ m, c.toNat = m → c = Char.ofNat m := by
      rintro m rfl
      exact (Char.ofNat_toNat c).symm
    rcases hb with ((rfl | h) | h) | h
    · exact absurd hc (by decide)
    · exact absurd (hnat _ h ▸ hc) (by decide)
    · exact absurd (hnat _ h ▸ hc) (by decide)
    · exact absurd (hnat _ h ▸ hc) (by decide)
  rw [heq]
  rintro c' hc'
  obtain rfl : c = c' := by simpa using hc'
  exact hblank c hc

theorem ends_printItems (xs : List (Value ω)) (rest : Str) :
    Ends (printItems spaced xs ++ ']' :: rest) := by
  cases xs with
  | nil => simp [Ends, printItems, wordChar]
  | cons x xs => simp [Ends, printItems, wordChar]

theorem ends_printEntries (items : List (Key ω × Value ω)) (rest : Str) :
    Ends (printEntries spaced items ++ '}' :: rest) := by
  cases items with
  | nil => simp [Ends, printEntries, wordChar]
  | cons e items => simp [Ends, printEntries, wordChar]

/-- Items that are read back one by one are read back in a list. -/
theorem readItems_print {xs : List (Value ω)} (hxs : ∀ x ∈ xs, x.everywhere readable = true)
    (ih : ∀ x ∈ xs, ReadBack spaced x) (n : Nat) (rest : Str)
    (hn : (printItems spaced xs).length < n) :
    readItems n (printItems spaced xs ++ ']' :: rest) = some (xs, rest) := by
  induction xs generalizing n with
  | nil =>
    obtain ⟨m, rfl⟩ := Nat.exists_eq_succ_of_ne_zero (Nat.ne_zero_of_lt hn)
    rfl
  | cons x xs ihs =>
    obtain ⟨m, rfl⟩ := Nat.exists_eq_succ_of_ne_zero (Nat.ne_zero_of_lt hn)
    obtain ⟨hx, hxs⟩ := List.forall_mem_cons.mp hxs
    obtain ⟨ihx, ih⟩ := List.forall_mem_cons.mp ih
    rw [printItems, List.length_cons, List.length_append, List.length_append] at hn
    have htext : printItems spaced (x :: xs) ++ ']' :: rest
        = ',' :: (gap spaced ++ (print spaced x ++ (printItems spaced xs ++ ']' :: rest))) := by
      simp [printItems]
    have hcomma : ∀ s : Str, skip (',' :: s) = ',' :: s := fun _ => rfl
    rw [htext, readItems, hcomma]
    simp only [skip_gap (unblank_print spaced hx _)]
    rw [ihx m _ (by omega) (ends_printItems spaced xs rest), Option.bind_some,
      ihs hxs ih m (by omega), Option.map_some]

/-- The entries of a `dict` under their texts. -/
def entries (items : List (Key ω × Value ω)) : List (Str × Value ω) :=
  items.map fun e => (keyText e.1, e.2)

theorem readEntries_print {items : List (Key ω × Value ω)}
    (hitems : ∀ e ∈ items, e.2.everywhere readable = true)
    (ih : ∀ e ∈ items, ReadBack spaced e.2) (n : Nat) (rest : Str)
    (hn : (printEntries spaced items).length < n) :
    readEntries n (printEntries spaced items ++ '}' :: rest) = some (entries items, rest) := by
  induction items generalizing n with
  | nil =>
    obtain ⟨m, rfl⟩ := Nat.exists_eq_succ_of_ne_zero (Nat.ne_zero_of_lt hn)
    rfl
  | cons e items ihs =>
    obtain ⟨k, v⟩ := e
    obtain ⟨m, rfl⟩ := Nat.exists_eq_succ_of_ne_zero (Nat.ne_zero_of_lt hn)
    obtain ⟨hv : v.everywhere readable = true, hitems⟩ := List.forall_mem_cons.mp hitems
    obtain ⟨ihv : ReadBack spaced v, ih⟩ := List.forall_mem_cons.mp ih
    have htext : printEntries spaced ((k, v) :: items) ++ '}' :: rest
        = ',' :: (gap spaced ++ (quote (keyText k) ++ ':' :: (gap spaced ++ (print spaced v ++
          (printEntries spaced items ++ '}' :: rest))))) := by
      simp [printEntries]
    have hlength : (print spaced v).length + (printEntries spaced items).length
        < (printEntries spaced ((k, v) :: items)).length := by
      simp only [printEntries, List.length_cons, List.length_append]
      omega
    have hcomma : ∀ s : Str, skip (',' :: s) = ',' :: s := fun _ => rfl
    have hquote : ∀ (k s : Str), Unblank (quote k ++ s) := fun k s => by
      simp [Unblank, quote, blank]
    rw [htext, readEntries, hcomma]
    simp only [skip_gap (hquote _ _)]
    rw [readKey_quote (unblank_print spaced hv _), Option.bind_some,
      ihv m _ (by omega) (ends_printEntries spaced items rest), Option.bind_some,
      ihs hitems ih m (by omega), Option.map_some]
    rfl

/-- A `dict` whose keys are strings is read back from its entries. -/
theorem strDict_entries {items : List (Key ω × Value ω)}
    (h : plain (.dict items : Value ω) = true) :
    strDict (dictOf (entries items)) = .dict items := by
  simp only [plain, Bool.and_eq_true, List.all_eq_true, decide_eq_true_eq] at h
  have hnodup : ((entries items).map Prod.fst).Nodup := by
    rw [entries, List.map_map]
    exact h.2
  rw [dictOf_of_nodup hnodup, strDict, entries, List.map_map]
  refine congrArg Value.dict ((List.map_congr_left fun e he => ?_).trans (List.map_id items))
  obtain ⟨k, v⟩ := e
  cases k with
  | str s => rfl
  | _ => cases h.1 _ he

theorem fuel_succ {v : Value ω} (h : v.everywhere readable = true) {n : Nat}
    (hn : (print spaced v).length ≤ n) : ∃ m, n = m + 1 := by
  obtain ⟨c, s, heq, -⟩ := print_opening spaced h
  rw [heq, List.length_cons] at hn
  exact ⟨n - 1, by omega⟩

theorem readValue_list (n : Nat) {s : Str} (hs : Unblank s) (hclose : s.head? ≠ some ']') :
    (readValue (n + 1) ('[' :: s) : Option (Value ω × Str)) = (readValue n s).bind fun x =>
      (readItems n x.2).map fun xs => (.list (x.1 :: xs.1), xs.2) := by
  rw [readValue, skip_of_unblank hs]
  split
  · exact absurd rfl hclose
  · rfl

theorem readValue_dict (n : Nat) {s : Str} (hs : Unblank s) (hclose : s.head? ≠ some '}') :
    (readValue (n + 1) ('{' :: s) : Option (Value ω × Str))
      = (readKey s).bind fun k => (readValue n k.2).bind fun v =>
        (readEntries n v.2).map fun items =>
          (strDict (dictOf ((k.1, v.1) :: items.1)), items.2) := by
  rw [readValue, skip_of_unblank hs]
  split
  · exact absurd rfl hclose
  · rfl

/-- **A value is read back**, in front of anything that does not go on with it. -/
theorem readValue_print {v : Value ω} (h : v.everywhere readable = true) : ReadBack spaced v := by
  induction v using Value.induct with
  | none => exact (word_none spaced).readBack
  | bool b => exact (word_bool spaced b).readBack
  | int n => exact (word_int spaced n).readBack
  | float text => exact (word_float spaced h).readBack
  | str s =>
    intro n rest hn _
    obtain ⟨m, rfl⟩ := fuel_succ spaced h hn
    have htext : print spaced (.str s : Value ω) ++ rest
        = '"' :: (s.flatMap escape ++ '"' :: rest) := by
      simp [print, quote]
    rw [htext, readValue, readString_quote, Option.map_some]
  | list xs ih =>
    intro n rest hn _
    obtain ⟨m, rfl⟩ := fuel_succ spaced h hn
    rw [Value.everywhere_list, Bool.and_eq_true, List.all_eq_true] at h
    have hitems : ∀ x ∈ xs, ReadBack spaced x := fun x hx => ih x hx (h.2 x hx)
    cases xs with
    | nil => rfl
    | cons x xs =>
      obtain ⟨hx, hxs⟩ := List.forall_mem_cons.mp h.2
      obtain ⟨ihx, ihxs⟩ := List.forall_mem_cons.mp hitems
      have htext : print spaced (.list (x :: xs)) ++ rest
          = '[' :: (print spaced x ++ (printItems spaced xs ++ ']' :: rest)) := by
        simp [print]
      -- no value begins as the list ends, so that this is not read as the empty one
      have hclose : (print spaced x ++ (printItems spaced xs ++ ']' :: rest)).head?
          ≠ some ']' := by
        obtain ⟨c, s, heq, hc⟩ := print_opening spaced hx
        rw [heq, List.cons_append, List.head?_cons]
        rintro ⟨⟩
        exact absurd hc (by decide)
      simp only [print, List.length_cons, List.length_append, List.length_nil] at hn
      rw [htext, readValue_list m (unblank_print spaced hx _) hclose,
        ihx m _ (by omega) (ends_printItems spaced xs rest), Option.bind_some,
        readItems_print spaced hxs ihxs m rest (by omega), Option.map_some]
  | dict items ih =>
    intro n rest hn _
    obtain ⟨m, rfl⟩ := fuel_succ spaced h hn
    rw [Value.everywhere_dict, Bool.and_eq_true, List.all_eq_true] at h
    have hvalues : ∀ e ∈ items, ReadBack spaced e.2 := fun e he => ih e he (h.2 e he)
    cases items with
    | nil => rfl
    | cons e items =>
      obtain ⟨k, v⟩ := e
      obtain ⟨hv : v.everywhere readable = true, hitems⟩ := List.forall_mem_cons.mp h.2
      obtain ⟨ihv : ReadBack spaced v, ihitems⟩ := List.forall_mem_cons.mp hvalues
      have htext : print spaced (.dict ((k, v) :: items)) ++ rest
          = '{' :: (quote (keyText k) ++ ':' :: (gap spaced ++ (print spaced v ++
            (printEntries spaced items ++ '}' :: rest)))) := by
        simp [print]
      simp only [print, List.length_cons, List.length_append, List.length_nil] at hn
      rw [htext, readValue_dict m (by simp [Unblank, quote, blank]) (by simp [quote]),
        readKey_quote (unblank_print spaced hv _), Option.bind_some,
        ihv m _ (by omega) (ends_printEntries spaced items rest), Option.bind_some,
        readEntries_print spaced hitems ihitems m rest (by omega), Option.map_some]
      exact congrArg (fun d => some (d, rest)) (strDict_entries (Bool.and_eq_true_iff.mp h.1).1)
  | tuple xs => simp [readable, plain] at h
  | set xs => simp [readable, plain] at h
  | other o => cases h
  | model fields => simp [readable, plain] at h
  | dataclass fields => simp [readable, plain] at h

/-- **A text is read back** to the value of which it was written. -/
theorem read_dumps {v : Value ω} (h : v.everywhere readable = true) {line : Str}
    (hline : dumps spaced v = some line) : read line = some v := by
  rw [dumps, Option.ite_none_right_eq_some, Option.some.injEq] at hline
  obtain ⟨-, rfl⟩ := hline
  have hread := readValue_print spaced h (print spaced v).length [] (Nat.le_refl _)
    (by simp [Ends])
  have hskip := skip_of_unblank (unblank_print spaced h [])
  rw [List.append_nil] at hread hskip
  rw [read, hskip, hread]
  rfl

/-! ## Control characters -/

/-- No character ends a line or controls a terminal of ASCII. -/
def Visible (s : Str) : Prop := ∀ c ∈ s, 0x20 ≤ c.toNat

@[simp] theorem visible_nil : Visible [] := fun _ h => absurd h List.not_mem_nil

@[simp] theorem visible_cons {c : Char} {s : Str} :
    Visible (c :: s) ↔ 0x20 ≤ c.toNat ∧ Visible s := List.forall_mem_cons

@[simp] theorem visible_append {s t : Str} : Visible (s ++ t) ↔ Visible s ∧ Visible t :=
  List.forall_mem_append

@[simp] theorem visible_gap : Visible (gap spaced) := by
  cases spaced with
  | false => exact visible_nil
  | true => simp [gap]

theorem visible_escape (c : Char) : Visible (escape c) := by
  have hdigit : ∀ d, d < 16 → 0x20 ≤ (Nat.digitChar d).toNat := by
    have hall : ∀ d ∈ List.range 16, 0x20 ≤ (Nat.digitChar d).toNat := by decide
    exact fun d hd => hall d (List.mem_range.mpr hd)
  by_cases hc : c.toNat < 0x20
  · have hhigh := hdigit (c.toNat / 16) (by omega)
    have hlow := hdigit (c.toNat % 16) (by omega)
    unfold escape
    split_ifs <;> simp [hhigh, hlow]
  · have hvisible : 0x20 ≤ c.toNat := Nat.not_lt.mp hc
    unfold escape
    split_ifs <;> simp [hvisible]

@[simp] theorem visible_quote (s : Str) : Visible (quote s) := by
  have hbody : Visible (s.flatMap escape) := by
    intro c hc
    obtain ⟨x, -, hx⟩ := List.mem_flatMap.mp hc
    exact visible_escape x c hx
  simp [quote, hbody]

variable {spaced}

theorem Word.visible {v : Value ω} (h : Word spaced v) : Visible (print spaced v) := by
  intro c hc
  have hword := h.chars c hc
  by_contra hlt
  -- there are only so many control characters, and none of them is in a word
  have hnat : c = Char.ofNat c.toNat := (Char.ofNat_toNat c).symm
  have hall : ∀ n ∈ List.range 0x20, wordChar (Char.ofNat n) = false := by decide
  rw [hnat, hall c.toNat (List.mem_range.mpr (by omega))] at hword
  cases hword

variable (spaced)

theorem visible_printItems {xs : List (Value ω)} (h : ∀ x ∈ xs, Visible (print spaced x)) :
    Visible (printItems spaced xs) := by
  induction xs with
  | nil => exact visible_nil
  | cons x xs ih =>
    obtain ⟨hx, hxs⟩ := List.forall_mem_cons.mp h
    simp [printItems, hx, ih hxs]

theorem visible_printEntries {items : List (Key ω × Value ω)}
    (h : ∀ e ∈ items, Visible (print spaced e.2)) : Visible (printEntries spaced items) := by
  induction items with
  | nil => exact visible_nil
  | cons e items ih =>
    obtain ⟨k, v⟩ := e
    obtain ⟨hv : Visible (print spaced v), hitems⟩ := List.forall_mem_cons.mp h
    simp [printEntries, hv, ih hitems]

/-- **A text has no control characters.** -/
theorem visible_print {v : Value ω} (h : v.everywhere readable = true) :
    Visible (print spaced v) := by
  induction v using Value.induct with
  | none => exact (word_none spaced).visible
  | bool b => exact (word_bool spaced b).visible
  | int n => exact (word_int spaced n).visible
  | float text => exact (word_float spaced h).visible
  | str s => exact visible_quote s
  | list xs ih =>
    rw [Value.everywhere_list, Bool.and_eq_true, List.all_eq_true] at h
    have hitems : ∀ x ∈ xs, Visible (print spaced x) := fun x hx => ih x hx (h.2 x hx)
    cases xs with
    | nil => simp [print]
    | cons x xs =>
      obtain ⟨hx, hxs⟩ := List.forall_mem_cons.mp hitems
      simp [print, hx, visible_printItems spaced hxs]
  | dict items ih =>
    rw [Value.everywhere_dict, Bool.and_eq_true, List.all_eq_true] at h
    have hvalues : ∀ e ∈ items, Visible (print spaced e.2) := fun e he => ih e he (h.2 e he)
    cases items with
    | nil => simp [print]
    | cons e items =>
      obtain ⟨k, v⟩ := e
      obtain ⟨hv : Visible (print spaced v), hitems⟩ := List.forall_mem_cons.mp hvalues
      simp [print, hv, visible_printEntries spaced hitems]
  | tuple xs => simp [readable, plain] at h
  | set xs => simp [readable, plain] at h
  | other o => cases h
  | model fields => simp [readable, plain] at h
  | dataclass fields => simp [readable, plain] at h

end RoundTrip

end JsonText
