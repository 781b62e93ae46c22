import EnterpriseAssistant.Core.DeepRedaction

/-!
# The standard form of audit metadata

`_to_obj`, `_normalize_meta` and `_std_meta` of `app/modules/audit/service.py`, and what
`json.dumps` makes of the result when the batch is flushed.

`model_dump` of a pydantic model is a parameter.  `text` is `str` of the objects of `ω`, and `keyOk`
says which keys of a `dict` are accepted.

* `jsonOk_takeApart` — what is left of a model or a dataclass
* `jsonOk_toObj` — what is left of any value
* `stdMeta_storable_iff` — the metadata that can be stored
-/

namespace EnterpriseAssistant.Audit

open Py Core

variable {ω : Type}

/-! ## The standard form -/

section Source

variable (w : WordClass) (text : ω → Option Str) (modelDump : List (Str × Value ω) → Value ω)

mutual

/-- `_to_obj`; `none` is what `str` raises. -/
def toObj : Value ω → Option (Value ω)
  | .none => some .none
  | .str s => some (.str s)
  | .int n => some (.int n)
  | .float x => some (.float x)
  | .bool b => some (.bool b)
  | .model fields => some (modelDump fields)
  | .dataclass fields => some (asdict (.dataclass fields))
  | .dict items => (toObjEntries items).map fun entries => strDict (dictOf entries)
  | .list xs => (toObjItems xs).map .list
  | .tuple xs => (toObjItems xs).map .list
  | .set xs => (toObjItems xs).map .list
  | .other o => (text o).map .str

def toObjItems : List (Value ω) → Option (List (Value ω))
  | [] => some []
  | x :: xs => (toObj x).bind fun y => (toObjItems xs).map fun ys => y :: ys

def toObjEntries : List (Key ω × Value ω) → Option (List (Str × Value ω))
  | [] => some []
  | (k, v) :: items => (k.text? text).bind fun s => (toObj v).bind fun y =>
    (toObjEntries items).map fun entries => (s, y) :: entries

end

/-- `_normalize_meta` -/
def normalizeMeta : Value ω → Option (Option (List (Str × Value ω)))
  | .none => some none
  | .dict items => (toObjEntries text modelDump items).map fun entries => some (dictOf entries)
  | v => (toObj text modelDump v).map fun y => some [("value".toList, y)]

/-- `_std_meta`; `none` is what `str` raises. -/
def stdMeta (v : Value ω) (errorCode : Option Str) : Option (Value ω) :=
  (normalizeMeta text modelDump v).map fun m =>
    match errorCode with
    | none =>
      match m with
      | none => .none
      | some d => redactObj w (strDict d)
    | some code => redactObj w (strDict (setDefault "error_code".toList (.str code) (m.getD [])))

end Source

/-! ## What `json.dumps` accepts -/

section Json

variable (keyOk : Key ω → Bool)

mutual

def jsonOk : Value ω → Bool
  | .none | .bool _ | .float _ | .str _ => true
  | .int n => printableInt n
  | .list xs => jsonOkItems xs
  | .tuple xs => jsonOkItems xs
  | .dict items => jsonOkEntries items
  | .other _ | .set _ | .model _ | .dataclass _ => false

def jsonOkItems : List (Value ω) → Bool
  | [] => true
  | x :: xs => jsonOk x && jsonOkItems xs

def jsonOkEntries : List (Key ω × Value ω) → Bool
  | [] => true
  | (k, v) :: items => (keyOk k && jsonOk v) && jsonOkEntries items

end

/-- `None`, or a `dict` that is accepted. -/
def storable : Value ω → Bool
  | .none => true
  | .dict items => jsonOk keyOk (.dict items)
  | _ => false

/-- A string is a key for every reading of JSON. -/
def stringKey : Key ω → Bool
  | .str _ => true
  | _ => false

/-- The keys that `json.dumps` turns into strings, too. -/
def jsonKey : Key ω → Bool
  | .int n => printableInt n
  | .other _ => false
  | _ => true

/-! ## What can be stored -/

variable (text : ω → Option Str)

mutual

/-- `_to_obj` does not raise: everything that it turns into a string can be printed. -/
def converts : Value ω → Bool
  | .list xs => convertsItems xs
  | .tuple xs => convertsItems xs
  | .set xs => convertsItems xs
  | .dict items => convertsEntries items
  | .other o => (text o).isSome
  | _ => true

def convertsItems : List (Value ω) → Bool
  | [] => true
  | x :: xs => converts x && convertsItems xs

def convertsEntries : List (Key ω × Value ω) → Bool
  | [] => true
  | (k, v) :: items => ((k.text? text).isSome && converts v) && convertsEntries items

end

mutual

/--
A value in a field: no unknown object, no set and no integer with too many digits outside of
sensitive entries.  A model in a field is only taken apart where the field is a model's (`dumped`).
-/
def rawOk (dumped : Bool) : Value ω → Bool
  | .none | .bool _ | .float _ | .str _ => true
  | .int n => printableInt n
  | .list xs => rawOkItems dumped xs
  | .tuple xs => rawOkItems dumped xs
  | .dict items => rawOkEntries dumped items
  | .model fields => dumped && rawOkFields dumped fields
  | .dataclass fields => rawOkFields dumped fields
  | .other _ | .set _ => false

def rawOkItems (dumped : Bool) : List (Value ω) → Bool
  | [] => true
  | x :: xs => rawOk dumped x && rawOkItems dumped xs

def rawOkEntries (dumped : Bool) : List (Key ω × Value ω) → Bool
  | [] => true
  | (k, v) :: items =>
    (keyOk k && (sensitive k || rawOk dumped v)) && rawOkEntries dumped items

def rawOkFields (dumped : Bool) : List (Str × Value ω) → Bool
  | [] => true
  | (name, v) :: fields =>
    (sensitive (.str name : Key ω) || rawOk dumped v) && rawOkFields dumped fields

end

mutual

/--
Any value: what `_to_obj` does not convert itself is in the fields of models and dataclasses, and
integers stay what they are.
-/
def objOk : Value ω → Bool
  | .none | .bool _ | .float _ | .str _ | .other _ => true
  | .int n => printableInt n
  | .list xs => objOkItems xs
  | .tuple xs => objOkItems xs
  | .set xs => objOkItems xs
  | .dict items => objOkEntries items
  | .model fields => rawOk keyOk true (.model fields)
  | .dataclass fields => rawOk keyOk false (.dataclass fields)

def objOkItems : List (Value ω) → Bool
  | [] => true
  | x :: xs => objOk x && objOkItems xs

/-- An entry is overwritten by a later one whose key has the same text. -/
def objOkEntries : List (Key ω × Value ω) → Bool
  | [] => true
  | (k, v) :: items =>
    ((items.map fun e => e.1.text? text).contains (k.text? text) ||
      ((k.text? text).any (fun s => sensitive (.str s : Key ω)) || objOk v)) && objOkEntries items

end

end Json

/-! ## The functions on lists -/

-- the equations are made here, once, and not by whichever lemma is the first to need them
attribute [local grind =] toObj toObjItems toObjEntries normalizeMeta stdMeta jsonOk jsonOkItems
  jsonOkEntries storable stringKey jsonKey converts convertsItems convertsEntries rawOk rawOkItems
  rawOkEntries rawOkFields objOk objOkItems objOkEntries

section

variable (text : ω → Option Str)

theorem convertsItems_eq (xs : List (Value ω)) :
    convertsItems text xs = xs.all (converts text) := by
  induction xs with
  | nil => simp [convertsItems]
  | cons x xs ih => simp [convertsItems, ih]

theorem convertsEntries_eq (items : List (Key ω × Value ω)) :
    convertsEntries text items
      = items.all fun e => (e.1.text? text).isSome && converts text e.2 := by
  induction items with
  | nil => simp [convertsEntries]
  | cons e items ih => simp [convertsEntries, ih]

end

section

variable (keyOk : Key ω → Bool) (text : ω → Option Str)

theorem jsonOkItems_eq (xs : List (Value ω)) : jsonOkItems keyOk xs = xs.all (jsonOk keyOk) := by
  induction xs with
  | nil => simp [jsonOkItems]
  | cons x xs ih => simp [jsonOkItems, ih]

theorem jsonOkEntries_eq (items : List (Key ω × Value ω)) :
    jsonOkEntries keyOk items = items.all fun e => keyOk e.1 && jsonOk keyOk e.2 := by
  induction items with
  | nil => simp [jsonOkEntries]
  | cons e items ih => simp [jsonOkEntries, ih]

theorem rawOkItems_eq (dumped : Bool) (xs : List (Value ω)) :
    rawOkItems keyOk dumped xs = xs.all (rawOk keyOk dumped) := by
  induction xs with
  | nil => simp [rawOkItems]
  | cons x xs ih => simp [rawOkItems, ih]

theorem rawOkEntries_eq (dumped : Bool) (items : List (Key ω × Value ω)) :
    rawOkEntries keyOk dumped items
      = items.all fun e => keyOk e.1 && (sensitive e.1 || rawOk keyOk dumped e.2) := by
  induction items with
  | nil => simp [rawOkEntries]
  | cons e items ih => simp [rawOkEntries, ih]

theorem rawOkFields_eq (dumped : Bool) (fields : List (Str × Value ω)) :
    rawOkFields keyOk dumped fields
      = fields.all fun f => sensitive (.str f.1 : Key ω) || rawOk keyOk dumped f.2 := by
  induction fields with
  | nil => simp [rawOkFields]
  | cons f fields ih => simp [rawOkFields, ih]

theorem objOkItems_eq (xs : List (Value ω)) :
    objOkItems keyOk text xs = xs.all (objOk keyOk text) := by
  induction xs with
  | nil => simp [objOkItems]
  | cons x xs ih => simp [objOkItems, ih]

end

/-! ## What is left of a value -/

theorem all_congr_mem {α : Type} {xs : List α} {p q : α → Bool} (h : ∀ x ∈ xs, p x = q x) :
    xs.all p = xs.all q := by
  rw [Bool.eq_iff_iff, List.all_eq_true, List.all_eq_true]
  exact forall₂_congr fun x hx => by rw [h x hx]

section

variable (w : WordClass) {keyOk : Key ω → Bool}

/-- A redacted entry: a sensitive one is a mask. -/
theorem jsonOk_redactEntry (e : Key ω × Value ω) :
    (keyOk (redactEntry w e).1 && jsonOk keyOk (redactEntry w e).2)
      = (keyOk e.1 && (sensitive e.1 || jsonOk keyOk (redactObj w e.2))) := by
  unfold redactEntry
  cases h : sensitive e.1 with
  | true => simp [jsonOk]
  | false => simp

theorem jsonOk_redact_dict (items : List (Key ω × Value ω)) :
    jsonOk keyOk (redactObj w (.dict items))
      = items.all fun e => keyOk e.1 && (sensitive e.1 || jsonOk keyOk (redactObj w e.2)) := by
  rw [redactObj_dict, jsonOk, jsonOkEntries_eq, List.all_map]
  exact all_congr_mem fun e _ => jsonOk_redactEntry w e

theorem jsonOk_redact_list (xs : List (Value ω)) :
    jsonOk keyOk (redactObj w (.list xs)) = xs.all fun x => jsonOk keyOk (redactObj w x) := by
  rw [redactObj_list, jsonOk, jsonOkItems_eq, List.all_map]
  rfl

theorem jsonOk_redact_tuple (xs : List (Value ω)) :
    jsonOk keyOk (redactObj w (.tuple xs)) = xs.all fun x => jsonOk keyOk (redactObj w x) := by
  rw [redactObj_tuple, jsonOk, jsonOkItems_eq, List.all_map]
  rfl

variable {text : ω → Option Str} {modelDump : List (Str × Value ω) → Value ω}

/-! ### What is converted -/

/-- The items of a converted list are the converted items. -/
theorem toObjItems_some {xs ys : List (Value ω)} (h : toObjItems text modelDump xs = some ys) :
    List.Forall₂ (fun x y => toObj text modelDump x = some y) xs ys := by
  induction xs generalizing ys with
  | nil =>
    cases h
    exact .nil
  | cons x xs ih =>
    obtain ⟨y, hy, hrest⟩ := Option.bind_eq_some_iff.mp h
    obtain ⟨ys, hys, rfl⟩ := Option.map_eq_some_iff.mp hrest
    exact .cons hy (ih hys)

theorem isSome_toObjItems {xs : List (Value ω)}
    (ih : ∀ x ∈ xs, (toObj text modelDump x).isSome = converts text x) :
    (toObjItems text modelDump xs).isSome = convertsItems text xs := by
  induction xs with
  | nil => simp [toObjItems, convertsItems]
  | cons x xs ihxs =>
    obtain ⟨hx, hxs⟩ := List.forall_mem_cons.mp ih
    rw [toObjItems, convertsItems, ← hx, ← ihxs hxs]
    cases toObj text modelDump x <;> simp

theorem isSome_toObjEntries {items : List (Key ω × Value ω)}
    (ih : ∀ e ∈ items, (toObj text modelDump e.2).isSome = converts text e.2) :
    (toObjEntries text modelDump items).isSome = convertsEntries text items := by
  induction items with
  | nil => simp [toObjEntries, convertsEntries]
  | cons e items ihitems =>
    obtain ⟨he, hitems⟩ := List.forall_mem_cons.mp ih
    rw [toObjEntries, convertsEntries, ← he, ← ihitems hitems]
    cases e.1.text? text <;> cases toObj text modelDump e.2 <;> simp

/-- **What is converted** is what can be printed where it has to be. -/
theorem isSome_toObj (v : Value ω) : (toObj text modelDump v).isSome = converts text v := by
  induction v using Value.induct with
  | list xs ih | tuple xs ih | set xs ih =>
    rw [toObj, converts, Option.isSome_map, isSome_toObjItems ih]
  | dict items ih => rw [toObj, converts, Option.isSome_map, isSome_toObjEntries ih]
  | other o => rw [toObj, converts, Option.isSome_map]
  | _ => simp [toObj, converts]

/-- The entries of a converted `dict`, as far as they are not overwritten. -/
theorem allLast_toObjEntries {items : List (Key ω × Value ω)} {entries : List (Str × Value ω)}
    (h : toObjEntries text modelDump items = some entries)
    (ih : ∀ e ∈ items, ∀ y, toObj text modelDump e.2 = some y →
      jsonOk keyOk (redactObj w y) = objOk keyOk text e.2) :
    entries.map (fun e => some e.1) = items.map (fun e => e.1.text? text) ∧
      allLast (fun e => sensitive (.str e.1 : Key ω) || jsonOk keyOk (redactObj w e.2)) entries
        = objOkEntries keyOk text items := by
  induction items generalizing entries with
  | nil =>
    cases h
    exact ⟨rfl, by simp [objOkEntries, allLast]⟩
  | cons e items ihitems =>
    obtain ⟨s, hs, hrest⟩ := Option.bind_eq_some_iff.mp h
    obtain ⟨y, hy, hrest⟩ := Option.bind_eq_some_iff.mp hrest
    obtain ⟨entries, hentries, rfl⟩ := Option.map_eq_some_iff.mp hrest
    obtain ⟨he, hitems⟩ := List.forall_mem_cons.mp ih
    obtain ⟨hkeys, hall⟩ := ihitems hentries hitems
    refine ⟨by rw [List.map_cons, List.map_cons, hkeys, hs], ?_⟩
    -- a text comes again among the keys exactly when it does so among the entries
    have hlater : s ∈ entries.map Prod.fst ↔ some s ∈ items.map fun e => e.1.text? text := by
      rw [← hkeys]
      simp
    rw [allLast, objOkEntries, hall, hs, Option.any_some, he y hy, List.contains_eq_mem]
    congr 2
    exact decide_eq_decide.mpr hlater

/-- The items of a list that are left. -/
theorem jsonOk_toObjItems {xs ys : List (Value ω)} (h : toObjItems text modelDump xs = some ys)
    (ih : ∀ x ∈ xs, ∀ y, toObj text modelDump x = some y →
      jsonOk keyOk (redactObj w y) = objOk keyOk text x) :
    jsonOk keyOk (redactObj w (.list ys)) = objOkItems keyOk text xs := by
  rw [jsonOk_redact_list, objOkItems_eq]
  have hitems := toObjItems_some h
  induction hitems with
  | nil => rfl
  | @cons x y xs ys hy _ ihitems =>
    obtain ⟨hx, hxs⟩ := List.forall_mem_cons.mp ih
    have hrest : toObjItems text modelDump xs = some ys := by
      simpa [toObjItems, hy] using h
    rw [List.all_cons, List.all_cons, hx y hy, ihitems hrest hxs]

variable (hkey : ∀ s, keyOk (.str s) = true)

include hkey

/-- The fields of what is taken apart are the entries of a `dict`. -/
theorem jsonOk_fields {dumped : Bool} {fields : List (Str × Value ω)}
    (ih : ∀ f ∈ fields,
      jsonOk keyOk (redactObj w (takeApart dumped f.2)) = rawOk keyOk dumped f.2) :
    jsonOk keyOk (redactObj w (.dict (takeApartFields dumped fields)))
      = rawOkFields keyOk dumped fields := by
  rw [takeApartFields_eq, jsonOk_redact_dict, rawOkFields_eq, List.all_map]
  refine all_congr_mem fun f hf => ?_
  simp only [Function.comp_apply, hkey, Bool.true_and, ih f hf]

/-- **What is left of the fields of a model or a dataclass.** -/
theorem jsonOk_takeApart (dumped : Bool) (v : Value ω) :
    jsonOk keyOk (redactObj w (takeApart dumped v)) = rawOk keyOk dumped v := by
  induction v using Value.induct with
  | list xs ih =>
    rw [takeApart, takeApartItems_eq, jsonOk_redact_list, rawOk, rawOkItems_eq, List.all_map]
    exact all_congr_mem ih
  | tuple xs ih =>
    rw [takeApart, takeApartItems_eq, jsonOk_redact_tuple, rawOk, rawOkItems_eq, List.all_map]
    exact all_congr_mem ih
  | set xs ih =>
    cases dumped with
    | false => simp [takeApart, redactObj, jsonOk, rawOk]
    | true => simp [takeApart, redactObj, jsonOk, rawOk]
  | dict items ih =>
    rw [takeApart, takeApartEntries_eq, jsonOk_redact_dict, rawOk, rawOkEntries_eq, List.all_map]
    refine all_congr_mem fun e he => ?_
    simp only [Function.comp_apply, ih e he]
  | model fields ih =>
    cases dumped with
    | false => simp [takeApart, redactObj, jsonOk, rawOk]
    | true =>
      rw [takeApart, if_pos rfl, rawOk, Bool.true_and]
      exact jsonOk_fields w hkey ih
  | dataclass fields ih =>
    rw [takeApart, rawOk]
    exact jsonOk_fields w hkey ih
  | _ => simp [takeApart, redactObj, jsonOk, rawOk]

/-- A `dict` with string keys. -/
theorem jsonOk_strDict (d : List (Str × Value ω)) :
    jsonOk keyOk (redactObj w (strDict d))
      = d.all fun e => sensitive (.str e.1 : Key ω) || jsonOk keyOk (redactObj w e.2) := by
  rw [strDict, jsonOk_redact_dict, List.all_map]
  refine all_congr_mem fun e _ => ?_
  simp only [Function.comp_apply, hkey, Bool.true_and]

/-- **What is left of any value.** -/
theorem jsonOk_toObj (hdump : ∀ fields, modelDump fields = toPython (.model fields))
    (v : Value ω) : ∀ y, toObj text modelDump v = some y →
      jsonOk keyOk (redactObj w y) = objOk keyOk text v := by
  induction v using Value.induct with
  | list xs ih | tuple xs ih | set xs ih =>
    intro y h
    rw [toObj, Option.map_eq_some_iff] at h
    obtain ⟨ys, hys, rfl⟩ := h
    rw [objOk]
    exact jsonOk_toObjItems w hys ih
  | dict items ih =>
    intro y h
    rw [toObj, Option.map_eq_some_iff] at h
    obtain ⟨entries, hentries, rfl⟩ := h
    rw [jsonOk_strDict w hkey, all_dictOf, objOk]
    exact (allLast_toObjEntries w hentries ih).2
  | model fields _ =>
    rintro y ⟨⟩
    rw [hdump, objOk]
    exact jsonOk_takeApart w hkey true _
  | dataclass fields _ =>
    rintro y ⟨⟩
    rw [objOk]
    exact jsonOk_takeApart w hkey false _
  | other o =>
    intro y h
    rw [toObj, Option.map_eq_some_iff] at h
    obtain ⟨s, -, rfl⟩ := h
    simp [redactObj, jsonOk, objOk]
  | _ =>
    rintro y ⟨⟩
    simp [redactObj, jsonOk, objOk]

/-! ## The metadata -/

theorem storable_strDict (d : List (Str × Value ω)) :
    storable keyOk (redactObj w (strDict d))
      = d.all fun e => sensitive (.str e.1 : Key ω) || jsonOk keyOk (redactObj w e.2) := by
  rw [← jsonOk_strDict w hkey, strDict, redactObj_dict]
  rfl

/-- An error code changes nothing. -/
theorem storable_setDefault (d : List (Str × Value ω)) (code : Str) :
    storable keyOk (redactObj w (strDict (setDefault "error_code".toList (.str code) d)))
      = storable keyOk (redactObj w (strDict d)) := by
  rw [storable_strDict w hkey, storable_strDict w hkey, setDefault]
  split
  · rfl
  · simp [jsonOk]

/-- The entries of the metadata before they are redacted. -/
theorem normalizeMeta_some (hdump : ∀ fields, modelDump fields = toPython (.model fields))
    {v : Value ω} {m : Option (List (Str × Value ω))} (h : normalizeMeta text modelDump v = some m) :
    ((m.getD []).all fun e => sensitive (.str e.1 : Key ω) || jsonOk keyOk (redactObj w e.2))
      = objOk keyOk text v := by
  have hvalue : ∀ v, (toObj text modelDump v).map (fun y => some [("value".toList, y)]) = some m →
      ((m.getD []).all fun e => sensitive (.str e.1 : Key ω) || jsonOk keyOk (redactObj w e.2))
        = objOk keyOk text v := by
    intro v hv
    obtain ⟨y, hy, rfl⟩ := Option.map_eq_some_iff.mp hv
    have hvisible : sensitive (.str "value".toList : Key ω) = false := by
      show sensitiveKeys.contains (lower "value".toList) = false
      decide
    rw [Option.getD_some, List.all_cons, List.all_nil, Bool.and_true, hvisible, Bool.false_or]
    exact jsonOk_toObj w hkey hdump v y hy
  cases v with
  | none =>
    cases h
    rfl
  | dict items =>
    obtain ⟨entries, hentries, rfl⟩ := Option.map_eq_some_iff.mp h
    rw [Option.getD_some, all_dictOf, objOk]
    exact (allLast_toObjEntries w hentries fun e _ => jsonOk_toObj w hkey hdump e.2).2
  | _ => exact hvalue _ h

omit hkey in
theorem isSome_normalizeMeta (v : Value ω) :
    (normalizeMeta text modelDump v).isSome = converts text v := by
  cases v with
  | none => rfl
  | dict items =>
    have hdict : (toObj text modelDump (.dict items)).isSome = converts text (.dict items) :=
      isSome_toObj _
    rw [normalizeMeta, Option.isSome_map, ← hdict, toObj, Option.isSome_map]
  | _ => simp only [normalizeMeta, Option.isSome_map, isSome_toObj]

/-- What can be stored is what is converted, and accepted then. -/
theorem any_storable_stdMeta (hdump : ∀ fields, modelDump fields = toPython (.model fields))
    (v : Value ω) (errorCode : Option Str) :
    (stdMeta w text modelDump v errorCode).any (storable keyOk)
      = (converts text v && objOk keyOk text v) := by
  have hsome : (normalizeMeta text modelDump v).isSome = converts text v := isSome_normalizeMeta v
  rw [stdMeta, ← hsome]
  cases hm : normalizeMeta text modelDump v with
  | none => rfl
  | some m =>
    rw [Option.map_some, Option.any_some, Option.isSome_some, Bool.true_and,
      ← normalizeMeta_some w hkey hdump hm]
    cases errorCode with
    | none =>
      cases m with
      | none => rfl
      | some d => exact storable_strDict w hkey d
    | some code => exact (storable_setDefault w hkey _ code).trans (storable_strDict w hkey _)

end

/--
**The metadata that can be stored**: what has to be printed can be, and outside of sensitive
entries, and of entries that others overwrite, no integer has too many digits, no field of a model
or of a dataclass holds an unknown object, a set or a key that is not accepted, and none of a
dataclass a model.
-/
theorem stdMeta_storable_iff (w : WordClass) (text : ω → Option Str)
    (modelDump : List (Str × Value ω) → Value ω)
    (hdump : ∀ fields, modelDump fields = toPython (.model fields)) (v : Value ω)
    (errorCode : Option Str) :
    ((∃ m, stdMeta w text modelDump v errorCode = some m ∧ storable stringKey m = true) ↔
        converts text v = true ∧ objOk stringKey text v = true) ∧
      ((∃ m, stdMeta w text modelDump v errorCode = some m ∧ storable jsonKey m = true) ↔
        converts text v = true ∧ objOk jsonKey text v = true) := by
  have hiff : ∀ {keyOk : Key ω → Bool}, (∀ s, keyOk (.str s) = true) →
      ((∃ m, stdMeta w text modelDump v errorCode = some m ∧ storable keyOk m = true) ↔
        converts text v = true ∧ objOk keyOk text v = true) := by
    intro keyOk hkey
    rw [← Bool.and_eq_true, ← any_storable_stdMeta w hkey hdump v errorCode, Option.any_eq_true]
  exact ⟨hiff fun _ => rfl, hiff fun _ => rfl⟩

/-! ## A model with a date -/

/-- `{"job": Job(queued_at=..)}` -/
def dated : Value Unit :=
  .dict [(.str "job".toList, .model [("queued_at".toList, .other ())])]

def printDate (_ : Unit) : Option Str := some "2024-05-01 12:00:00".toList

theorem stdMeta_storable_iff_dated :
    ((∃ m, stdMeta asciiWords printDate (fun f => toPython (.model f)) dated none = some m ∧
        storable stringKey m = true) ↔
      converts printDate dated = true ∧ objOk stringKey printDate dated = true) ∧
    ((∃ m, stdMeta asciiWords printDate (fun f => toPython (.model f)) dated none = some m ∧
        storable jsonKey m = true) ↔
      converts printDate dated = true ∧ objOk jsonKey printDate dated = true) :=
  stdMeta_storable_iff asciiWords printDate (fun f => toPython (.model f)) (fun _ => rfl) dated none

/-- A date in the field of a model is left as it is, and `json.dumps` refuses it. -/
theorem dated_not_storable :
    ¬∀ (v : Value Unit) (errorCode : Option Str), ∃ m,
      stdMeta asciiWords printDate (fun f => toPython (.model f)) v errorCode = some m ∧
        storable jsonKey m = true := by
  intro h
  have hdated := (Option.any_eq_true _ _).mpr (h dated none)
  rw [any_storable_stdMeta asciiWords (fun _ => rfl) fun _ => rfl] at hdated
  exact absurd hdated (by decide)

end EnterpriseAssistant.Audit
