import EnterpriseAssistant.Core.LoggingSetup

/-!
# The size of a log value

How deep `_to_jsonable` nests, and how long the strings are that it makes.

Every string goes through `_safe_str` but four: the mark of the maximal depth, a date, the class
name of an exception, and the text of bytes that are UTF-8.

* `nesting_toJsonable` — no value is nested deeper than there are levels
* `everywhere_toJsonable` — its strings are bounded when those of the emitted objects are
* `logBounded_iff` — when a log value is bounded
-/

namespace EnterpriseAssistant.Core

open Py

variable {ω : Type} (x : Objects ω)

/-- `_MAX_STR_LEN` and the mark. -/
def maxLogLen : Nat := maxStrLen + truncatedMark.length

def boundedKey : Key ω → Bool
  | .str s => s.length ≤ maxLogLen
  | _ => true

/-- A string is short, and so are the keys of a `dict`. -/
def boundedNode : Value ω → Bool
  | .str s => s.length ≤ maxLogLen
  | .dict items => items.all fun e => boundedKey e.1
  | _ => true

/-- The objects that `_to_jsonable` comes to while that many levels are left. -/
def emittedObjects : Nat → Value ω → List ω
  | 0, _ => []
  | n + 1, .model fields =>
    if jsonable x n (x.modelDump fields) then emittedObjects n (x.modelDump fields) else []
  | n + 1, .dataclass fields =>
    if jsonable x n (asdict (.dataclass fields)) then emittedObjects n (asdict (.dataclass fields))
    else []
  | n + 1, .dict items => (emittedEntries x items).flatMap fun e => emittedObjects n e.2
  | n + 1, .list xs | n + 1, .tuple xs | n + 1, .set xs => xs.flatMap (emittedObjects n)
  | _ + 1, .other o => [o]
  | _ + 1, _ => []

/-- What an object is emitted as has no long string. -/
def boundedKind : ObjectKind → Bool
  | .bytes (some s) _ => s.length ≤ maxLogLen
  | .exception className => className.length ≤ maxLogLen
  | .bytes none _ | .date _ | .unknown => true

def ObjectKind.unnamed : ObjectKind → ObjectKind
  | .exception _ => .exception []
  | k => k

/-- The class names of exceptions are left out. -/
def Objects.unnamed : Objects ω := { x with kind := fun o => (x.kind o).unnamed }

/-- The log value is bounded, the class names of exceptions apart. -/
structure LogBounded (v : Value ω) : Prop where
  nesting : (toJsonable x (maxJsonDepth + 1) v).nesting ≤ maxJsonDepth + 1
  strings : (toJsonable x.unnamed (maxJsonDepth + 1) v).everywhere boundedNode = true

/-! ## Strings that are cut -/

theorem length_safeStr (s : Str) : (safeStr s).length ≤ maxLogLen := by
  unfold safeStr maxLogLen
  split
  · rw [List.length_append, List.length_take]
    omega
  · omega

theorem boundedNode_safeStr (s : Str) : boundedNode (.str (safeStr s) : Value ω) = true := by
  simp [boundedNode, length_safeStr]

theorem boundedKey_safeStr (s : Str) : boundedKey (.str (safeStr s) : Key ω) = true := by
  simp [boundedKey, length_safeStr]

/-! ## Levels -/

section

variable {x}

/-- The keys of the entries that are left. -/
theorem key_emittedEntries {items : List (Key ω × Value ω)} {e : Str × Value ω}
    (he : e ∈ emittedEntries x items) : ∃ s, e.1 = safeStr s := by
  obtain ⟨a, b, hl, -⟩ := mem_dictOf_iff.mp he
  have hmem : e ∈ items.map fun e => (safeStr (e.1.text x.print), e.2) := by
    rw [hl]
    exact List.mem_append_right a List.mem_cons_self
  obtain ⟨e', -, rfl⟩ := List.mem_map.mp hmem
  exact ⟨_, rfl⟩

/-- **No value is nested deeper than there are levels.** -/
theorem nesting_toJsonable (n : Nat) (v : Value ω) : (toJsonable x n v).nesting ≤ n := by
  induction n generalizing v with
  | zero => exact Nat.le_refl 0
  | succ n ih =>
    have hitems : ∀ xs : List (Value ω),
        (Value.list (xs.map (toJsonable x n))).nesting ≤ n + 1 := by
      intro xs
      rw [Value.nesting_list_le_iff]
      intro y hy
      obtain ⟨v, -, rfl⟩ := List.mem_map.mp hy
      exact ih v
    cases v with
    | list xs => exact hitems xs
    | tuple xs => exact hitems xs
    | set xs => exact hitems xs
    | model fields | dataclass fields =>
      simp only [toJsonable]
      split
      · exact Nat.le_succ_of_le (ih _)
      · exact Nat.zero_le _
    | dict items =>
      rw [toJsonable_dict, strDict, Value.nesting_dict_le_iff]
      intro e he
      obtain ⟨e', he', rfl⟩ := List.mem_map.mp he
      obtain ⟨e'', -, rfl⟩ := List.mem_map.mp he'
      exact ih e''.2
    | other o =>
      simp only [toJsonable]
      split
      · exact Nat.zero_le _
      · exact Nat.zero_le _
      · rw [strDict, Value.nesting_dict_le_iff]
        simp [Value.nesting]
      · exact Nat.zero_le _
    | _ => exact Nat.zero_le _

/-! ## Strings -/

variable (hdate : ∀ o isoformat, x.kind o = .date isoformat → isoformat.length ≤ 42)

include hdate

theorem everywhere_object (n : Nat) (o : ω) :
    (toJsonable x (n + 1) (.other o)).everywhere boundedNode = boundedKind (x.kind o) := by
  simp only [toJsonable]
  cases hk : x.kind o with
  | bytes decoded repr =>
    cases decoded with
    | none =>
      show boundedNode (.str (safeStr repr) : Value ω) = true
      exact boundedNode_safeStr repr
    | some s => rfl
  | date isoformat =>
    have hlen : isoformat.length ≤ maxLogLen := (hdate o isoformat hk).trans (by decide)
    simp [Value.everywhere, boundedNode, boundedKind, hlen]
  | exception name =>
    have hshort : boundedNode (.str (safeStr (x.print o)) : Value ω) = true := boundedNode_safeStr _
    -- neither key is long enough to be cut
    have htype : boundedKey (.str "type".toList : Key ω) = true := boundedKey_safeStr "type".toList
    have hmessage : boundedKey (.str "message".toList : Key ω) = true :=
      boundedKey_safeStr "message".toList
    show (strDict [("type".toList, .str name),
      ("message".toList, .str (safeStr (x.print o)))] : Value ω).everywhere _ = _
    rw [strDict, List.map_cons, List.map_singleton, Value.everywhere_dict, boundedNode,
      List.all_cons, List.all_cons, List.all_nil, htype, hmessage]
    simp [hshort]
    rfl
  | unknown =>
    show boundedNode (.str (safeStr (x.print o)) : Value ω) = true
    exact boundedNode_safeStr _

/-- **The strings of a log value** are bounded when those of the emitted objects are. -/
theorem everywhere_toJsonable (n : Nat) (v : Value ω) :
    (toJsonable x n v).everywhere boundedNode
      = (emittedObjects x n v).all fun o => boundedKind (x.kind o) := by
  induction n generalizing v with
  | zero =>
    show boundedNode (.str (safeStr "...(max_depth)".toList) : Value ω) = true
    exact boundedNode_safeStr _
  | succ n ih =>
    have hitems : ∀ xs : List (Value ω),
        (Value.list (xs.map (toJsonable x n))).everywhere boundedNode
          = (xs.flatMap (emittedObjects x n)).all fun o => boundedKind (x.kind o) := by
      intro xs
      rw [Value.everywhere_list, List.all_map, List.all_flatMap]
      simp only [boundedNode, Bool.true_and, Function.comp_def, ih]
    cases v with
    | list xs => exact hitems xs
    | tuple xs => exact hitems xs
    | set xs => exact hitems xs
    | model fields | dataclass fields =>
      simp only [toJsonable, emittedObjects]
      split
      · exact ih _
      · show boundedNode (.str (safeStr _) : Value ω) = true
        exact boundedNode_safeStr _
    | dict items =>
      have hkeys : ((emittedEntries x items).all fun e => boundedKey (.str e.1 : Key ω)) = true := by
        rw [List.all_eq_true]
        intro e he
        obtain ⟨s, hs⟩ := key_emittedEntries he
        rw [hs]
        exact boundedKey_safeStr s
      rw [toJsonable_dict, strDict, List.map_map, Value.everywhere_dict, List.all_map, boundedNode,
        List.all_map]
      simp only [Function.comp_def, hkeys, Bool.true_and, ih, emittedObjects, List.all_flatMap]
    | other o =>
      rw [everywhere_object hdate]
      simp [emittedObjects]
    | str s =>
      show boundedNode (.str (safeStr s) : Value ω) = true
      exact boundedNode_safeStr s
    | _ => simp [toJsonable, emittedObjects, Value.everywhere, boundedNode]

end

/-- The class names make no difference to what can be converted. -/
theorem jsonable_unnamed (n : Nat) (v : Value ω) : jsonable x.unnamed n v = jsonable x n v := by
  induction n generalizing v with
  | zero => rfl
  | succ n ih =>
    have hsame : jsonable x.unnamed n = jsonable x n := funext ih
    cases v with
    | other o => cases hk : x.kind o <;> simp [jsonable, Objects.unnamed, hk, ObjectKind.unnamed]
    | list xs | tuple xs | set xs => simp only [jsonable, hsame]
    | model fields | dataclass fields | dict items =>
      simp only [jsonable, hsame]
      rfl
    | _ => rfl

/-- The class names make no difference to what is emitted. -/
theorem emittedObjects_unnamed (n : Nat) (v : Value ω) :
    emittedObjects x.unnamed n v = emittedObjects x n v := by
  induction n generalizing v with
  | zero => rfl
  | succ n ih =>
    have hsame : emittedObjects x.unnamed n = emittedObjects x n := funext ih
    have hjson : jsonable x.unnamed n = jsonable x n := funext (jsonable_unnamed x n)
    cases v with
    | dict items =>
      simp only [emittedObjects, hsame]
      rfl
    | model fields =>
      simp only [emittedObjects, hsame, hjson]
      rfl
    | _ => simp only [emittedObjects, hsame, hjson]

/-- **When a log value is bounded**: every emitted object whose bytes are UTF-8 has a short text. -/
theorem logBounded_iff
    (hdate : ∀ o isoformat, x.kind o = .date isoformat → isoformat.length ≤ 42) (v : Value ω) :
    LogBounded x v ↔ ∀ o ∈ emittedObjects x (maxJsonDepth + 1) v, ∀ s repr,
      x.kind o = .bytes (some s) repr → s.length ≤ maxLogLen := by
  have hdate' : ∀ o isoformat, x.unnamed.kind o = .date isoformat → isoformat.length ≤ 42 := by
    intro o isoformat h
    refine hdate o isoformat ?_
    cases hk : x.kind o with
    | date text => simpa [Objects.unnamed, hk, ObjectKind.unnamed] using h
    | _ => simp [Objects.unnamed, hk, ObjectKind.unnamed] at h
  have hbounded : LogBounded x v ↔ ∀ o ∈ emittedObjects x (maxJsonDepth + 1) v,
      boundedKind (x.unnamed.kind o) = true := by
    rw [← emittedObjects_unnamed, ← List.all_eq_true, ← everywhere_toJsonable hdate']
    exact ⟨fun h => h.strings, fun h => ⟨nesting_toJsonable _ v, h⟩⟩
  rw [hbounded]
  refine forall₂_congr fun o _ => ?_
  cases hk : x.kind o with
  | bytes decoded repr =>
    cases decoded with
    | none => simp [Objects.unnamed, hk, ObjectKind.unnamed, boundedKind]
    | some s => simp [Objects.unnamed, hk, ObjectKind.unnamed, boundedKind]
  | _ => simp [Objects.unnamed, hk, ObjectKind.unnamed, boundedKind]

/-! ## A long body -/

/-- The only object is a body of that many bytes. -/
def bodyOf (n : Nat) : Objects Unit where
  text _ := some []
  kind _ := .bytes (some (List.replicate n 'a')) []
  modelDump fields := toPython (.model fields)
  instanceText _ := some []

theorem logBounded_iff_bodyOf :
    LogBounded (bodyOf 3) (.list [.other ()]) ↔
      ∀ o ∈ emittedObjects (bodyOf 3) (maxJsonDepth + 1) (.list [.other ()]), ∀ s repr,
        (bodyOf 3).kind o = .bytes (some s) repr → s.length ≤ maxLogLen :=
  logBounded_iff (bodyOf 3) (fun _ _ h => ObjectKind.noConfusion h) (.list [.other ()])

/-- The text of bytes is not cut. -/
theorem le_of_logBounded_bodyOf {n : Nat} (h : LogBounded (bodyOf n) (.other ())) :
    n ≤ maxLogLen := by
  have hstrings : boundedNode (.str (List.replicate n 'a') : Value Unit) = true := h.strings
  rwa [boundedNode, decide_eq_true_iff, List.length_replicate] at hstrings

theorem bodyOf_not_bounded : ¬∀ v : Value Unit, LogBounded (bodyOf 8207) v := by
  intro h
  exact absurd (le_of_logBounded_bodyOf (h (.other ()))) (by decide)

end EnterpriseAssistant.Core
