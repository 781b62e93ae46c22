import EnterpriseAssistant.Lib.PyValue
import EnterpriseAssistant.Core.Redaction

/-!
# Redaction of values

`redact_obj` of `app/core/redaction.py`.

* `head_redactObj` — what becomes of a place that is under no sensitive key
* `redactObj_hidden` — a sensitive entry is a mask, and nothing is below it
* `redactObj_complete` — both, and that redacting again does nothing
* `tokenFree_redactObj` — no token is recognised anywhere in the result
-/

namespace EnterpriseAssistant.Core

open Py Regex

variable {ω : Type} (w : WordClass)

/-- `SENSITIVE_KEYS` -/
def sensitiveKeys : List Str :=
  ["password".toList, "passwd".toList, "secret".toList, "jwt".toList, "token".toList,
    "access_token".toList, "refresh_token".toList, "authorization".toList]

/-- Only a key that is a string can be sensitive. -/
def sensitive : Key ω → Bool
  | .str k => sensitiveKeys.contains (lower k)
  | _ => false

def mask : Str := "***".toList

mutual

/-- `redact_obj`; the keys of a `dict` are distinct, so that `out` gets its entries one by one. -/
def redactObj : Value ω → Value ω
  | .str s => .str (redactStr w s)
  | .list xs => .list (redactItems xs)
  | .tuple xs => .tuple (redactItems xs)
  | .dict items => .dict (redactEntries items)
  -- scalars, and everything of an unknown type
  | v => v

def redactItems : List (Value ω) → List (Value ω)
  | [] => []
  | x :: xs => redactObj x :: redactItems xs

def redactEntries : List (Key ω × Value ω) → List (Key ω × Value ω)
  | [] => []
  | (k, v) :: items =>
    (k, if sensitive k then .str mask else redactObj v) :: redactEntries items

end

/-- What `redact_obj` does to an entry of a `dict`. -/
def redactEntry (e : Key ω × Value ω) : Key ω × Value ω :=
  (e.1, if sensitive e.1 then .str mask else redactObj w e.2)

-- the equations are made here, once, and not by whichever lemma is the first to need them
attribute [local grind =] sensitive redactObj redactItems redactEntries redactEntry

theorem redactItems_eq (xs : List (Value ω)) : redactItems w xs = xs.map (redactObj w) := by
  induction xs with
  | nil => simp [redactItems]
  | cons x xs ih => simp [redactItems, ih]

theorem redactEntries_eq (items : List (Key ω × Value ω)) :
    redactEntries w items = items.map (redactEntry w) := by
  induction items with
  | nil => simp [redactEntries]
  | cons e items ih => simp [redactEntries, redactEntry, ih]

@[simp] theorem redactObj_str (s : Str) :
    redactObj w (.str s : Value ω) = .str (redactStr w s) := by
  simp [redactObj]

@[simp] theorem redactObj_list (xs : List (Value ω)) :
    redactObj w (.list xs) = .list (xs.map (redactObj w)) := by
  simp [redactObj, redactItems_eq]

@[simp] theorem redactObj_tuple (xs : List (Value ω)) :
    redactObj w (.tuple xs) = .tuple (xs.map (redactObj w)) := by
  simp [redactObj, redactItems_eq]

@[simp] theorem redactObj_dict (items : List (Key ω × Value ω)) :
    redactObj w (.dict items) = .dict (items.map (redactEntry w)) := by
  simp [redactObj, redactEntries_eq]

/-! ## Places -/

/-- The `i`-th entry of a `dict` has a sensitive key. -/
def sensitiveAt : Value ω → Nat → Bool
  | .dict items, i => items[i]?.any fun e => sensitive e.1
  | _, _ => false

/-- The path goes through a sensitive entry. -/
def Hidden : Value ω → List Nat → Prop
  | _, [] => False
  | v, i :: path => sensitiveAt v i = true ∨ ∃ x, v.child i = some x ∧ Hidden x path

/-- Of what stands at a place, only a string is changed. -/
def redactHead : Value.Head ω → Value.Head ω
  | .str s => .str (redactStr w s)
  | h => h

attribute [local grind =] sensitiveAt Hidden redactHead

theorem head_redact (v : Value ω) : (redactObj w v).head = redactHead w v.head := by
  cases v with
  | dict items => simp [Value.head, redactHead, redactEntry, Function.comp_def]
  | str s => simp [Value.head, redactHead]
  | list xs => simp [Value.head, redactHead]
  | tuple xs => simp [Value.head, redactHead]
  | _ => simp [redactObj, Value.head, redactHead]

/-- What stands behind a step. -/
theorem child_redact (v : Value ω) (i : Nat) :
    (redactObj w v).child i
      = (v.child i).map fun x => if sensitiveAt v i then .str mask else redactObj w x := by
  cases v with
  | dict items =>
    cases h : items[i]? with
    | none => simp [Value.child, h]
    | some e => simp [Value.child, sensitiveAt, redactEntry, h]
  | list xs => simp [Value.child, sensitiveAt]
  | tuple xs => simp [Value.child, sensitiveAt]
  | str s => simp [Value.child]
  | _ => simp [redactObj, Value.child]

/-- What stands at a place that is not hidden is redacted there. -/
theorem at?_redact {v : Value ω} {path : List Nat} (h : ¬Hidden v path) :
    (redactObj w v).at? path = (v.at? path).map (redactObj w) := by
  induction path generalizing v with
  | nil => rfl
  | cons i path ih =>
    obtain ⟨hopen, hbelow⟩ := not_or.mp h
    rw [Value.at?_cons, Value.at?_cons, child_redact]
    cases hchild : v.child i with
    | none => rfl
    | some x =>
      simp only [Option.map_some, Option.bind_some]
      rw [if_neg hopen]
      exact ih fun hx => hbelow ⟨x, hchild, hx⟩

/-- **A place that is under no sensitive key** keeps what stands there, but a string is redacted. -/
theorem head_redactObj {v : Value ω} {path : List Nat} (h : ¬Hidden v path) :
    ((redactObj w v).at? path).map Value.head = (v.at? path).map fun x => redactHead w x.head := by
  rw [at?_redact w h, Option.map_map]
  exact congrArg (fun f => (v.at? path).map f) (funext (head_redact w))

/-- **The value of a sensitive entry is a mask**, with nothing in it. -/
theorem redactObj_hidden {v x : Value ω} {path : List Nat} {i : Nat} (h : ¬Hidden v path)
    (hx : v.at? path = some x) (hi : sensitiveAt x i = true) :
    (redactObj w v).at? (path ++ [i]) = some (.str mask) ∧
      ∀ j rest, (redactObj w v).at? (path ++ i :: j :: rest) = none := by
  have hentry : (redactObj w x).child i = some (.str mask) := by
    rw [child_redact]
    simp only [hi, if_true]
    cases x with
    | dict items =>
      simp only [sensitiveAt, Option.any_eq_true] at hi
      obtain ⟨e, he, -⟩ := hi
      simp [Value.child, he]
    | _ => cases hi
  constructor
  · rw [Value.at?_append, at?_redact w h, hx, Option.map_some, Option.bind_some, Value.at?_cons,
      hentry]
    rfl
  · intro j rest
    rw [Value.at?_append, at?_redact w h, hx, Option.map_some, Option.bind_some, Value.at?_cons,
      hentry]
    rfl

/-! ## Redacting twice -/

theorem redactObj_redactObj (v : Value ω) : redactObj w (redactObj w v) = redactObj w v := by
  induction v using Value.induct with
  | str s => rw [redactObj_str, redactObj_str, redactStr_redactStr]
  | list xs ih =>
    rw [redactObj_list, redactObj_list, List.map_map]
    exact congrArg Value.list (List.map_congr_left ih)
  | tuple xs ih =>
    rw [redactObj_tuple, redactObj_tuple, List.map_map]
    exact congrArg Value.tuple (List.map_congr_left ih)
  | dict items ih =>
    rw [redactObj_dict, redactObj_dict, List.map_map]
    refine congrArg Value.dict (List.map_congr_left fun e he => ?_)
    simp only [Function.comp_apply, redactEntry]
    split
    · rfl
    · rw [ih e he]
  | _ => simp [redactObj]

/--
**Deep redaction is complete and changes nothing else.**  Of a place that is under no sensitive key,
the container with its length or its keys is kept, a string is redacted, and any other leaf is
unchanged; a sensitive entry is a mask and nothing of it survives; redacting again does nothing.
-/
theorem redactObj_complete (v : Value ω) :
    (∀ path, ¬Hidden v path →
      ((redactObj w v).at? path).map Value.head = (v.at? path).map fun x => redactHead w x.head) ∧
    (∀ path x i, ¬Hidden v path → v.at? path = some x → sensitiveAt x i = true →
      (redactObj w v).at? (path ++ [i]) = some (.str mask) ∧
        ∀ j rest, (redactObj w v).at? (path ++ i :: j :: rest) = none) ∧
    redactObj w (redactObj w v) = redactObj w v :=
  ⟨fun _ h => head_redactObj w h, fun _ _ _ h hx hi => redactObj_hidden w h hx hi,
    redactObj_redactObj w v⟩

/-! ## What is left to be found -/

/-- Neither pattern is found. -/
def Clean (s : Str) : Prop :=
  search w.isWord reBearer none s = none ∧ search w.isWord reJwt none s = none

theorem clean_redactStr (s : Str) : Clean w (redactStr w s) :=
  ⟨search_eq_none_iff.mpr (reaches_redactStr w s).2.1,
    search_eq_none_iff.mpr (reaches_redactStr w s).2.2⟩

theorem clean_mask : Clean w mask := by
  have hstar : ∀ c ∈ mask, (c != '*') = false := by simp [mask]
  constructor
  · refine search_eq_none_iff.mpr (noMatch_of_notMem ?_ hstar _)
    intro p m next hm
    obtain ⟨b, t, rfl, rfl | rfl, -⟩ := accepts_bearer_head hm
    · exact ⟨'b', List.mem_cons_self, by decide⟩
    · exact ⟨'B', List.mem_cons_self, by decide⟩
  · refine search_eq_none_iff.mpr (noMatch_of_notMem ?_ hstar _)
    intro p m next hm
    obtain ⟨t, rfl, -⟩ := accepts_jwt_head hm
    exact ⟨'e', List.mem_cons_self, by decide⟩

/-- No string that can be reached has a token in it, and sensitive entries are masks. -/
structure TokenFree (v : Value ω) : Prop where
  strings : ∀ path s, v.at? path = some (.str s) → Clean w s
  masked : ∀ path items, v.at? path = some (.dict items) →
    ∀ e ∈ items, sensitive e.1 = true → e.2 = .str mask

theorem tokenFree_mask : TokenFree w (.str mask : Value ω) where
  strings path s h := by
    cases path with
    | nil =>
      obtain rfl : mask = s := by simpa using h
      exact clean_mask w
    | cons i path => cases h
  masked path items h := by
    cases path with
    | nil => cases h
    | cons i path => cases h

theorem redactObj_eq_str {v : Value ω} {s : Str} (h : redactObj w v = .str s) :
    ∃ t, s = redactStr w t := by
  cases v with
  | str t =>
    rw [redactObj_str, Value.str.injEq] at h
    exact ⟨t, h.symm⟩
  | list xs => simp at h
  | tuple xs => simp at h
  | dict items => simp at h
  | _ => simp [redactObj] at h

theorem redactObj_eq_dict {v : Value ω} {items : List (Key ω × Value ω)}
    (h : redactObj w v = .dict items) :
    ∃ items' : List (Key ω × Value ω), items = items'.map (redactEntry w) := by
  cases v with
  | dict items' =>
    rw [redactObj_dict, Value.dict.injEq] at h
    exact ⟨items', h.symm⟩
  | str t => simp at h
  | list xs => simp at h
  | tuple xs => simp at h
  | _ => simp [redactObj] at h

/-- Behind a step there is a mask, or what is redacted itself. -/
theorem child_redact_cases {v x : Value ω} {i : Nat} (h : (redactObj w v).child i = some x) :
    x = .str mask ∨ ∃ y, v.child i = some y ∧ x = redactObj w y := by
  rw [child_redact, Option.map_eq_some_iff] at h
  obtain ⟨y, hy, rfl⟩ := h
  split
  · exact Or.inl rfl
  · exact Or.inr ⟨y, hy, rfl⟩

/-- **No token is recognised anywhere in what `redact_obj` returns.** -/
theorem tokenFree_redactObj (v : Value ω) : TokenFree w (redactObj w v) where
  strings path s h := by
    induction path generalizing v with
    | nil =>
      obtain ⟨t, rfl⟩ := redactObj_eq_str w (Option.some.inj h)
      exact clean_redactStr w t
    | cons i path ih =>
      rw [Value.at?_cons, Option.bind_eq_some_iff] at h
      obtain ⟨x, hx, hbelow⟩ := h
      obtain rfl | ⟨y, -, rfl⟩ := child_redact_cases w hx
      · exact (tokenFree_mask w).strings path s hbelow
      · exact ih y hbelow
  masked path items h := by
    induction path generalizing v with
    | nil =>
      obtain ⟨items', rfl⟩ := redactObj_eq_dict w (Option.some.inj h)
      intro e he hsens
      obtain ⟨e', -, rfl⟩ := List.mem_map.mp he
      exact if_pos hsens
    | cons i path ih =>
      rw [Value.at?_cons, Option.bind_eq_some_iff] at h
      obtain ⟨x, hx, hbelow⟩ := h
      obtain rfl | ⟨y, -, rfl⟩ := child_redact_cases w hx
      · exact (tokenFree_mask w).masked path items hbelow
      · exact ih y hbelow

end EnterpriseAssistant.Core
