import Mathlib.Data.List.Basic
import EnterpriseAssistant.Lib.PyValue

/-!
# Objects that several places share

A loop that builds its result from what it visits, and updates objects by their name while it does:
whoever holds the name sees all updates, also those that come later.

* `loop_eq` — a loop whose results do not depend on the objects
* `lookup_updateAll` — an object at the end is the object with all updates of its name
* `foldl_act` — updates that add up leave what their sum leaves
* `lookup_assign`, `lookup_map` — looking up in what was built
* `lookup_setAll` — entries that are set where there is none
-/

namespace SharedObjects

open Py

/-! ## Loops -/

section Loops

variable {α β σ : Type}

/-- A result for each item, in turn. -/
def loop (f : α → σ → β × σ) : List α → σ → List β × σ
  | [], s => ([], s)
  | a :: as, s =>
    let r := f a s
    let rs := loop f as r.2
    (r.1 :: rs.1, rs.2)

/-- Where the results do not depend on the state, they are those of a `map`. -/
theorem loop_eq {f : α → σ → β × σ} {g : α → β} {h : σ → α → σ}
    (hf : ∀ a s, f a s = (g a, h s a)) (as : List α) (s : σ) :
    loop f as s = (as.map g, as.foldl h s) := by
  induction as generalizing s with
  | nil => rfl
  | cons a as ih => simp only [loop, hf, ih, List.map_cons, List.foldl_cons]

end Loops

/-! ## Updates -/

section Updates

variable {κ α ι : Type} [DecidableEq κ]

/-- The object of this name is changed in place. -/
def update (k : κ) (f : α → α) (st : List (κ × α)) : List (κ × α) :=
  st.map fun e => if e.1 = k then (e.1, f e.2) else e

/-- Updates, in turn; each is for the object of a name. -/
def updateAll (act : ι → α → α) (ops : List (κ × ι)) (st : List (κ × α)) : List (κ × α) :=
  ops.foldl (fun st op => update op.1 (act op.2) st) st

theorem updateAll_append (act : ι → α → α) (ops ops' : List (κ × ι)) (st : List (κ × α)) :
    updateAll act (ops ++ ops') st = updateAll act ops' (updateAll act ops st) :=
  List.foldl_append

/-- The updates of a loop, one round after the other. -/
theorem foldl_updateAll {γ : Type} (act : ι → α → α) (ops : γ → List (κ × ι)) (as : List γ)
    (st : List (κ × α)) :
    as.foldl (fun st a => updateAll act (ops a) st) st = updateAll act (as.flatMap ops) st := by
  induction as generalizing st with
  | nil => rfl
  | cons a as ih => rw [List.foldl_cons, ih, List.flatMap_cons, updateAll_append]

/-- The updates of a name. -/
def updatesOf (k : κ) (ops : List (κ × ι)) : List ι :=
  ops.filterMap fun op => if op.1 = k then some op.2 else none

theorem mem_updatesOf {k : κ} {ops : List (κ × ι)} {i : ι} :
    i ∈ updatesOf k ops ↔ (k, i) ∈ ops := by
  simp only [updatesOf, List.mem_filterMap, Option.ite_none_right_eq_some, Option.some.injEq]
  constructor
  · rintro ⟨op, hop, rfl, rfl⟩
    exact hop
  · intro h
    exact ⟨(k, i), h, rfl, rfl⟩

/-- Updates that add up leave what their sum leaves. -/
theorem foldl_act {act : ι → α → α} {join : ι → ι → ι}
    (hact : ∀ i j v, act i (act j v) = act (join j i) v) (i : ι) (is : List ι) (v : α) :
    (i :: is).foldl (fun v i => act i v) v = act (is.foldl join i) v := by
  induction is generalizing i with
  | nil => rfl
  | cons j is ih =>
    rw [List.foldl_cons, List.foldl_cons, hact]
    exact ih (join i j)

theorem foldl_or_eq_true_iff (b : Bool) (bs : List Bool) :
    bs.foldl (fun b b' => b || b') b = true ↔ true ∈ b :: bs := by
  induction bs generalizing b with
  | nil => simp [eq_comm]
  | cons b' bs ih =>
    rw [List.foldl_cons, ih]
    cases b with
    | true => simp
    | false => simp

end Updates

/-! ## Setting what is not there -/

section Defaults

variable {κ β : Type} [DecidableEq κ]

/-- The second assignment is the one that stays. -/
theorem assign_assign (k : κ) (v w : β) (d : List (κ × β)) :
    assign k v (assign k w d) = assign k v d := by
  induction d with
  | nil => simp [assign]
  | cons e d ih =>
    obtain ⟨x, u⟩ := e
    by_cases hx : x = k
    · simp [assign, hx]
    · simp [assign, hx, ih]

/-- `for k, v in l.items(): d.setdefault(k, v)` -/
def setAll (l d : List (κ × β)) : List (κ × β) := l.foldl (fun d e => setDefault e.1 e.2 d) d

theorem setAll_append (l l' d : List (κ × β)) : setAll (l ++ l') d = setAll l' (setAll l d) :=
  List.foldl_append

/-- Where every key is there already, nothing is set. -/
theorem setAll_of_subset {l d : List (κ × β)} (h : ∀ e ∈ l, e.1 ∈ d.map Prod.fst) :
    setAll l d = d := by
  induction l with
  | nil => rfl
  | cons e l ih =>
    obtain ⟨he, hl⟩ := List.forall_mem_cons.mp h
    show setAll l (setDefault e.1 e.2 d) = d
    rw [setDefault, if_pos he, ih hl]

theorem mem_keys_setDefault {k k' : κ} {v : β} {d : List (κ × β)} :
    k' ∈ (setDefault k v d).map Prod.fst ↔ k' = k ∨ k' ∈ d.map Prod.fst := by
  unfold setDefault
  split
  next hmem =>
    constructor
    · exact Or.inr
    · rintro (rfl | h)
      · exact hmem
      · exact h
  next hnot => simp [or_comm]

theorem mem_keys_setAll {l d : List (κ × β)} {k : κ} :
    k ∈ (setAll l d).map Prod.fst ↔ k ∈ l.map Prod.fst ∨ k ∈ d.map Prod.fst := by
  induction l generalizing d with
  | nil => simp [setAll]
  | cons e l ih =>
    show k ∈ (setAll l (setDefault e.1 e.2 d)).map Prod.fst ↔ _
    rw [ih, mem_keys_setDefault, List.map_cons, List.mem_cons]
    constructor
    · rintro (h | h | h)
      · exact Or.inl (Or.inr h)
      · exact Or.inl (Or.inl h)
      · exact Or.inr h
    · rintro ((h | h) | h)
      · exact Or.inr (Or.inl h)
      · exact Or.inl h
      · exact Or.inr (Or.inr h)

/-- Setting the same again sets nothing. -/
theorem setAll_setAll (l d : List (κ × β)) : setAll l (setAll l d) = setAll l d :=
  setAll_of_subset fun _ he => mem_keys_setAll.mpr (Or.inl (List.mem_map_of_mem he))

/-- The entries of the list are there where their key was not. -/
theorem mem_setAll_iff {l d : List (κ × β)} (hl : (l.map Prod.fst).Nodup) {e : κ × β} :
    e ∈ setAll l d ↔ e ∈ d ∨ e ∈ l ∧ e.1 ∉ d.map Prod.fst := by
  induction l generalizing d with
  | nil => simp [setAll]
  | cons a l ih =>
    rw [List.map_cons, List.nodup_cons] at hl
    show e ∈ setAll l (setDefault a.1 a.2 d) ↔ _
    rw [ih hl.2]
    have hne : e ∈ l → e.1 ≠ a.1 := by
      rintro he heq
      exact hl.1 (heq ▸ List.mem_map_of_mem he)
    -- where the first key is new, no later entry has it
    by_cases ha : a.1 ∈ d.map Prod.fst
    · rw [setDefault, if_pos ha]
      refine or_congr_right (and_congr_left fun hnot => ?_)
      rw [List.mem_cons, or_iff_right]
      rintro rfl
      exact hnot ha
    · rw [setDefault, if_neg ha, List.map_append, List.map_singleton]
      simp only [List.mem_append, List.mem_cons, List.not_mem_nil, or_false, not_or]
      constructor
      · rintro ((h | rfl) | ⟨h, hd, -⟩)
        · exact Or.inl h
        · exact Or.inr ⟨Or.inl rfl, ha⟩
        · exact Or.inr ⟨Or.inr h, hd⟩
      · rintro (h | ⟨rfl | h, hd⟩)
        · exact Or.inl (Or.inl h)
        · exact Or.inl (Or.inr rfl)
        · exact Or.inr ⟨h, hd, hne h⟩

end Defaults

/-! ## Looking up -/

section Lookup

variable {κ β : Type} [BEq κ]

theorem lookup_append (d l : List (κ × β)) (k : κ) :
    (d ++ l).lookup k = (d.lookup k).or (l.lookup k) := by
  induction d with
  | nil => rfl
  | cons e d ih =>
    rw [List.cons_append, List.lookup_cons, List.lookup_cons]
    split
    · rfl
    · exact ih

variable [LawfulBEq κ]

theorem lookup_cons_of_ne {k : κ} {e : κ × β} (h : k ≠ e.1) (d : List (κ × β)) :
    (e :: d).lookup k = d.lookup k := by
  rw [List.lookup_cons, beq_eq_false_iff_ne.mpr h]

theorem lookup_eq_none_iff {d : List (κ × β)} {k : κ} :
    d.lookup k = none ↔ k ∉ d.map Prod.fst := by
  induction d with
  | nil => simp
  | cons e d ih =>
    rw [List.map_cons, List.mem_cons, not_or, ← ih]
    by_cases hk : k = e.1
    · subst hk
      simp
    · simp [lookup_cons_of_ne hk, hk]

theorem mem_of_lookup {d : List (κ × β)} {k : κ} {v : β} (h : d.lookup k = some v) :
    (k, v) ∈ d := by
  induction d with
  | nil => cases h
  | cons e d ih =>
    by_cases hk : k = e.1
    · subst hk
      have hself : (e :: d).lookup e.1 = some e.2 := List.lookup_cons_self
      rw [hself] at h
      cases h
      exact List.mem_cons_self
    · rw [lookup_cons_of_ne hk] at h
      exact List.mem_cons_of_mem e (ih h)

/-- A `map` that leaves the keys as they are. -/
theorem lookup_map {γ : Type} (f : κ → β → γ) (d : List (κ × β)) (k : κ) :
    (d.map fun e => (e.1, f e.1 e.2)).lookup k = (d.lookup k).map (f k) := by
  induction d with
  | nil => rfl
  | cons e d ih =>
    by_cases hk : k = e.1
    · subst hk
      show List.lookup e.1 ((e.1, f e.1 e.2) :: _) = ((e :: d).lookup e.1).map (f e.1)
      rw [List.lookup_cons_self, show (e :: d).lookup e.1 = some e.2 from List.lookup_cons_self]
      rfl
    · rw [List.map_cons, lookup_cons_of_ne (e := e) hk, ← ih]
      exact lookup_cons_of_ne (e := (e.1, f e.1 e.2)) hk _

variable [DecidableEq κ]

theorem lookup_assign (k k' : κ) (v : β) (d : List (κ × β)) :
    (assign k v d).lookup k' = if k' = k then some v else d.lookup k' := by
  induction d with
  | nil =>
    by_cases hk : k' = k
    · simp [assign, hk]
    · simp [assign, lookup_cons_of_ne (e := (k, v)) hk, hk]
  | cons e d ih =>
    obtain ⟨x, w⟩ := e
    by_cases hx : x = k
    · subst hx
      by_cases hk : k' = x
      · simp [assign, hk]
      · simp only [assign, if_true, hk, if_false]
        rw [lookup_cons_of_ne hk, lookup_cons_of_ne hk]
    · rw [assign, if_neg hx]
      by_cases hk : k' = x
      · subst hk
        simp [hx]
      · rw [lookup_cons_of_ne hk, ih, lookup_cons_of_ne hk]

theorem lookup_setDefault (k k' : κ) (v : β) (d : List (κ × β)) :
    (setDefault k v d).lookup k' = (d.lookup k').or (if k' = k then some v else none) := by
  have hone : [(k, v)].lookup k' = if k' = k then some v else none := by
    by_cases hk : k' = k
    · simp [hk]
    · simp [lookup_cons_of_ne (e := (k, v)) hk, hk]
  unfold setDefault
  split
  next hmem =>
    by_cases hk : k' = k
    · obtain ⟨w, hw⟩ : ∃ w, d.lookup k = some w :=
        Option.ne_none_iff_exists'.mp fun hnone => lookup_eq_none_iff.mp hnone hmem
      simp [hk, hw]
    · simp [hk]
  next hnot => rw [lookup_append, hone]

/-- What is there stays, and what is not comes from the list. -/
theorem lookup_setAll (l d : List (κ × β)) (k : κ) :
    (setAll l d).lookup k = (d.lookup k).or (l.lookup k) := by
  induction l generalizing d with
  | nil => simp [setAll]
  | cons e l ih =>
    show (setAll l (setDefault e.1 e.2 d)).lookup k = _
    rw [ih, lookup_setDefault, Option.or_assoc]
    by_cases hk : k = e.1
    · subst hk
      rw [if_pos rfl, Option.some_or]
      exact congrArg _ List.lookup_cons_self.symm
    · rw [if_neg hk, Option.none_or, lookup_cons_of_ne hk]

variable {α ι : Type}

theorem lookup_update (k k' : κ) (f : α → α) (st : List (κ × α)) :
    (update k f st).lookup k' = (st.lookup k').map fun v => if k' = k then f v else v := by
  induction st with
  | nil => rfl
  | cons e st ih =>
    obtain ⟨x, v⟩ := e
    by_cases hx : k' = x
    · subst hx
      by_cases hk : k' = k
      · simp [update, hk]
      · simp [update, hk]
    · rw [lookup_cons_of_ne hx, ← ih]
      by_cases hk : x = k
      · simp only [update, List.map_cons, hk, if_true]
        exact lookup_cons_of_ne (hk ▸ hx) _
      · simp only [update, List.map_cons, hk, if_false]
        exact lookup_cons_of_ne hx _

/-- **An object at the end** is the object with all updates of its name. -/
theorem lookup_updateAll (act : ι → α → α) (k : κ) (ops : List (κ × ι)) (st : List (κ × α)) :
    (updateAll act ops st).lookup k
      = (st.lookup k).map fun v => (updatesOf k ops).foldl (fun v i => act i v) v := by
  induction ops generalizing st with
  | nil =>
    show st.lookup k = (st.lookup k).map id
    rw [Option.map_id, id]
  | cons op ops ih =>
    show (updateAll act ops (update op.1 (act op.2) st)).lookup k = _
    rw [ih, lookup_update, Option.map_map]
    congr 1
    funext v
    by_cases hk : op.1 = k
    · simp [updatesOf, hk]
    · simp [updatesOf, hk, Ne.symm hk]

end Lookup

end SharedObjects
