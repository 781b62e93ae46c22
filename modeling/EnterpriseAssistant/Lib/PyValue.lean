import Mathlib.Data.List.Forall2
import Mathlib.Data.List.Nodup
import EnterpriseAssistant.Lib.PyStr

/-!
# Python values

Finite values without cycles: scalars, containers, instances of models and of dataclasses by their
fields, and any other object by its identity in a type `ω`.

A place in a value is a path of indices: `at?` is what stands there, and `head` what it is, without
what is in it.

* `Value.induct` — induction over values
* `at?_append` — places below a place
* `everywhere_dict` and its like — a test of everything in a value, container by container
* `mem_dictOf_iff` — of the entries with one key, the last is left
-/

namespace Py

/-- The keys of a `dict`. -/
inductive Key (ω : Type) where
  | none
  | bool (b : Bool)
  | int (n : Int)
  /-- by its `repr` -/
  | float (text : Str)
  | str (s : Str)
  /-- any other hashable object -/
  | other (o : ω)
deriving DecidableEq, Repr

/-- `str(k)` of what can be printed; `text` is `str` of the objects. -/
def Key.text {ω : Type} (text : ω → Str) : Key ω → Str
  | .none => "None".toList
  | .bool true => "True".toList
  | .bool false => "False".toList
  | .int n => Py.str n
  | .float text => text
  | .str s => s
  | .other o => text o

/-- `str(k)`; `none` is the `ValueError` for the digits of an `int`, or what an object raises. -/
def Key.text? {ω : Type} (text : ω → Option Str) : Key ω → Option Str
  | .int n => if printableInt n then some (Py.str n) else Option.none
  | .other o => text o
  | k => some (k.text fun _ => [])

inductive Value (ω : Type) where
  | none
  | bool (b : Bool)
  | int (n : Int)
  /-- by its `repr` -/
  | float (text : Str)
  | str (s : Str)
  | other (o : ω)
  | list (xs : List (Value ω))
  | tuple (xs : List (Value ω))
  /-- in the order of iteration -/
  | set (xs : List (Value ω))
  /-- in the order of insertion -/
  | dict (items : List (Key ω × Value ω))
  /-- an instance of a `BaseModel` -/
  | model (fields : List (Str × Value ω))
  /-- an instance of a dataclass -/
  | dataclass (fields : List (Str × Value ω))

namespace Value

variable {ω : Type}

/-- Induction over values, with a hypothesis for everything in a container. -/
@[elab_as_elim]
theorem induct {P : Value ω → Prop} (none : P .none) (bool : ∀ b, P (.bool b))
    (int : ∀ n, P (.int n)) (float : ∀ text, P (.float text)) (str : ∀ s, P (.str s))
    (other : ∀ o, P (.other o)) (list : ∀ xs, (∀ x ∈ xs, P x) → P (.list xs))
    (tuple : ∀ xs, (∀ x ∈ xs, P x) → P (.tuple xs)) (set : ∀ xs, (∀ x ∈ xs, P x) → P (.set xs))
    (dict : ∀ items, (∀ e ∈ items, P e.2) → P (.dict items))
    (model : ∀ fields, (∀ f ∈ fields, P f.2) → P (.model fields))
    (dataclass : ∀ fields, (∀ f ∈ fields, P f.2) → P (.dataclass fields)) (v : Value ω) : P v :=
  @Value.rec ω P (fun xs => ∀ x ∈ xs, P x) (fun items => ∀ e ∈ items, P e.2)
    (fun fields => ∀ f ∈ fields, P f.2) (fun e => P e.2) (fun f => P f.2)
    none bool int float str other list tuple set dict model dataclass
    (fun _ h => absurd h List.not_mem_nil)
    (fun _ _ hx hxs => List.forall_mem_cons.mpr ⟨hx, hxs⟩)
    (fun _ h => absurd h List.not_mem_nil)
    (fun _ _ he hes => List.forall_mem_cons.mpr ⟨he, hes⟩)
    (fun _ h => absurd h List.not_mem_nil)
    (fun _ _ hf hfs => List.forall_mem_cons.mpr ⟨hf, hfs⟩)
    (fun _ _ h => h) (fun _ _ h => h) v

/-! ## Places -/

/-- What stands at a place, without what is in it. -/
inductive Head (ω : Type) where
  | str (s : Str)
  | list (length : Nat)
  | tuple (length : Nat)
  | dict (keys : List (Key ω))
  /-- anything else, whole -/
  | leaf (v : Value ω)

def head : Value ω → Head ω
  | .str s => .str s
  | .list xs => .list xs.length
  | .tuple xs => .tuple xs.length
  | .dict items => .dict (items.map Prod.fst)
  | v => .leaf v

/-- The item of a sequence, or the value of the entry of a `dict`. -/
def child : Value ω → Nat → Option (Value ω)
  | .list xs, i => xs[i]?
  | .tuple xs, i => xs[i]?
  | .dict items, i => items[i]?.map Prod.snd
  | _, _ => Option.none

/-- What stands at the end of a path. -/
def at? : Value ω → List Nat → Option (Value ω)
  | v, [] => some v
  | v, i :: path => (v.child i).bind fun x => x.at? path

@[simp] theorem at?_nil (v : Value ω) : v.at? [] = some v := rfl

theorem at?_cons (v : Value ω) (i : Nat) (path : List Nat) :
    v.at? (i :: path) = (v.child i).bind fun x => x.at? path := rfl

theorem at?_append (v : Value ω) (path path' : List Nat) :
    v.at? (path ++ path') = (v.at? path).bind fun x => x.at? path' := by
  induction path generalizing v with
  | nil => rfl
  | cons i path ih =>
    rw [List.cons_append, at?_cons, at?_cons]
    cases v.child i with
    | none => rfl
    | some x => exact ih x

/-! ## Everything in a value -/

mutual

/-- The value and everything in it satisfies `p`. -/
def everywhere (p : Value ω → Bool) : Value ω → Bool
  | .list xs => p (.list xs) && everywhereItems p xs
  | .tuple xs => p (.tuple xs) && everywhereItems p xs
  | .set xs => p (.set xs) && everywhereItems p xs
  | .dict items => p (.dict items) && everywhereEntries p items
  | .model fields => p (.model fields) && everywhereFields p fields
  | .dataclass fields => p (.dataclass fields) && everywhereFields p fields
  | v => p v

def everywhereItems (p : Value ω → Bool) : List (Value ω) → Bool
  | [] => true
  | x :: xs => everywhere p x && everywhereItems p xs

def everywhereEntries (p : Value ω → Bool) : List (Key ω × Value ω) → Bool
  | [] => true
  | (_, v) :: items => everywhere p v && everywhereEntries p items

def everywhereFields (p : Value ω → Bool) : List (Str × Value ω) → Bool
  | [] => true
  | (_, v) :: fields => everywhere p v && everywhereFields p fields

end

variable (p : Value ω → Bool)

theorem everywhereItems_eq (xs : List (Value ω)) :
    everywhereItems p xs = xs.all (everywhere p) := by
  induction xs with
  | nil => simp [everywhereItems]
  | cons x xs ih => simp [everywhereItems, ih]

theorem everywhereEntries_eq (items : List (Key ω × Value ω)) :
    everywhereEntries p items = items.all fun e => everywhere p e.2 := by
  induction items with
  | nil => simp [everywhereEntries]
  | cons e items ih => simp [everywhereEntries, ih]

theorem everywhereFields_eq (fields : List (Str × Value ω)) :
    everywhereFields p fields = fields.all fun f => everywhere p f.2 := by
  induction fields with
  | nil => simp [everywhereFields]
  | cons f fields ih => simp [everywhereFields, ih]

@[simp] theorem everywhere_str (s : Str) : everywhere p (.str s : Value ω) = p (.str s) := rfl

@[simp] theorem everywhere_list (xs : List (Value ω)) :
    everywhere p (.list xs) = (p (.list xs) && xs.all (everywhere p)) := by
  rw [everywhere, everywhereItems_eq]

@[simp] theorem everywhere_tuple (xs : List (Value ω)) :
    everywhere p (.tuple xs) = (p (.tuple xs) && xs.all (everywhere p)) := by
  rw [everywhere, everywhereItems_eq]

@[simp] theorem everywhere_set (xs : List (Value ω)) :
    everywhere p (.set xs) = (p (.set xs) && xs.all (everywhere p)) := by
  rw [everywhere, everywhereItems_eq]

@[simp] theorem everywhere_dict (items : List (Key ω × Value ω)) :
    everywhere p (.dict items) = (p (.dict items) && items.all fun e => everywhere p e.2) := by
  rw [everywhere, everywhereEntries_eq]

@[simp] theorem everywhere_model (fields : List (Str × Value ω)) :
    everywhere p (.model fields) = (p (.model fields) && fields.all fun f => everywhere p f.2) := by
  rw [everywhere, everywhereFields_eq]

@[simp] theorem everywhere_dataclass (fields : List (Str × Value ω)) :
    everywhere p (.dataclass fields)
      = (p (.dataclass fields) && fields.all fun f => everywhere p f.2) := by
  rw [everywhere, everywhereFields_eq]

variable {p}

/-- A test that two others imply. -/
theorem everywhere_of_and {q r : Value ω → Bool} (h : ∀ v, p v = true → q v = true → r v = true)
    {v : Value ω} (hp : everywhere p v = true) (hq : everywhere q v = true) :
    everywhere r v = true := by
  induction v using induct with
  | list xs ih =>
    simp only [everywhere_list, Bool.and_eq_true, List.all_eq_true] at hp hq ⊢
    exact ⟨h _ hp.1 hq.1, fun x hx => ih x hx (hp.2 x hx) (hq.2 x hx)⟩
  | tuple xs ih =>
    simp only [everywhere_tuple, Bool.and_eq_true, List.all_eq_true] at hp hq ⊢
    exact ⟨h _ hp.1 hq.1, fun x hx => ih x hx (hp.2 x hx) (hq.2 x hx)⟩
  | set xs ih =>
    simp only [everywhere_set, Bool.and_eq_true, List.all_eq_true] at hp hq ⊢
    exact ⟨h _ hp.1 hq.1, fun x hx => ih x hx (hp.2 x hx) (hq.2 x hx)⟩
  | dict items ih =>
    simp only [everywhere_dict, Bool.and_eq_true, List.all_eq_true] at hp hq ⊢
    exact ⟨h _ hp.1 hq.1, fun e he => ih e he (hp.2 e he) (hq.2 e he)⟩
  | model fields ih =>
    simp only [everywhere_model, Bool.and_eq_true, List.all_eq_true] at hp hq ⊢
    exact ⟨h _ hp.1 hq.1, fun f hf => ih f hf (hp.2 f hf) (hq.2 f hf)⟩
  | dataclass fields ih =>
    simp only [everywhere_dataclass, Bool.and_eq_true, List.all_eq_true] at hp hq ⊢
    exact ⟨h _ hp.1 hq.1, fun f hf => ih f hf (hp.2 f hf) (hq.2 f hf)⟩
  | _ => exact h _ hp hq

/-! ## Containers in containers -/

mutual

/-- How deep containers are nested. -/
def nesting : Value ω → Nat
  | .list xs | .tuple xs | .set xs => nestingItems xs + 1
  | .dict items => nestingEntries items + 1
  | .model fields | .dataclass fields => nestingFields fields + 1
  | _ => 0

def nestingItems : List (Value ω) → Nat
  | [] => 0
  | x :: xs => max (nesting x) (nestingItems xs)

def nestingEntries : List (Key ω × Value ω) → Nat
  | [] => 0
  | (_, v) :: items => max (nesting v) (nestingEntries items)

def nestingFields : List (Str × Value ω) → Nat
  | [] => 0
  | (_, v) :: fields => max (nesting v) (nestingFields fields)

end

theorem nesting_list_le_iff {xs : List (Value ω)} {n : Nat} :
    nesting (.list xs) ≤ n + 1 ↔ ∀ x ∈ xs, nesting x ≤ n := by
  rw [nesting, Nat.add_le_add_iff_right]
  induction xs with
  | nil => simp [nestingItems]
  | cons x xs ih => rw [nestingItems, Nat.max_le, ih, List.forall_mem_cons]

theorem nesting_dict_le_iff {items : List (Key ω × Value ω)} {n : Nat} :
    nesting (.dict items) ≤ n + 1 ↔ ∀ e ∈ items, nesting e.2 ≤ n := by
  rw [nesting, Nat.add_le_add_iff_right]
  induction items with
  | nil => simp [nestingEntries]
  | cons e items ih => rw [nestingEntries, Nat.max_le, ih, List.forall_mem_cons]

end Value

/-! ## Building a `dict` -/

section Dict

variable {κ β : Type} [DecidableEq κ]

/-- `d[k] = v` -/
def assign (k : κ) (v : β) : List (κ × β) → List (κ × β)
  | [] => [(k, v)]
  | (k', v') :: d => if k' = k then (k', v) :: d else (k', v') :: assign k v d

/-- `{k: v for k, v in l}` -/
def dictOf (l : List (κ × β)) : List (κ × β) := l.foldl (fun d e => assign e.1 e.2 d) []

/-- `d.setdefault(k, v)` -/
def setDefault (k : κ) (v : β) (d : List (κ × β)) : List (κ × β) :=
  if k ∈ d.map Prod.fst then d else d ++ [(k, v)]

theorem map_fst_assign (k : κ) (v : β) (d : List (κ × β)) :
    (assign k v d).map Prod.fst
      = if k ∈ d.map Prod.fst then d.map Prod.fst else d.map Prod.fst ++ [k] := by
  induction d with
  | nil => rfl
  | cons e d ih =>
    obtain ⟨k', v'⟩ := e
    by_cases hk : k' = k
    · simp [assign, hk]
    · have hk' : ¬k = k' := fun h => hk h.symm
      rw [assign, if_neg hk, List.map_cons, ih]
      by_cases hmem : k ∈ d.map Prod.fst
      · simp only [hmem, if_true, List.map_cons, List.mem_cons, or_true]
      · simp only [hmem, if_false, List.map_cons, List.mem_cons, hk', or_false, List.cons_append]

theorem nodup_assign {d : List (κ × β)} (h : (d.map Prod.fst).Nodup) (k : κ) (v : β) :
    ((assign k v d).map Prod.fst).Nodup := by
  rw [map_fst_assign]
  split
  · exact h
  next hk =>
    refine List.nodup_append.mpr ⟨h, List.nodup_singleton k, fun a ha b hb => ?_⟩
    rw [List.mem_singleton.mp hb]
    rintro rfl
    exact hk ha

theorem mem_assign_iff {d : List (κ × β)} (h : (d.map Prod.fst).Nodup) {k : κ} {v : β}
    {e : κ × β} : e ∈ assign k v d ↔ e = (k, v) ∨ e ∈ d ∧ e.1 ≠ k := by
  induction d with
  | nil => simp [assign]
  | cons e' d ih =>
    obtain ⟨k', v'⟩ := e'
    rw [List.map_cons, List.nodup_cons] at h
    obtain ⟨hk', hd⟩ := h
    by_cases hk : k' = k
    · subst hk
      rw [assign, if_pos rfl, List.mem_cons, List.mem_cons]
      constructor
      · rintro (he | he)
        · exact Or.inl he
        · refine Or.inr ⟨Or.inr he, ?_⟩
          rintro rfl
          exact hk' (List.mem_map.mpr ⟨e, he, rfl⟩)
      · rintro (he | ⟨rfl | he, hne⟩)
        · exact Or.inl he
        · exact absurd rfl hne
        · exact Or.inr he
    · rw [assign, if_neg hk, List.mem_cons, List.mem_cons, ih hd]
      constructor
      · rintro (rfl | he | ⟨he, hne⟩)
        · exact Or.inr ⟨Or.inl rfl, hk⟩
        · exact Or.inl he
        · exact Or.inr ⟨Or.inr he, hne⟩
      · rintro (he | ⟨he | he, hne⟩)
        · exact Or.inr (Or.inl he)
        · exact Or.inl he
        · exact Or.inr (Or.inr ⟨he, hne⟩)

theorem dictOf_concat (l : List (κ × β)) (e : κ × β) :
    dictOf (l ++ [e]) = assign e.1 e.2 (dictOf l) := by
  rw [dictOf, List.foldl_append]
  rfl

theorem nodup_dictOf (l : List (κ × β)) : ((dictOf l).map Prod.fst).Nodup := by
  induction l using List.reverseRecOn with
  | nil => exact List.nodup_nil
  | append_singleton l e ih =>
    rw [dictOf_concat]
    exact nodup_assign ih e.1 e.2

theorem assign_of_notMem {d : List (κ × β)} {k : κ} (h : k ∉ d.map Prod.fst) (v : β) :
    assign k v d = d ++ [(k, v)] := by
  induction d with
  | nil => rfl
  | cons e d ih =>
    rw [List.map_cons, List.mem_cons, not_or] at h
    rw [assign, if_neg (Ne.symm h.1), ih h.2, List.cons_append]

/-- Where no key comes twice, every entry is left. -/
theorem dictOf_of_nodup {l : List (κ × β)} (h : (l.map Prod.fst).Nodup) : dictOf l = l := by
  induction l using List.reverseRecOn with
  | nil => rfl
  | append_singleton l e ih =>
    rw [List.map_append, List.map_singleton, List.nodup_append] at h
    obtain ⟨hl, -, hlast⟩ := h
    have he : e.1 ∉ l.map Prod.fst := fun hmem => hlast e.1 hmem e.1 (List.mem_singleton_self _) rfl
    rw [dictOf_concat, ih hl, assign_of_notMem he]

/-- **Of the entries with one key, the last is left.** -/
theorem mem_dictOf_iff {l : List (κ × β)} {e : κ × β} :
    e ∈ dictOf l ↔ ∃ a b, l = a ++ e :: b ∧ e.1 ∉ b.map Prod.fst := by
  induction l using List.reverseRecOn with
  | nil =>
    constructor
    · intro h
      cases h
    · rintro ⟨a, b, hl, -⟩
      simp at hl
  | append_singleton l x ih =>
    rw [dictOf_concat, mem_assign_iff (nodup_dictOf l), ih]
    constructor
    · rintro (rfl | ⟨⟨a, b, rfl, hb⟩, hne⟩)
      · exact ⟨l, [], rfl, List.not_mem_nil⟩
      · refine ⟨a, b ++ [x], by simp, ?_⟩
        rw [List.map_append, List.mem_append, not_or]
        exact ⟨hb, by simpa using hne⟩
    · rintro ⟨a, b, hl, hb⟩
      rcases List.eq_nil_or_concat b with rfl | ⟨b, y, rfl⟩
      · have hx : [x] = [e] := (List.append_inj' hl rfl).2
        exact Or.inl (List.cons.inj hx).1.symm
      · rw [List.concat_eq_append] at hl hb
        have hl' : l ++ [x] = (a ++ e :: b) ++ [y] := by
          rw [hl, List.append_assoc, List.cons_append]
        obtain ⟨rfl, hx⟩ := List.append_inj' hl' rfl
        obtain rfl : x = y := (List.cons.inj hx).1
        rw [List.map_append, List.mem_append, not_or] at hb
        exact Or.inr ⟨⟨a, b, rfl, hb.1⟩, by simpa using hb.2⟩

/-- The entries that no later entry overwrites all satisfy `p`. -/
def allLast (p : κ × β → Bool) : List (κ × β) → Bool
  | [] => true
  | e :: l => (decide (e.1 ∈ l.map Prod.fst) || p e) && allLast p l

theorem allLast_eq_true_iff {p : κ × β → Bool} {l : List (κ × β)} :
    allLast p l = true ↔ ∀ a e b, l = a ++ e :: b → e.1 ∉ b.map Prod.fst → p e = true := by
  induction l with
  | nil =>
    refine iff_of_true rfl fun a e b hl => ?_
    simp at hl
  | cons x l ih =>
    rw [allLast, Bool.and_eq_true, Bool.or_eq_true, decide_eq_true_iff, ih]
    constructor
    · rintro ⟨hx, hl⟩ a e b heq hlast
      cases a with
      | nil =>
        obtain ⟨rfl, rfl⟩ := List.cons.inj heq
        exact hx.resolve_left hlast
      | cons y a =>
        obtain ⟨rfl, rfl⟩ := List.cons.inj heq
        exact hl a e b rfl hlast
    · intro h
      refine ⟨?_, fun a e b heq hlast => h (x :: a) e b (by rw [heq, List.cons_append]) hlast⟩
      by_cases hx : x.1 ∈ l.map Prod.fst
      · exact Or.inl hx
      · exact Or.inr (h [] x l rfl hx)

theorem all_dictOf (p : κ × β → Bool) (l : List (κ × β)) : (dictOf l).all p = allLast p l := by
  rw [Bool.eq_iff_iff, List.all_eq_true, allLast_eq_true_iff]
  constructor
  · intro h a e b hl hlast
    exact h e (mem_dictOf_iff.mpr ⟨a, b, hl, hlast⟩)
  · intro h e he
    obtain ⟨a, b, hl, hlast⟩ := mem_dictOf_iff.mp he
    exact h a e b hl hlast

/-! ### Two dictionaries with the same keys -/

variable {γ : Type}

theorem map_eq_map_iff {f : β → γ} {l l' : List β} :
    l.map f = l'.map f ↔ List.Forall₂ (fun a a' => f a = f a') l l' := by
  rw [← List.forall₂_eq_eq_eq, List.forall₂_map_left_iff, List.forall₂_map_right_iff]

theorem forall₂_and {R S : β → γ → Prop} {l : List β} {l' : List γ} (hR : List.Forall₂ R l l')
    (hS : List.Forall₂ S l l') : List.Forall₂ (fun a b => R a b ∧ S a b) l l' :=
  .mp (fun _ _ => And.intro) hR hS

theorem forall₂_iff {R S T : β → γ → Prop} {l : List β} {l' : List γ} (h : List.Forall₂ R l l')
    (hST : ∀ a b, R a b → (S a b ↔ T a b)) : List.Forall₂ S l l' ↔ List.Forall₂ T l l' :=
  ⟨.mp (fun a b hR => (hST a b hR).mp) h, .mp (fun a b hR => (hST a b hR).mpr) h⟩

/-- The entries have the same key, and their values are related there. -/
def Entrywise (R : κ → β → γ → Prop) (e : κ × β) (e' : κ × γ) : Prop :=
  e.1 = e'.1 ∧ R e.1 e.2 e'.2

theorem forall₂_assign {R : κ → β → γ → Prop} {d : List (κ × β)} {d' : List (κ × γ)}
    (h : List.Forall₂ (Entrywise R) d d') {k : κ} {v : β} {v' : γ} (hv : R k v v') :
    List.Forall₂ (Entrywise R) (assign k v d) (assign k v' d') := by
  induction h with
  | nil => exact .cons ⟨rfl, hv⟩ .nil
  | @cons e e' d d' he hd ih =>
    obtain ⟨k₁, v₁⟩ := e
    obtain ⟨k₂, v₂⟩ := e'
    obtain ⟨hkey, hval⟩ := he
    obtain rfl : k₁ = k₂ := hkey
    rw [assign, assign]
    by_cases hk : k₁ = k
    · subst hk
      rw [if_pos rfl, if_pos rfl]
      exact .cons ⟨rfl, hv⟩ hd
    · rw [if_neg hk, if_neg hk]
      exact .cons ⟨rfl, hval⟩ ih

/-- What holds of the values at every key holds of those that are left. -/
theorem forall₂_dictOf {R : κ → β → γ → Prop} {l : List (κ × β)} {l' : List (κ × γ)}
    (h : List.Forall₂ (Entrywise R) l l') :
    List.Forall₂ (Entrywise R) (dictOf l) (dictOf l') := by
  have hfold : ∀ {d d'}, List.Forall₂ (Entrywise R) d d' →
      List.Forall₂ (Entrywise R) (l.foldl (fun d e => assign e.1 e.2 d) d)
        (l'.foldl (fun d e => assign e.1 e.2 d) d') := by
    induction h with
    | nil => exact fun hd => hd
    | @cons e e' l l' he _ ih =>
      intro d d' hd
      obtain ⟨hkey, hval⟩ := he
      rw [List.foldl_cons, List.foldl_cons, ← hkey]
      exact ih (forall₂_assign hd hval)
  exact hfold .nil

theorem dictOf_map (f : β → γ) (l : List (κ × β)) :
    dictOf (l.map fun e => (e.1, f e.2)) = (dictOf l).map fun e => (e.1, f e.2) := by
  have hentries : List.Forall₂ (Entrywise fun _ v v' => v' = f v) l
      (l.map fun e => (e.1, f e.2)) := by
    rw [List.forall₂_map_right_iff, List.forall₂_same]
    exact fun _ _ => ⟨rfl, rfl⟩
  have hdict := forall₂_dictOf hentries
  rw [← List.forall₂_eq_eq_eq, List.forall₂_map_right_iff]
  exact (hdict.imp fun e e' he => Prod.ext he.1.symm he.2).flip

end Dict

/-! ## Instances as dictionaries -/

section Instances

variable {ω : Type}

/-- A `dict` with string keys. -/
def strDict (d : List (Str × Value ω)) : Value ω := .dict (d.map fun e => (.str e.1, e.2))

mutual

/--
Instances of dataclasses become dictionaries at every depth.  What dumps a model (`dumped`) does the
same to models, and goes into sets.
-/
def takeApart (dumped : Bool) : Value ω → Value ω
  | .dataclass fields => .dict (takeApartFields dumped fields)
  | .model fields => if dumped then .dict (takeApartFields dumped fields) else .model fields
  | .set xs => if dumped then .set (takeApartItems dumped xs) else .set xs
  | .list xs => .list (takeApartItems dumped xs)
  | .tuple xs => .tuple (takeApartItems dumped xs)
  | .dict items => .dict (takeApartEntries dumped items)
  -- other objects, serialisable or not, stay what they are
  | v => v

def takeApartItems (dumped : Bool) : List (Value ω) → List (Value ω)
  | [] => []
  | x :: xs => takeApart dumped x :: takeApartItems dumped xs

def takeApartEntries (dumped : Bool) : List (Key ω × Value ω) → List (Key ω × Value ω)
  | [] => []
  | (k, v) :: items => (k, takeApart dumped v) :: takeApartEntries dumped items

def takeApartFields (dumped : Bool) : List (Str × Value ω) → List (Key ω × Value ω)
  | [] => []
  | (name, v) :: fields => (.str name, takeApart dumped v) :: takeApartFields dumped fields

end

/-- `dataclasses.asdict`: what is no dataclass, list, tuple or `dict` is copied. -/
def asdict (v : Value ω) : Value ω := takeApart false v

/-- What the documentation of `model_dump` says. -/
def toPython (v : Value ω) : Value ω := takeApart true v

theorem takeApartItems_eq (dumped : Bool) (xs : List (Value ω)) :
    takeApartItems dumped xs = xs.map (takeApart dumped) := by
  induction xs with
  | nil => simp [takeApartItems]
  | cons x xs ih => simp [takeApartItems, ih]

theorem takeApartEntries_eq (dumped : Bool) (items : List (Key ω × Value ω)) :
    takeApartEntries dumped items = items.map fun e => (e.1, takeApart dumped e.2) := by
  induction items with
  | nil => simp [takeApartEntries]
  | cons e items ih => simp [takeApartEntries, ih]

theorem takeApartFields_eq (dumped : Bool) (fields : List (Str × Value ω)) :
    takeApartFields dumped fields = fields.map fun f => (.str f.1, takeApart dumped f.2) := by
  induction fields with
  | nil => simp [takeApartFields]
  | cons f fields ih => simp [takeApartFields, ih]

end Instances

end Py
