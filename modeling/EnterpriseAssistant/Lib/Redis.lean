import Mathlib.Algebra.Group.Int.Defs
import Mathlib.Data.List.AList
import EnterpriseAssistant.Lib.PyStr

/-!
# A Redis keyspace

The keys with their values, as text.  `GET`, `SET` and `DEL` are `lookup`, `insert` and `erase`
of an association list without repeated keys; `INCR` is defined here.  Every command is one
atomic step, so a command is a function of the whole keyspace.

The last section counts the keys whose entry has a property: what one command does to the count
is what a statement about "at most one entry" needs.
-/

namespace Redis

open Py

/-- The keyspace. -/
abbrev Keyspace := AList (fun _ : Str => Str)

/-- The integer that a value holds, as Redis reads it: canonical decimal of 64 bits. -/
def integer? (v : Str) : Option Int :=
  match int? v with
  | none => none
  | some n => if str n = v ∧ -2 ^ 63 ≤ n ∧ n < 2 ^ 63 then some n else none

/-- `INCR`: the new value and keyspace; `none` is an error reply (not an integer, or overflow). -/
def incr (r : Keyspace) (k : Str) : Option (Int × Keyspace) :=
  match r.lookup k with
  | none => some (1, r.insert k (str 1))
  | some v =>
    match integer? v with
    | none => none
    | some n => if n + 1 < 2 ^ 63 then some (n + 1, r.insert k (str (n + 1))) else none

theorem str_of_integer? {v : Str} {n : Int} (h : integer? v = some n) : str n = v := by
  unfold integer? at h
  split at h
  · cases h
  · split at h
    · next hc =>
      cases h
      exact hc.1
    · cases h

/-- The number a key counts: what its text reads as, and 0 where there is none. -/
def counter (r : Keyspace) (k : Str) : Int :=
  match r.lookup k with
  | none => 0
  | some v => (int? v).getD 0

/-- `INCR` answers one more than the counter was, and stores that. -/
theorem incr_spec {r r' : Keyspace} {k : Str} {n : Int} (h : incr r k = some (n, r')) :
    n = counter r k + 1 ∧ r' = r.insert k (str n) := by
  unfold incr at h
  split at h
  · next hk =>
    cases h
    exact ⟨by simp [counter, hk], rfl⟩
  · next v hk =>
    split at h
    · cases h
    · next m hm =>
      split at h
      · cases h
        refine ⟨?_, rfl⟩
        rw [← str_of_integer? hm] at hk
        simp [counter, hk]
      · cases h

theorem counter_insert_self (r : Keyspace) (k : Str) (n : Int) :
    counter (r.insert k (str n)) k = n := by
  simp [counter]

theorem counter_insert_ne {r : Keyspace} {k k' : Str} (v : Str) (h : k ≠ k') :
    counter (r.insert k' v) k = counter r k := by
  simp [counter, AList.lookup_insert_ne h]

theorem counter_erase_ne {r : Keyspace} {k k' : Str} (h : k ≠ k') :
    counter (r.erase k') k = counter r k := by
  simp [counter, AList.lookup_erase_ne h]

theorem lookup_of_erase {r : Keyspace} {k k' v : Str} (h : (r.erase k').lookup k = some v) :
    r.lookup k = some v := by
  by_cases hk : k = k'
  · rw [hk, AList.lookup_erase] at h
    cases h
  · rwa [AList.lookup_erase_ne hk] at h

/-! ## Counting entries -/

/-- The number of keys whose entry satisfies `p`. -/
def count (p : Str → Str → Bool) (r : Keyspace) : Nat := r.entries.countP fun e => p e.1 e.2

variable {p : Str → Str → Bool}

@[simp] theorem count_empty : count p ∅ = 0 := rfl

theorem count_erase_add {r : Keyspace} {k v : Str} (h : r.lookup k = some v) :
    count p (r.erase k) + (if p k v then 1 else 0) = count p r := by
  have hk : k ∈ r.entries.keys := AList.mem_keys.mp (AList.lookup_isSome.mp (by rw [h]; rfl))
  obtain ⟨w, l₁, l₂, -, hl, herase⟩ := List.exists_of_kerase hk
  have hw : w = v := by
    have hmem : (⟨k, w⟩ : Sigma fun _ : Str => Str) ∈ r.entries := by
      rw [hl]
      exact List.mem_append_right _ List.mem_cons_self
    have hlk : r.lookup k = some w := List.mem_dlookup r.nodupKeys hmem
    exact Option.some.inj (hlk.symm.trans h)
  subst hw
  show ((r.entries.kerase k).countP fun e => p e.1 e.2) + _ = r.entries.countP fun e => p e.1 e.2
  rw [herase, hl, List.countP_append, List.countP_append, List.countP_cons]
  exact Nat.add_assoc _ _ _

theorem count_erase_le (r : Keyspace) (k : Str) : count p (r.erase k) ≤ count p r :=
  (List.kerase_sublist k r.entries).countP_le

theorem count_insert_new {r : Keyspace} {k : Str} (v : Str) (h : r.lookup k = none) :
    count p (r.insert k v) = count p r + (if p k v then 1 else 0) := by
  unfold count
  rw [AList.entries_insert_of_notMem (AList.lookup_eq_none.mp h), List.countP_cons]

/-- A key that never counts can be written without changing the count. -/
theorem count_insert_of_not {r : Keyspace} {k : Str} (v : Str) (hk : ∀ w, p k w = false) :
    count p (r.insert k v) = count p r := by
  have hnew : count p (r.insert k v) = count p (r.erase k) := by
    show (r.insert k v).entries.countP _ = (r.entries.kerase k).countP _
    rw [AList.entries_insert, List.countP_cons, hk]
    simp
  rw [hnew]
  cases hl : r.lookup k with
  | none =>
    show (r.entries.kerase k).countP _ = _
    rw [List.kerase_of_notMem_keys (AList.lookup_eq_none.mp hl)]
    rfl
  | some w =>
    have h := count_erase_add (p := p) hl
    rw [hk] at h
    simpa using h

/-- An entry that counts makes the count positive. -/
theorem count_pos {r : Keyspace} {k v : Str} (h : r.lookup k = some v) (hp : p k v = true) :
    0 < count p r := by
  have hadd := count_erase_add (p := p) h
  rw [hp] at hadd
  simp only [if_true] at hadd
  omega

end Redis
