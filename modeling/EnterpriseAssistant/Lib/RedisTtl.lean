import EnterpriseAssistant.Lib.Redis

/-!
# A Redis keyspace whose keys expire

A key has a value and may have a deadline; it is there as long as its deadline has not come.  `DEL`
is `erase`.

* `Outlives.incrAt` — a counter that does not expire before a time counts every `INCR` until then
* `Timed.incrAt` — an `INCR` takes the deadline from no key; only a new one has none
-/

namespace Redis

open Py

structure Entry where
  value : Str
  /-- the moment at which the time to live has run out -/
  deadline : Option Nat
deriving DecidableEq, Repr

abbrev TtlStore := AList fun _ : Str => Entry

def Entry.live (now : Nat) (e : Entry) : Bool := e.deadline.all fun d => now < d

/-- What is there of a key at a moment. -/
def find (now : Nat) (r : TtlStore) (k : Str) : Option Entry := (r.lookup k).filter (Entry.live now)

/-- `INCR`, which keeps the deadline: the new value; `none` is an error reply. -/
def incrAt (now : Nat) (r : TtlStore) (k : Str) : Option (Int × TtlStore) :=
  match find now r k with
  | none => some (1, r.insert k { value := str 1, deadline := none })
  | some e =>
    match integer? e.value with
    | none => none
    | some n =>
      if n + 1 < 2 ^ 63 then some (n + 1, r.insert k { e with value := str (n + 1) }) else none

/-- `EXPIRE`; a key that is not there stays away. -/
def expireAt (now ttl : Nat) (r : TtlStore) (k : Str) : TtlStore :=
  match find now r k with
  | none => r
  | some e => r.insert k { e with deadline := some (now + ttl) }

/-- The number that is stored under a key, whether or not its time has run out. -/
def stored (r : TtlStore) (k : Str) : Int := ((r.lookup k).bind fun e => int? e.value).getD 0

/-- The key does not expire before `horizon`. -/
def Outlives (horizon : Nat) (r : TtlStore) (k : Str) : Prop :=
  ∀ e d, r.lookup k = some e → e.deadline = some d → horizon ≤ d

theorem lookup_congr {r r' : TtlStore} {k : Str} (h : r'.lookup k = r.lookup k) :
    stored r' k = stored r k := by
  simp only [stored, h]

/-! ## The other keys -/

theorem incrAt_other {now : Nat} {r r' : TtlStore} {k k' : Str} {n : Int}
    (h : incrAt now r k' = some (n, r')) (hne : k ≠ k') : r'.lookup k = r.lookup k := by
  unfold incrAt at h
  split at h
  · cases h
    exact AList.lookup_insert_ne hne
  · split at h
    · cases h
    · split at h
      · cases h
        exact AList.lookup_insert_ne hne
      · cases h

theorem expireAt_other (now ttl : Nat) (r : TtlStore) {k k' : Str} (hne : k ≠ k') :
    (expireAt now ttl r k').lookup k = r.lookup k := by
  unfold expireAt
  split
  · rfl
  · exact AList.lookup_insert_ne hne

/-- `INCR` stores what it answers: one more than was stored, or `1`. -/
theorem stored_incrAt {now : Nat} {r r' : TtlStore} {k : Str} {n : Int}
    (h : incrAt now r k = some (n, r')) : stored r' k = n ∧ (n = stored r k + 1 ∨ n = 1) := by
  unfold incrAt at h
  split at h
  · cases h
    exact ⟨by simp [stored], Or.inr rfl⟩
  · next e hfind =>
    obtain ⟨hrow, -⟩ := Option.filter_eq_some_iff.mp hfind
    split at h
    · cases h
    · next m hm =>
      split at h
      · cases h
        refine ⟨by simp [stored], Or.inl ?_⟩
        rw [stored, hrow, Option.bind_some, ← str_of_integer? hm, int?_str, Option.getD_some]
      · cases h

/-! ## A key that outlives a window -/

section Outlives

variable {horizon now : Nat} {r : TtlStore} {k : Str}

theorem outlives_of_none (h : r.lookup k = none) : Outlives horizon r k := by
  intro e d hrow
  rw [h] at hrow
  cases hrow

/-- Before the horizon what is stored is there. -/
theorem Outlives.find_eq (h : Outlives horizon r k) (hnow : now < horizon) :
    find now r k = r.lookup k := by
  unfold find
  cases hrow : r.lookup k with
  | none => rfl
  | some e =>
    refine Option.filter_some_pos ?_
    cases hd : e.deadline with
    | none => simp [Entry.live, hd]
    | some d =>
      have hle := h e d hrow hd
      simp only [Entry.live, hd, Option.all_some, decide_eq_true_eq]
      omega

/-- **`INCR`** before the horizon answers one more than was stored, and stores that. -/
theorem Outlives.incrAt (h : Outlives horizon r k) (hnow : now < horizon) {n : Int} {r' : TtlStore}
    (hincr : incrAt now r k = some (n, r')) :
    n = stored r k + 1 ∧ stored r' k = n ∧ Outlives horizon r' k := by
  unfold Redis.incrAt at hincr
  rw [h.find_eq hnow] at hincr
  split at hincr
  · next hrow =>
    cases hincr
    refine ⟨by simp [stored, hrow], by simp [stored], fun e d he hd => ?_⟩
    rw [AList.lookup_insert] at he
    cases he
    cases hd
  · next e hrow =>
    split at hincr
    · cases hincr
    · next m hm =>
      split at hincr
      · cases hincr
        refine ⟨?_, by simp [stored], fun e' d he hd => ?_⟩
        · rw [stored, hrow, Option.bind_some, ← str_of_integer? hm, int?_str, Option.getD_some]
        · rw [AList.lookup_insert] at he
          cases he
          exact h e d hrow hd
      · cases hincr

theorem stored_expireAt (now ttl : Nat) (r : TtlStore) (k : Str) :
    stored (expireAt now ttl r k) k = stored r k := by
  unfold expireAt
  split
  · rfl
  · next e he =>
    obtain ⟨hrow, -⟩ := Option.filter_eq_some_iff.mp he
    simp [stored, hrow]

/-- A time to live that reaches behind the horizon. -/
theorem Outlives.expireAt (h : Outlives horizon r k) {ttl : Nat} (httl : horizon ≤ now + ttl) :
    Outlives horizon (expireAt now ttl r k) k := by
  unfold Redis.expireAt
  split
  · exact h
  · intro e' d he hd
    rw [AList.lookup_insert] at he
    cases he
    cases hd
    exact httl

theorem stored_erase (r : TtlStore) (k : Str) : stored (r.erase k) k = 0 := by
  simp [stored]

end Outlives

/-! ## Keys with a deadline -/

section Timed

variable {now : Nat} {r r' : TtlStore} {k : Str}

/-- The key has a deadline, if there is one. -/
def Timed (r : TtlStore) (k : Str) : Prop := ∀ e, r.lookup k = some e → e.deadline.isSome = true

/-- Without a deadline a key is there at every moment. -/
theorem timed_iff (now : Nat) :
    Timed r k ↔ ∀ e, find now r k = some e → e.deadline.isSome = true := by
  constructor
  · intro h e he
    exact h e (Option.filter_eq_some_iff.mp he).1
  · intro h e hrow
    cases hd : e.deadline with
    | some d => rfl
    | none =>
      have hfind : find now r k = some e :=
        Option.filter_eq_some_iff.mpr ⟨hrow, by simp [Entry.live, hd]⟩
      rw [← hd]
      exact h e hfind

theorem Timed.congr (h : Timed r k) (hrow : r'.lookup k = r.lookup k) : Timed r' k :=
  fun e he => h e (hrow ▸ he)

/-- **`INCR`** takes no deadline away; a key that it creates has none. -/
theorem Timed.incrAt (h : Timed r k) {n : Int} (hincr : incrAt now r k = some (n, r')) :
    Timed r' k ∨ n = 1 := by
  unfold Redis.incrAt at hincr
  split at hincr
  · cases hincr
    exact Or.inr rfl
  · next e hrow =>
    split at hincr
    · cases hincr
    · split at hincr
      · cases hincr
        refine Or.inl fun e' he' => ?_
        rw [AList.lookup_insert] at he'
        cases he'
        exact (timed_iff now).mp h e hrow
      · cases hincr

/-- Behind an `EXPIRE` the key has a deadline, or is gone. -/
theorem timed_expireAt (now ttl : Nat) (r : TtlStore) (k : Str) :
    Timed (expireAt now ttl r k) k := by
  unfold expireAt
  split
  · next hnone =>
    rw [timed_iff now, hnone]
    exact fun e he => absurd he (Option.some_ne_none e).symm
  · intro e' he'
    rw [AList.lookup_insert] at he'
    cases he'
    rfl

theorem timed_erase (r : TtlStore) (k : Str) : Timed (r.erase k) k := by
  intro e he
  simp at he

end Timed

end Redis
