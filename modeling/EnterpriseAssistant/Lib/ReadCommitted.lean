import Mathlib.Data.Finset.Dedup
import Mathlib.Data.Fintype.EquivFin
import Mathlib.Data.List.Nodup

/-!
# A table with a unique key at READ COMMITTED

The committed rows of a table, and what its open transactions have written.  A statement sees what
is committed when it starts and what its own transaction has written; a row that another open
transaction has inserted or updated is held by it until it ends.

* `Keyed` — the key stays unique, and no two transactions hold one key
* `UniqueIds` — so do the numbers that a sequence gives to new rows
-/

namespace ReadCommitted

/-- A row that a transaction has inserted, or the new version of one that it has updated. -/
structure Write (ρ : Type) where
  tx : Nat
  row : ρ
  isNew : Bool

structure Table (ρ : Type) where
  committed : List ρ
  /-- by the open transactions, in order -/
  written : List (Write ρ)

variable {κ ρ : Type} [DecidableEq κ] (key : ρ → κ)

/-- The rows after a write. -/
def applyWrite (rows : List ρ) (w : Write ρ) : List ρ :=
  if w.isNew then rows ++ [w.row] else rows.map fun r => if key r = key w.row then w.row else r

/-- What an `INSERT` comes to. -/
inductive Inserted (ρ : Type) where
  /-- another open transaction holds the key -/
  | waits
  /-- `IntegrityError` -/
  | conflict
  | inserted (tb : Table ρ)

namespace Table

variable (tb : Table ρ) (t : Nat)

/-- What a statement of transaction `t` sees. -/
def view : List ρ := (tb.written.filter fun w => w.tx == t).foldl (applyWrite key) tb.committed

/-- Another open transaction has written a row with this key. -/
def held (k : κ) : Bool := tb.written.any fun w => w.tx != t && key w.row == k

def write (w : Write ρ) : Table ρ := { tb with written := tb.written ++ [w] }

def insert (new : ρ) : Inserted ρ :=
  if tb.held key t (key new) then .waits
  else if (tb.view key t).any (fun r => key r == key new) then .conflict
  else .inserted (tb.write { tx := t, row := new, isNew := true })

/-- `INSERT .. ON CONFLICT DO UPDATE`; `none` while another open transaction holds the key. -/
def upsert (new : ρ) (change : ρ → ρ) : Option (Table ρ) :=
  if tb.held key t (key new) then none
  else
    match (tb.view key t).find? fun r => key r == key new with
    | none => some (tb.write { tx := t, row := new, isNew := true })
    | some r => some (tb.write { tx := t, row := change r, isNew := false })

def rollback : Table ρ := { tb with written := tb.written.filter fun w => w.tx != t }

def commit : Table ρ :=
  { committed := tb.view key t, written := tb.written.filter fun w => w.tx != t }

/-- A sequence has not given this number to a row yet. -/
def unused {ι : Type} [DecidableEq ι] (idOf : ρ → ι) (i : ι) : Bool :=
  tb.committed.all (fun r => idOf r != i) && tb.written.all fun w => idOf w.row != i

end Table

/-! ## What a transaction sees -/

/-- A write adds the key of a new row, and leaves the others. -/
theorem keys_applyWrite (rows : List ρ) (w : Write ρ) :
    (applyWrite key rows w).map key = rows.map key ++ if w.isNew then [key w.row] else [] := by
  unfold applyWrite
  by_cases hnew : w.isNew = true
  · simp [hnew]
  · have hkeep : (fun r => key (if key r = key w.row then w.row else r)) = key := by
      funext r
      by_cases hr : key r = key w.row
      · rw [if_pos hr, hr]
      · rw [if_neg hr]
    simp only [hnew, Bool.false_eq_true, if_false, List.append_nil, List.map_map]
    exact congrArg (fun f => rows.map f) hkeep

theorem keys_foldl (ws : List (Write ρ)) (rows : List ρ) :
    (ws.foldl (applyWrite key) rows).map key
      = rows.map key ++ (ws.filter fun w => w.isNew).map fun w => key w.row := by
  induction ws generalizing rows with
  | nil => simp
  | cons w ws ih =>
    rw [List.foldl_cons, ih, keys_applyWrite]
    by_cases hnew : w.isNew = true
    · simp [hnew]
    · simp [hnew]

/-- The new version of a row has what it shares with the old one. -/
theorem map_applyWrite_change {β : Type} {f : ρ → β} {rows : List ρ} {r r' : ρ} {t : Nat}
    (hnodup : (rows.map key).Nodup) (hr : r ∈ rows) (hkey : key r' = key r) (hf : f r' = f r) :
    (applyWrite key rows { tx := t, row := r', isNew := false }).map f = rows.map f := by
  simp only [applyWrite, Bool.false_eq_true, if_false, List.map_map]
  refine List.map_congr_left fun x hx => ?_
  by_cases hxr : key x = key r'
  · have heq : x = r := List.inj_on_of_nodup_map hnodup hx hr (hxr.trans hkey)
    rw [Function.comp_apply, if_pos hxr, hf, heq]
  · rw [Function.comp_apply, if_neg hxr]

namespace Table

variable (tb : Table ρ) (t : Nat)

/-- The keys that transaction `t` has added. -/
def newKeys : List κ :=
  ((tb.written.filter fun w => w.tx == t).filter fun w => w.isNew).map fun w => key w.row

theorem keys_view : (tb.view key t).map key = tb.committed.map key ++ tb.newKeys key t :=
  keys_foldl key _ _

/-- A transaction that has written nothing sees what is committed. -/
theorem view_of_idle {t : Nat} (h : ∀ w ∈ tb.written, w.tx ≠ t) : tb.view key t = tb.committed := by
  have hnone : (tb.written.filter fun w => w.tx == t) = [] := by
    rw [List.filter_eq_nil_iff]
    intro w hw
    simpa using h w hw
  rw [view, hnone, List.foldl_nil]

theorem view_write_self (w : Write ρ) :
    (tb.write w).view key w.tx = applyWrite key (tb.view key w.tx) w := by
  simp [view, write, List.filter_append, List.foldl_append]

theorem view_write_other {t : Nat} {w : Write ρ} (h : t ≠ w.tx) :
    (tb.write w).view key t = tb.view key t := by
  simp [view, write, List.filter_append, Ne.symm h]

/-- The writes of a transaction that has ended are gone. -/
theorem rest_self (ws : List (Write ρ)) (t : Nat) :
    (ws.filter fun w => w.tx != t).filter (fun w => w.tx == t) = [] := by
  rw [List.filter_eq_nil_iff]
  intro w hw
  simpa using (List.mem_filter.mp hw).2

/-- Those of the others stay. -/
theorem rest_other (ws : List (Write ρ)) {t t' : Nat} (h : t' ≠ t) :
    (ws.filter fun w => w.tx != t).filter (fun w => w.tx == t')
      = ws.filter fun w => w.tx == t' := by
  rw [List.filter_filter]
  refine List.filter_congr fun w _ => ?_
  by_cases hw : w.tx = t'
  · simp [hw, h]
  · simp [hw]

/-- What other transactions have written was there before. -/
theorem mem_written_of_ne {tb : Table ρ} {w x : Write ρ} (h : x ∈ (tb.write w).written)
    (hne : x.tx ≠ w.tx) : x ∈ tb.written := by
  rcases List.mem_append.mp h with hold | hnew
  · exact hold
  · rw [List.mem_singleton.mp hnew] at hne
    exact absurd rfl hne

theorem view_rollback_self : (tb.rollback t).view key t = tb.committed := by
  rw [view, rollback, rest_self, List.foldl_nil]

theorem view_rollback_other {t t' : Nat} (h : t' ≠ t) :
    (tb.rollback t).view key t' = tb.view key t' := by
  rw [view, rollback, rest_other _ h]
  rfl

theorem mem_foldl_applyWrite (ws : List (Write ρ)) {rows : List ρ} {r : ρ}
    (h : r ∈ ws.foldl (applyWrite key) rows) : r ∈ rows ∨ ∃ w ∈ ws, w.row = r := by
  induction ws generalizing rows with
  | nil => exact Or.inl h
  | cons w ws ih =>
    rcases ih h with hrow | ⟨w', hw', hrow⟩
    · unfold applyWrite at hrow
      split at hrow
      · rcases List.mem_append.mp hrow with hold | hnew
        · exact Or.inl hold
        · exact Or.inr ⟨w, List.mem_cons_self, (List.mem_singleton.mp hnew).symm⟩
      · obtain ⟨x, hx, hxr⟩ := List.mem_map.mp hrow
        split at hxr
        · exact Or.inr ⟨w, List.mem_cons_self, hxr⟩
        · exact Or.inl (hxr ▸ hx)
    · exact Or.inr ⟨w', List.mem_cons_of_mem _ hw', hrow⟩

/-- What a transaction sees has been committed or written. -/
theorem mem_view {r : ρ} (h : r ∈ tb.view key t) :
    r ∈ tb.committed ∨ ∃ w ∈ tb.written, w.row = r := by
  rcases mem_foldl_applyWrite key _ h with hold | ⟨w, hw, hrow⟩
  · exact Or.inl hold
  · exact Or.inr ⟨w, (List.mem_filter.mp hw).1, hrow⟩

theorem held_eq_false_iff {k : κ} :
    tb.held key t k = false ↔ ∀ w ∈ tb.written, key w.row = k → w.tx = t := by
  rw [held, List.any_eq_false]
  refine forall₂_congr fun w _ => ?_
  simp only [Bool.and_eq_true, bne_iff_ne, ne_eq, beq_iff_eq, not_and]
  constructor
  · intro h hk
    by_contra hne
    exact h hne hk
  · exact fun h hne hk => hne (h hk)

/-- A row is inserted under a key that nobody holds and that is not there. -/
theorem insert_inserted {t : Nat} {new : ρ} {tb' : Table ρ}
    (h : tb.insert key t new = .inserted tb') :
    tb.held key t (key new) = false ∧ key new ∉ (tb.view key t).map key ∧
      tb' = tb.write { tx := t, row := new, isNew := true } := by
  unfold insert at h
  split at h
  · cases h
  · next hfree =>
    split at h
    · cases h
    · next hnone =>
      cases h
      exact ⟨by simpa using hfree, by simpa using hnone, rfl⟩

theorem insert_conflict {t : Nat} {new : ρ} (h : tb.insert key t new = .conflict) :
    key new ∈ (tb.view key t).map key := by
  unfold insert at h
  split at h
  · cases h
  · split at h
    · next hsome => simpa using hsome
    · cases h

/-- An upsert that does not wait writes a row under its key: a new one, or what it makes of the one
that it sees. -/
theorem upsert_cases {t : Nat} {new : ρ} {change : ρ → ρ} {tb' : Table ρ}
    (h : tb.upsert key t new change = some tb') :
    tb.held key t (key new) = false ∧
      ((key new ∉ (tb.view key t).map key ∧
          tb' = tb.write { tx := t, row := new, isNew := true }) ∨
        ∃ r ∈ tb.view key t, key r = key new ∧
          tb' = tb.write { tx := t, row := change r, isNew := false }) := by
  unfold upsert at h
  split at h
  · cases h
  · next hfree =>
    refine ⟨by simpa using hfree, ?_⟩
    split at h
    · next hnone =>
      cases h
      exact Or.inl ⟨by simpa using hnone, rfl⟩
    · next r hr =>
      cases h
      exact Or.inr ⟨r, List.mem_of_find?_eq_some hr, by simpa using List.find?_some hr, rfl⟩

/-- The row that an upsert writes has the key that was free, and is held from then on. -/
theorem upsert_write {t : Nat} {new : ρ} {change : ρ → ρ} (hchange : ∀ r, key (change r) = key r)
    {tb' : Table ρ} (h : tb.upsert key t new change = some tb') :
    tb.held key t (key new) = false ∧
      ∃ w : Write ρ, w.tx = t ∧ key w.row = key new ∧ tb' = tb.write w := by
  obtain ⟨hfree, ⟨-, rfl⟩ | ⟨r, -, hkey, rfl⟩⟩ := tb.upsert_cases key h
  · exact ⟨hfree, { tx := t, row := new, isNew := true }, rfl, rfl, rfl⟩
  · exact ⟨hfree, { tx := t, row := change r, isNew := false }, rfl, (hchange r).trans hkey, rfl⟩

/-- An upsert is not seen outside of its transaction. -/
theorem upsert_other {t : Nat} {new : ρ} {change : ρ → ρ} {tb' : Table ρ}
    (h : tb.upsert key t new change = some tb') :
    tb'.committed = tb.committed ∧ ∀ t', t' ≠ t → tb'.view key t' = tb.view key t' := by
  obtain ⟨-, ⟨-, rfl⟩ | ⟨r, -, -, rfl⟩⟩ := tb.upsert_cases key h
  · exact ⟨rfl, fun t' ht =>
      tb.view_write_other key (w := { tx := t, row := new, isNew := true }) ht⟩
  · exact ⟨rfl, fun t' ht =>
      tb.view_write_other key (w := { tx := t, row := change r, isNew := false }) ht⟩

/-- What a transaction sees behind its upsert. -/
theorem view_upsert {t : Nat} {new : ρ} {change : ρ → ρ} (hnodup : ((tb.view key t).map key).Nodup)
    (hchange : ∀ r, key (change r) = key r) {tb' : Table ρ}
    (h : tb.upsert key t new change = some tb') :
    (key new ∈ (tb.view key t).map key ∧ tb'.view key t
        = (tb.view key t).map fun r => if key r = key new then change r else r) ∨
      key new ∉ (tb.view key t).map key ∧ tb'.view key t = tb.view key t ++ [new] := by
  obtain ⟨-, ⟨hnone, rfl⟩ | ⟨r, hr, hkey, rfl⟩⟩ := tb.upsert_cases key h
  · exact Or.inr ⟨hnone, tb.view_write_self key { tx := t, row := new, isNew := true }⟩
  · refine Or.inl ⟨List.mem_map.mpr ⟨r, hr, hkey⟩, ?_⟩
    rw [tb.view_write_self key { tx := t, row := change r, isNew := false }]
    simp only [applyWrite, Bool.false_eq_true, if_false, hchange, hkey]
    refine List.map_congr_left fun x hx => ?_
    by_cases hxk : key x = key new
    · rw [if_pos hxk, if_pos hxk, List.inj_on_of_nodup_map hnodup hx hr (hxk.trans hkey.symm)]
    · rw [if_neg hxk, if_neg hxk]

/-- Nothing waits for a key that nobody else holds. -/
theorem insert_ne_waits {t : Nat} {new : ρ} (hfree : tb.held key t (key new) = false) :
    tb.insert key t new ≠ .waits := by
  unfold insert
  rw [if_neg (by simp [hfree])]
  split
  · simp
  · simp

theorem exists_upsert {t : Nat} (new : ρ) (change : ρ → ρ)
    (hfree : tb.held key t (key new) = false) : ∃ tb', tb.upsert key t new change = some tb' := by
  unfold upsert
  rw [if_neg (by simp [hfree])]
  split
  · exact ⟨_, rfl⟩
  · exact ⟨_, rfl⟩

section Ids

variable {ι : Type} [DecidableEq ι] {idOf : ρ → ι}

theorem not_mem_view_of_unused {i : ι} (h : tb.unused idOf i = true) :
    i ∉ (tb.view key t).map idOf := by
  intro hmem
  rw [unused, Bool.and_eq_true, List.all_eq_true, List.all_eq_true] at h
  obtain ⟨r, hr, rfl⟩ := List.mem_map.mp hmem
  rcases tb.mem_view key t hr with hold | ⟨w, hw, rfl⟩
  · exact bne_iff_ne.mp (h.1 r hold) rfl
  · exact bne_iff_ne.mp (h.2 w hw) rfl

/-- The sequence never runs out of numbers. -/
theorem exists_unused [Infinite ι] (idOf : ρ → ι) : ∃ i, tb.unused idOf i = true := by
  obtain ⟨i, hi⟩ := Infinite.exists_notMem_finset
    (tb.committed.map idOf ++ tb.written.map fun w => idOf w.row).toFinset
  rw [List.mem_toFinset, List.mem_append, not_or] at hi
  refine ⟨i, ?_⟩
  rw [unused, Bool.and_eq_true, List.all_eq_true, List.all_eq_true]
  constructor
  · intro r hr
    exact bne_iff_ne.mpr fun heq => hi.1 (heq ▸ List.mem_map_of_mem hr)
  · intro w hw
    exact bne_iff_ne.mpr fun heq => hi.2 (heq ▸ List.mem_map_of_mem (f := fun w => idOf w.row) hw)

end Ids

end Table

/-! ## The key stays unique -/

structure Keyed (tb : Table ρ) : Prop where
  nodup : ∀ t, ((tb.view key t).map key).Nodup
  /-- no two transactions hold one key -/
  exclusive : ∀ w ∈ tb.written, ∀ w' ∈ tb.written, key w.row = key w'.row → w.tx = w'.tx

namespace Keyed

variable {key} {tb : Table ρ} {t : Nat}

theorem start {rows : List ρ} (h : (rows.map key).Nodup) :
    Keyed key { committed := rows, written := [] } where
  nodup _ := h
  exclusive _ hw := nomatch hw

theorem committed_nodup (h : Keyed key tb) : (tb.committed.map key).Nodup := by
  have hview := h.nodup 0
  rw [Table.keys_view] at hview
  exact hview.of_append_left

theorem exclusive_write (h : Keyed key tb) {w : Write ρ}
    (hfree : tb.held key w.tx (key w.row) = false) :
    ∀ w₁ ∈ (tb.write w).written, ∀ w₂ ∈ (tb.write w).written, key w₁.row = key w₂.row →
      w₁.tx = w₂.tx := by
  have hmine := (tb.held_eq_false_iff key w.tx).mp hfree
  intro w₁ hw₁ w₂ hw₂ heq
  rcases List.mem_append.mp hw₁ with h₁ | h₁
  · rcases List.mem_append.mp hw₂ with h₂ | h₂
    · exact h.exclusive w₁ h₁ w₂ h₂ heq
    · rw [List.mem_singleton.mp h₂] at heq ⊢
      exact hmine w₁ h₁ heq
  · rw [List.mem_singleton.mp h₁] at heq ⊢
    rcases List.mem_append.mp hw₂ with h₂ | h₂
    · exact (hmine w₂ h₂ heq.symm).symm
    · rw [List.mem_singleton.mp h₂]

/-- A row under a key that the transaction does not see and no other holds. -/
theorem write_new (h : Keyed key tb) {new : ρ} (hfree : tb.held key t (key new) = false)
    (hnone : key new ∉ (tb.view key t).map key) :
    Keyed key (tb.write { tx := t, row := new, isNew := true }) where
  nodup t' := by
    by_cases ht : t' = t
    · subst ht
      rw [tb.view_write_self key { tx := t', row := new, isNew := true }, keys_applyWrite]
      simp only [if_true]
      exact List.Nodup.append (h.nodup t') (List.nodup_singleton _)
        (by simpa using hnone)
    · rw [tb.view_write_other key (w := { tx := t, row := new, isNew := true }) ht]
      exact h.nodup t'
  exclusive := h.exclusive_write (w := { tx := t, row := new, isNew := true }) hfree

/-- A new version of a row. -/
theorem write_change (h : Keyed key tb) {row : ρ} (hfree : tb.held key t (key row) = false) :
    Keyed key (tb.write { tx := t, row := row, isNew := false }) where
  nodup t' := by
    by_cases ht : t' = t
    · subst ht
      rw [tb.view_write_self key { tx := t', row := row, isNew := false }, keys_applyWrite]
      simpa using h.nodup t'
    · rw [tb.view_write_other key (w := { tx := t, row := row, isNew := false }) ht]
      exact h.nodup t'
  exclusive := h.exclusive_write (w := { tx := t, row := row, isNew := false }) hfree

theorem upsert (h : Keyed key tb) {new : ρ} {change : ρ → ρ} (hchange : ∀ r, key (change r) = key r)
    {tb' : Table ρ} (hup : tb.upsert key t new change = some tb') : Keyed key tb' := by
  obtain ⟨hfree, hcase⟩ := tb.upsert_cases key hup
  rcases hcase with ⟨hnone, rfl⟩ | ⟨r, -, hkey, rfl⟩
  · exact h.write_new hfree hnone
  · exact h.write_change (by rwa [hchange, hkey])

theorem rollback (h : Keyed key tb) (t : Nat) : Keyed key (tb.rollback t) where
  nodup t' := by
    by_cases ht : t' = t
    · subst ht
      rw [Table.keys_view, Table.newKeys, Table.rollback, Table.rest_self]
      simpa using h.committed_nodup
    · rw [Table.keys_view, Table.newKeys, Table.rollback, Table.rest_other _ ht]
      have hview := h.nodup t'
      rwa [Table.keys_view] at hview
  exclusive w hw w' hw' :=
    h.exclusive w (List.mem_filter.mp hw).1 w' (List.mem_filter.mp hw').1

/-- A commit publishes keys that nobody else is about to add. -/
theorem commit (h : Keyed key tb) (t : Nat) : Keyed key (tb.commit key t) where
  nodup t' := by
    by_cases ht : t' = t
    · subst ht
      rw [Table.keys_view, Table.newKeys, Table.commit, Table.rest_self]
      simpa using h.nodup t'
    · rw [Table.keys_view, Table.newKeys, Table.commit, Table.rest_other _ ht]
      have hother := h.nodup t'
      rw [Table.keys_view] at hother
      show ((tb.view key t).map key ++ tb.newKeys key t').Nodup
      refine List.Nodup.append (h.nodup t) hother.of_append_right ?_
      rw [Table.keys_view, List.disjoint_append_left]
      refine ⟨List.disjoint_of_nodup_append hother, ?_⟩
      intro k hk hk'
      obtain ⟨w, hw, rfl⟩ := List.mem_map.mp hk
      obtain ⟨w', hw', heq⟩ := List.mem_map.mp hk'
      obtain ⟨hmem, htx⟩ := List.mem_filter.mp (List.mem_filter.mp hw).1
      obtain ⟨hmem', htx'⟩ := List.mem_filter.mp (List.mem_filter.mp hw').1
      have hsame := h.exclusive w' hmem' w hmem heq
      rw [beq_iff_eq.mp htx, beq_iff_eq.mp htx'] at hsame
      exact ht hsame
  exclusive w hw w' hw' :=
    h.exclusive w (List.mem_filter.mp hw).1 w' (List.mem_filter.mp hw').1

end Keyed

/-! ## Numbers from a sequence -/

/-- The numbers of the rows are unique, as committed and as any transaction sees them. -/
structure UniqueIds {ι : Type} (idOf : ρ → ι) (tb : Table ρ) : Prop where
  committed : (tb.committed.map idOf).Nodup
  view : ∀ t, ((tb.view key t).map idOf).Nodup

namespace UniqueIds

variable {key} {ι : Type} {idOf : ρ → ι} {tb : Table ρ}

theorem start {rows : List ρ} (h : (rows.map idOf).Nodup) :
    UniqueIds key idOf { committed := rows, written := [] } where
  committed := h
  view _ := h

theorem upsert [DecidableEq ι] (h : UniqueIds key idOf tb) (hkeyed : Keyed key tb) {t : Nat}
    {new : ρ} {change : ρ → ρ} (hunused : tb.unused idOf (idOf new) = true)
    (hchange : ∀ r, key (change r) = key r) (hid : ∀ r, idOf (change r) = idOf r) {tb' : Table ρ}
    (hup : tb.upsert key t new change = some tb') : UniqueIds key idOf tb' := by
  rcases (tb.upsert_cases key hup).2 with ⟨-, rfl⟩ | ⟨r, hr, -, rfl⟩
  · refine ⟨h.committed, fun t' => ?_⟩
    by_cases ht : t' = t
    · subst ht
      rw [tb.view_write_self key { tx := t', row := new, isNew := true }]
      simp only [applyWrite, if_true, List.map_append, List.map_cons, List.map_nil]
      refine List.Nodup.append (h.view t') (List.nodup_singleton _) ?_
      simpa using tb.not_mem_view_of_unused key t' hunused
    · rw [tb.view_write_other key (w := { tx := t, row := new, isNew := true }) ht]
      exact h.view t'
  · refine ⟨h.committed, fun t' => ?_⟩
    by_cases ht : t' = t
    · subst ht
      rw [tb.view_write_self key { tx := t', row := change r, isNew := false },
        map_applyWrite_change key (hkeyed.nodup t') hr (hchange r) (hid r)]
      exact h.view t'
    · rw [tb.view_write_other key (w := { tx := t, row := change r, isNew := false }) ht]
      exact h.view t'

theorem rollback (h : UniqueIds key idOf tb) (t : Nat) : UniqueIds key idOf (tb.rollback t) where
  committed := h.committed
  view t' := by
    by_cases ht : t' = t
    · rw [ht, tb.view_rollback_self]
      exact h.committed
    · rw [tb.view_rollback_other key ht]
      exact h.view t'

/-- The commit of the only transaction that has written anything. -/
theorem commit (h : UniqueIds key idOf tb) {t : Nat} (halone : ∀ w ∈ tb.written, w.tx = t) :
    UniqueIds key idOf (tb.commit key t) := by
  refine ⟨h.view t, fun t' => ?_⟩
  rw [Table.view_of_idle]
  · exact h.view t
  · intro w hw
    obtain ⟨hmem, hne⟩ := List.mem_filter.mp hw
    exact absurd (halone w hmem) (by simpa using hne)

end UniqueIds

end ReadCommitted
