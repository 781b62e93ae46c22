import Mathlib.Data.List.Nodup

/-!
# Rows that are inserted or updated

`INSERT .. ON CONFLICT (key) DO UPDATE SET ..` on a table that is the list of its rows, and a list
of such statements with different keys.

* `upsertAll_eq` — what is left of a table: its rows, retouched, and rows with the missing keys
* `nodup_key_upsertAll`, `nodup_ident_upsertAll` — the unique columns stay unique
* `upsertAll_upsertAll` — the second time, nothing changes
* `Upserted.update`, `Upserted.insert` — the same, by statement, whatever the new rows hold
-/

namespace Upsert

/-- A table: its unique key, what an update writes into a row, and the row that is inserted. -/
structure Table (α κ δ ι : Type) where
  key : α → κ
  ident : α → ι
  set : δ → α → α
  fresh : List α → κ → δ → α
  key_set : ∀ d r, key (set d r) = key r
  ident_set : ∀ d r, ident (set d r) = ident r
  set_set : ∀ d r, set d (set d r) = set d r
  key_fresh : ∀ rows k d, key (fresh rows k d) = k
  set_fresh : ∀ rows k d, set d (fresh rows k d) = fresh rows k d
  ident_fresh : ∀ rows k d, ident (fresh rows k d) ∉ rows.map ident

namespace Table

variable {α κ δ ι : Type} [DecidableEq κ] (T : Table α κ δ ι)

/-- One statement. -/
def upsert (rows : List α) (k : κ) (d : δ) : List α :=
  if k ∈ rows.map T.key then rows.map fun r => if T.key r = k then T.set d r else r
  else rows ++ [T.fresh rows k d]

/-- A statement for each entry of a list. -/
@[irreducible]
def upsertAll (rows : List α) (seed : List (κ × δ)) : List α :=
  seed.foldl (fun rows x => T.upsert rows x.1 x.2) rows

@[simp] theorem upsertAll_nil (rows : List α) : T.upsertAll rows [] = rows := by
  unfold upsertAll
  rfl

theorem upsertAll_cons (rows : List α) (x : κ × δ) (seed : List (κ × δ)) :
    T.upsertAll rows (x :: seed) = T.upsertAll (T.upsert rows x.1 x.2) seed := by
  unfold upsertAll
  rfl

/-- What the updates make of a row. -/
def retouch (seed : List (κ × δ)) (r : α) : α :=
  match seed.lookup (T.key r) with
  | none => r
  | some d => T.set d r

@[simp] theorem key_retouch (seed : List (κ × δ)) (r : α) : T.key (T.retouch seed r) = T.key r := by
  unfold retouch
  split
  · rfl
  · exact T.key_set _ r

@[simp] theorem ident_retouch (seed : List (κ × δ)) (r : α) :
    T.ident (T.retouch seed r) = T.ident r := by
  unfold retouch
  split
  · rfl
  · exact T.ident_set _ r

@[simp] theorem retouch_retouch (seed : List (κ × δ)) (r : α) :
    T.retouch seed (T.retouch seed r) = T.retouch seed r := by
  cases h : seed.lookup (T.key r) with
  | none =>
    have hr : T.retouch seed r = r := by rw [retouch, h]
    rw [hr, hr]
  | some d =>
    have hr : T.retouch seed r = T.set d r := by rw [retouch, h]
    rw [hr, retouch, T.key_set, h]
    exact T.set_set d r

theorem lookup_eq_none_iff {seed : List (κ × δ)} {k : κ} :
    seed.lookup k = none ↔ k ∉ seed.map Prod.fst := by
  rw [List.lookup_eq_none_iff]
  constructor
  · intro h hmem
    obtain ⟨x, hx, rfl⟩ := List.mem_map.mp hmem
    simpa using h x hx
  · intro h x hx
    rw [bne_iff_ne]
    rintro rfl
    exact h (List.mem_map.mpr ⟨x, hx, rfl⟩)

theorem retouch_of_notMem {seed : List (κ × δ)} {r : α} (h : T.key r ∉ seed.map Prod.fst) :
    T.retouch seed r = r := by
  unfold retouch
  rw [lookup_eq_none_iff.mpr h]

theorem retouch_cons_of_ne {k : κ} {d : δ} (seed : List (κ × δ)) {r : α} (hr : T.key r ≠ k) :
    T.retouch ((k, d) :: seed) r = T.retouch seed r := by
  unfold retouch
  rw [List.lookup_cons, beq_eq_false_iff_ne.mpr hr]

/-- An update in front of updates of other keys. -/
theorem retouch_cons {k : κ} {d : δ} {seed : List (κ × δ)} (hk : k ∉ seed.map Prod.fst) (r : α) :
    T.retouch seed (if T.key r = k then T.set d r else r) = T.retouch ((k, d) :: seed) r := by
  by_cases hr : T.key r = k
  · have hnone : T.key (T.set d r) ∉ seed.map Prod.fst := by rwa [T.key_set, hr]
    rw [if_pos hr, T.retouch_of_notMem hnone, retouch, hr, List.lookup_cons_self]
  · rw [if_neg hr, T.retouch_cons_of_ne seed hr]

/-- An inserted row has what a statement for its key would give it. -/
theorem retouch_cons_fresh (rows : List α) {k : κ} (d : δ) {seed : List (κ × δ)}
    (hk : k ∉ seed.map Prod.fst) :
    T.retouch ((k, d) :: seed) (T.fresh rows k d) = T.fresh rows k d := by
  have hnone : T.key (T.fresh rows k d) ∉ seed.map Prod.fst := by rwa [T.key_fresh]
  rw [← T.retouch_cons hk, T.key_fresh, if_pos rfl, T.set_fresh, T.retouch_of_notMem hnone]

/-! ## A list of statements -/

theorem map_key_update (k : κ) (d : δ) (rows : List α) :
    (rows.map fun r => if T.key r = k then T.set d r else r).map T.key = rows.map T.key := by
  rw [List.map_map]
  refine List.map_congr_left fun r _ => ?_
  simp only [Function.comp_apply]
  split
  · exact T.key_set d r
  · rfl

/-- The rows that a list of statements adds, one for every key that was missing. -/
def Adds (rows : List α) (seed : List (κ × δ)) (added : List α) : Prop :=
  added.map T.key = (seed.map Prod.fst).filter (fun k => k ∉ rows.map T.key) ∧
    ∀ r ∈ added, T.retouch seed r = r

/-- A statement for another key does not concern the added rows. -/
theorem Adds.retouch_cons {T : Table α κ δ ι} {rows : List α} {k : κ} {d : δ}
    {seed : List (κ × δ)} {added : List α} (h : T.Adds rows seed added)
    (hk : k ∉ seed.map Prod.fst) : ∀ r ∈ added, T.retouch ((k, d) :: seed) r = r := by
  obtain ⟨hkeys, hfix⟩ := h
  intro r hr
  have hmem : T.key r ∈ added.map T.key := List.mem_map.mpr ⟨r, hr, rfl⟩
  have hne : T.key r ≠ k := by
    rintro rfl
    rw [hkeys] at hmem
    exact hk (List.mem_of_mem_filter hmem)
  rw [T.retouch_cons_of_ne seed hne, hfix r hr]

/--
**What a list of statements leaves of a table**: its rows in their places, and behind them one row
for every key that was missing.
-/
theorem upsertAll_eq {seed : List (κ × δ)} (hseed : (seed.map Prod.fst).Nodup) (rows : List α) :
    ∃ added, T.upsertAll rows seed = rows.map (T.retouch seed) ++ added ∧
      T.Adds rows seed added := by
  induction seed generalizing rows with
  | nil =>
    refine ⟨[], ?_, rfl, fun r hr => absurd hr List.not_mem_nil⟩
    have hid : ∀ r ∈ rows, T.retouch ([] : List (κ × δ)) r = r := fun r _ => rfl
    rw [List.append_nil, List.map_congr_left hid, List.map_id', upsertAll_nil]
  | cons x seed ih =>
    obtain ⟨k, d⟩ := x
    rw [List.map_cons, List.nodup_cons] at hseed
    obtain ⟨hk, hseed⟩ := hseed
    rw [upsertAll_cons]
    unfold upsert
    split
    next hin =>
      -- the rest of the statements find the same keys
      obtain ⟨added, heq, hadds⟩ :=
        ih hseed (rows.map fun r => if T.key r = k then T.set d r else r)
      refine ⟨added, ?_, ?_, hadds.retouch_cons hk⟩
      · rw [heq, List.map_map]
        congr 1
        exact List.map_congr_left fun r _ => T.retouch_cons hk r
      · rw [hadds.1, T.map_key_update, List.map_cons, List.filter_cons_of_neg]
        simpa using hin
    next hout =>
      -- the new row is the first one added; no later statement has its key
      obtain ⟨added, heq, hadds⟩ := ih hseed (rows ++ [T.fresh rows k d])
      have hfresh : T.retouch seed (T.fresh rows k d) = T.fresh rows k d := by
        refine T.retouch_of_notMem ?_
        rwa [T.key_fresh]
      refine ⟨T.fresh rows k d :: added, ?_, ?_, ?_⟩
      · rw [heq, List.map_append, List.map_cons, List.map_nil, hfresh, List.append_assoc,
          List.singleton_append]
        congr 1
        refine List.map_congr_left fun r hr => (T.retouch_cons_of_ne seed ?_).symm
        rintro rfl
        exact hout (List.mem_map.mpr ⟨r, hr, rfl⟩)
      · rw [List.map_cons, T.key_fresh, hadds.1, List.map_cons,
          List.filter_cons_of_pos (by simpa using hout)]
        congr 1
        refine List.filter_congr fun k' hk' => ?_
        have hne : k' ≠ k := by
          rintro rfl
          exact hk hk'
        simp [T.key_fresh, hne]
      · intro r hr
        rcases List.mem_cons.mp hr with rfl | hr
        · exact T.retouch_cons_fresh rows d hk
        · exact hadds.retouch_cons hk r hr

/-! ## What follows for the columns -/

/-- What the statements of a list leave, whatever else than their key and the update is in the new
rows. -/
def Upserted (rows : List α) (seed : List (κ × δ)) (rows' : List α) : Prop :=
  ∃ added, rows' = rows.map (T.retouch seed) ++ added ∧ T.Adds rows seed added

section Columns

variable {rows : List α} {seed : List (κ × δ)}

theorem map_key_retouch (rows : List α) :
    (rows.map (T.retouch seed)).map T.key = rows.map T.key := by
  rw [List.map_map]
  exact List.map_congr_left fun r _ => T.key_retouch seed r

theorem lookup_eq_some_of_mem (hseed : (seed.map Prod.fst).Nodup) {k : κ} {d : δ}
    (hmem : (k, d) ∈ seed) : seed.lookup k = some d := by
  induction seed with
  | nil => cases hmem
  | cons x seed ih =>
    obtain ⟨k', d'⟩ := x
    rw [List.map_cons, List.nodup_cons] at hseed
    rcases List.mem_cons.mp hmem with heq | htail
    · cases heq
      exact List.lookup_cons_self
    · have hne : k ≠ k' := by
        rintro rfl
        exact hseed.1 (List.mem_map.mpr ⟨_, htail, rfl⟩)
      rw [List.lookup_cons, beq_eq_false_iff_ne.mpr hne]
      exact ih hseed.2 htail

namespace Upserted

variable {T} {rows' : List α}

theorem mem_key (h : T.Upserted rows seed rows') {k : κ} :
    k ∈ rows'.map T.key ↔ k ∈ rows.map T.key ∨ k ∈ seed.map Prod.fst := by
  obtain ⟨added, heq, hkeys, -⟩ := h
  rw [heq, List.map_append, T.map_key_retouch, hkeys, List.mem_append, List.mem_filter,
    decide_eq_true_iff]
  constructor
  · rintro (h | h)
    · exact Or.inl h
    · exact Or.inr h.1
  · rintro (h | h)
    · exact Or.inl h
    · by_cases hr : k ∈ rows.map T.key
      · exact Or.inl hr
      · exact Or.inr ⟨h, hr⟩

theorem nodup_key (h : T.Upserted rows seed rows') (hseed : (seed.map Prod.fst).Nodup)
    (hrows : (rows.map T.key).Nodup) : (rows'.map T.key).Nodup := by
  obtain ⟨added, heq, hkeys, -⟩ := h
  rw [heq, List.map_append, T.map_key_retouch, hkeys, List.nodup_append]
  refine ⟨hrows, hseed.filter _, fun k hk k' hk' => ?_⟩
  rintro rfl
  simpa [hk] using (List.mem_filter.mp hk').2

/-- Every row is still there, and the update is all that has happened to it. -/
theorem exists_mem (h : T.Upserted rows seed rows') {r : α} (hr : r ∈ rows) :
    T.retouch seed r ∈ rows' := by
  obtain ⟨added, heq, -⟩ := h
  rw [heq]
  exact List.mem_append_left added (List.mem_map.mpr ⟨r, hr, rfl⟩)

/-- Rows of other keys are neither changed nor added. -/
theorem filter_other (h : T.Upserted rows seed rows') {p : α → Bool}
    (hp : ∀ r, p r = true ↔ T.key r ∉ seed.map Prod.fst) : rows'.filter p = rows.filter p := by
  obtain ⟨added, heq, hkeys, -⟩ := h
  have hnone : added.filter p = [] := by
    rw [List.filter_eq_nil_iff]
    intro r hr hother
    have hmem : T.key r ∈ added.map T.key := List.mem_map.mpr ⟨r, hr, rfl⟩
    rw [hkeys] at hmem
    exact (hp r).mp hother (List.mem_of_mem_filter hmem)
  have hsame : ∀ r, (p ∘ T.retouch seed) r = p r := by
    intro r
    rw [Function.comp_apply, Bool.eq_iff_iff, hp, hp, T.key_retouch]
  rw [heq, List.filter_append, hnone, List.append_nil, List.filter_map]
  calc (rows.filter (p ∘ T.retouch seed)).map (T.retouch seed)
      = (rows.filter p).map (T.retouch seed) := by rw [List.filter_congr fun r _ => hsame r]
    _ = (rows.filter p).map id := List.map_congr_left fun r hr =>
        T.retouch_of_notMem ((hp r).mp (List.mem_filter.mp hr).2)
    _ = rows.filter p := List.map_id _

/-- A row that is left is as the statements have it. -/
theorem retouch_eq (h : T.Upserted rows seed rows') {r : α} (hr : r ∈ rows') :
    T.retouch seed r = r := by
  obtain ⟨added, heq, -, hfix⟩ := h
  rw [heq, List.mem_append] at hr
  rcases hr with hr | hr
  · obtain ⟨r₀, -, rfl⟩ := List.mem_map.mp hr
    exact T.retouch_retouch seed r₀
  · exact hfix r hr

/-- **Each key of the list has one row, and its update has been made.** -/
theorem exists_unique (h : T.Upserted rows seed rows') (hseed : (seed.map Prod.fst).Nodup)
    (hrows : (rows.map T.key).Nodup) {k : κ} {d : δ} (hmem : (k, d) ∈ seed) :
    ∃ r ∈ rows', T.key r = k ∧ T.set d r = r ∧ ∀ r' ∈ rows', T.key r' = k → r' = r := by
  have hk : k ∈ rows'.map T.key := h.mem_key.mpr (Or.inr (List.mem_map.mpr ⟨_, hmem, rfl⟩))
  obtain ⟨r, hr, hkey⟩ := List.mem_map.mp hk
  have hset : T.set d r = r := by
    have hfix := h.retouch_eq hr
    rwa [retouch, hkey, lookup_eq_some_of_mem hseed hmem] at hfix
  refine ⟨r, hr, hkey, hset, fun r' hr' hkey' => ?_⟩
  exact List.inj_on_of_nodup_map (h.nodup_key hseed hrows) hr' hr (hkey'.trans hkey.symm)

/-- What is left is what the same statements would leave of it. -/
theorem settled (h : T.Upserted rows seed rows') : T.Upserted rows' seed rows' := by
  refine ⟨[], ?_, ?_, fun r hr => nomatch hr⟩
  · calc rows' = rows'.map id := (List.map_id _).symm
      _ = rows'.map (T.retouch seed) :=
          List.map_congr_left fun r hr => (h.retouch_eq hr).symm
      _ = rows'.map (T.retouch seed) ++ [] := (List.append_nil _).symm
  · refine Eq.symm (List.filter_eq_nil_iff.mpr fun k hk => ?_)
    simp only [decide_not, Bool.not_eq_true', decide_eq_false_iff_not, not_not]
    exact h.mem_key.mpr (Or.inr hk)

/-- **The second time, nothing changes.** -/
theorem again {rows'' : List α} (h : T.Upserted rows seed rows')
    (h' : T.Upserted rows' seed rows'') : rows'' = rows' := by
  obtain ⟨added, heq, hkeys, -⟩ := h'
  have hnone : added = [] := by
    rw [← List.map_eq_nil_iff (f := T.key), hkeys, List.filter_eq_nil_iff]
    intro k hk
    simp only [decide_not, Bool.not_eq_true', decide_eq_false_iff_not, not_not]
    exact h.mem_key.mpr (Or.inr hk)
  rw [heq, hnone, List.append_nil]
  calc rows'.map (T.retouch seed) = rows'.map id :=
        List.map_congr_left fun r hr => h.retouch_eq hr
    _ = rows' := List.map_id _

end Upserted

theorem nodup_key_upsertAll (hseed : (seed.map Prod.fst).Nodup) (hrows : (rows.map T.key).Nodup) :
    ((T.upsertAll rows seed).map T.key).Nodup :=
  Upserted.nodup_key (T.upsertAll_eq hseed rows) hseed hrows

theorem nodup_ident_upsert (hrows : (rows.map T.ident).Nodup) (k : κ) (d : δ) :
    ((T.upsert rows k d).map T.ident).Nodup := by
  unfold upsert
  split
  · rw [List.map_map]
    refine (List.map_congr_left fun r _ => ?_) ▸ hrows
    simp only [Function.comp_apply]
    split
    · exact (T.ident_set d r).symm
    · rfl
  · rw [List.map_append, List.map_cons, List.map_nil, List.nodup_append]
    refine ⟨hrows, List.nodup_singleton _, fun i hi j hj => ?_⟩
    rw [List.mem_singleton.mp hj]
    rintro rfl
    exact T.ident_fresh rows k d hi

theorem nodup_ident_upsertAll (hrows : (rows.map T.ident).Nodup) :
    ((T.upsertAll rows seed).map T.ident).Nodup := by
  induction seed generalizing rows with
  | nil => rwa [upsertAll_nil]
  | cons x seed ih =>
    rw [upsertAll_cons]
    exact ih (T.nodup_ident_upsert hrows x.1 x.2)

theorem exists_mem_upsertAll (hseed : (seed.map Prod.fst).Nodup) {r : α} (hr : r ∈ rows) :
    T.retouch seed r ∈ T.upsertAll rows seed :=
  Upserted.exists_mem (T.upsertAll_eq hseed rows) hr

theorem filter_other_upsertAll (hseed : (seed.map Prod.fst).Nodup) {p : α → Bool}
    (hp : ∀ r, p r = true ↔ T.key r ∉ seed.map Prod.fst) (rows : List α) :
    (T.upsertAll rows seed).filter p = rows.filter p :=
  Upserted.filter_other (T.upsertAll_eq hseed rows) hp

theorem exists_unique_upsertAll (hseed : (seed.map Prod.fst).Nodup)
    (hrows : (rows.map T.key).Nodup) {k : κ} {d : δ} (hmem : (k, d) ∈ seed) :
    ∃ r ∈ T.upsertAll rows seed, T.key r = k ∧ T.set d r = r ∧
      ∀ r' ∈ T.upsertAll rows seed, T.key r' = k → r' = r :=
  Upserted.exists_unique (T.upsertAll_eq hseed rows) hseed hrows hmem

theorem upsertAll_upsertAll (hseed : (seed.map Prod.fst).Nodup) (rows : List α) :
    T.upsertAll (T.upsertAll rows seed) seed = T.upsertAll rows seed :=
  Upserted.again (T.upsertAll_eq hseed rows) (T.upsertAll_eq hseed _)

end Columns

/-! ## One statement more -/

namespace Upserted

variable {T} {rows rows' : List α} {seed : List (κ × δ)} {k : κ} {d : δ}

theorem nil (T : Table α κ δ ι) (rows : List α) : T.Upserted rows [] rows := by
  refine ⟨[], ?_, rfl, fun r hr => nomatch hr⟩
  have hid : ∀ r ∈ rows, T.retouch ([] : List (κ × δ)) r = r := fun r _ => rfl
  rw [List.append_nil, List.map_congr_left hid, List.map_id']

/-- An update behind updates of other keys. -/
theorem retouch_concat (hk : k ∉ seed.map Prod.fst) (r : α) :
    T.retouch (seed ++ [(k, d)]) r = if T.key r = k then T.set d r else T.retouch seed r := by
  by_cases hr : T.key r = k
  · rw [if_pos hr, retouch, hr, List.lookup_append, lookup_eq_none_iff.mpr hk, Option.none_or,
      List.lookup_cons_self]
  · rw [if_neg hr, retouch, retouch, List.lookup_append, List.lookup_cons,
      beq_eq_false_iff_ne.mpr hr, List.lookup_nil, Option.or_none]

/-- The added rows are none of another key's. -/
theorem key_ne_of_added {added : List α} (hadds : T.Adds rows seed added)
    (hk : k ∉ seed.map Prod.fst) : ∀ r ∈ added, T.key r ≠ k := by
  rintro r hr rfl
  have hmem : T.key r ∈ added.map T.key := List.mem_map.mpr ⟨r, hr, rfl⟩
  rw [hadds.1] at hmem
  exact hk (List.mem_of_mem_filter hmem)

theorem retouch_added {added : List α} (hadds : T.Adds rows seed added)
    (hk : k ∉ seed.map Prod.fst) : ∀ r ∈ added, T.retouch (seed ++ [(k, d)]) r = r := by
  intro r hr
  rw [retouch_concat hk, if_neg (key_ne_of_added hadds hk r hr), hadds.2 r hr]

/-- The key is there. -/
theorem update (h : T.Upserted rows seed rows') (hk : k ∉ seed.map Prod.fst)
    (hin : k ∈ rows'.map T.key) :
    T.Upserted rows (seed ++ [(k, d)]) (rows'.map fun r => if T.key r = k then T.set d r else r) := by
  have hold : k ∈ rows.map T.key := (h.mem_key.mp hin).resolve_right hk
  obtain ⟨added, rfl, hadds⟩ := h
  refine ⟨added, ?_, ?_, retouch_added hadds hk⟩
  · rw [List.map_append, List.map_map]
    congr 1
    · refine List.map_congr_left fun r _ => ?_
      rw [Function.comp_apply, T.key_retouch, retouch_concat hk]
      by_cases hr : T.key r = k
      · rw [if_pos hr, if_pos hr, T.retouch_of_notMem (hr ▸ hk)]
      · rw [if_neg hr, if_neg hr]
    · refine (List.map_congr_left fun r hr => ?_).trans (List.map_id added)
      exact if_neg (key_ne_of_added hadds hk r hr)
  · rw [hadds.1, List.map_append, List.filter_append, List.map_cons, List.map_nil,
      List.filter_cons_of_neg (by simpa using hold), List.filter_nil, List.append_nil]

/-- It is not, and the row that is inserted is as an update would have it. -/
theorem insert {new : α} (h : T.Upserted rows seed rows') (hk : k ∉ seed.map Prod.fst)
    (hout : k ∉ rows'.map T.key) (hkey : T.key new = k) (hset : T.set d new = new) :
    T.Upserted rows (seed ++ [(k, d)]) (rows' ++ [new]) := by
  have hnew : k ∉ rows.map T.key := fun hold => hout (h.mem_key.mpr (Or.inl hold))
  obtain ⟨added, rfl, hadds⟩ := h
  refine ⟨added ++ [new], ?_, ?_, ?_⟩
  · rw [List.append_assoc]
    congr 1
    refine List.map_congr_left fun r hr => ?_
    rw [retouch_concat hk, if_neg]
    rintro rfl
    exact hnew (List.mem_map.mpr ⟨r, hr, rfl⟩)
  · rw [List.map_append, hadds.1, List.map_append, List.filter_append, List.map_cons, List.map_nil,
      List.map_cons, List.map_nil, hkey, List.filter_cons_of_pos (by simpa using hnew),
      List.filter_nil]
  · intro r hr
    rcases List.mem_append.mp hr with hr | hr
    · exact retouch_added hadds hk r hr
    · rw [List.mem_singleton.mp hr, retouch_concat hk, if_pos hkey, hset]

end Upserted

end Table

end Upsert
