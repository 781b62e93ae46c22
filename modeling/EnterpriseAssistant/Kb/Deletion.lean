import EnterpriseAssistant.Kb.Machine

/-!
# Is deletion final?

No operation takes up an asset that it has loaded as deleted, and none looks at the status again
before it writes.  So deletion is final as long as no deletion commits between the select of an
operation and its block, when that block writes another status.

* `Inv.step` — what an operation has loaded is live until a deletion commits behind its select
* `deletion_final_iff` — the runs in which deletion is final
-/

namespace EnterpriseAssistant.Kb.Machine

open Py Core Infra Kb Interleaving System

/-- The asset is there, and deleted. -/
def Deleted (db : Database) (assetId : Int) : Prop :=
  ∃ a, assetById db assetId = some a ∧ a.status = .deleted

/-- A step takes no asset out of deletion. -/
def DeletionKept (c : KbConfig) (_ : Event Choice Empty) (c' : KbConfig) : Prop :=
  ∀ assetId, Deleted c.shared assetId → Deleted c'.shared assetId

/-- A deletion of the asset has committed since the last select of operation `t`. -/
def deletedSince (t : Nat) (assetId : Int) : List Obs → Bool
  | [] => false
  | .loaded t' _ :: h => t' != t && deletedSince t assetId h
  | .stored _ id status :: h => (id == assetId && status == .deleted) || deletedSince t assetId h

/-- Operation `t` is about to flush `new`, which it has loaded as `loaded`. -/
def Pending (guessType : Str → Option Str) (c : KbConfig) (t : Nat) (loaded new : KBAsset) : Prop :=
  ∃ th, c.threads[t]? = some th ∧ th.write guessType = some (loaded, new)

/-- A block that is about to write another status than it has loaded, other than `deleted`, is not
behind a deletion. -/
def StoresInTime (guessType : Str → Option Str) (c : KbConfig) (e : Event Choice Empty)
    (_ : KbConfig) : Prop :=
  ∀ t now loaded new, e = .run t (.go now) → Pending guessType c t loaded new →
    new.status ≠ loaded.status → new.status ≠ .deleted →
      deletedSince t loaded.id c.history = false

/-! ## Rows and statuses -/

theorem deleted_iff {db : Database} {assetId : Int} :
    Deleted db assetId ↔ statusOf db assetId = some .deleted := by
  rw [statusOf, Option.map_eq_some_iff]
  rfl

theorem deleted_congr {db db' : Database} (h : db'.assets = db.assets) (assetId : Int) :
    Deleted db' assetId ↔ Deleted db assetId := by
  rw [deleted_iff, deleted_iff, statusOf_congr h]

/-- A flush leaves the other assets. -/
theorem deleted_storedIn_of_ne {loaded new : KBAsset} {db : Database} {assetId : Int}
    (h : assetId ≠ loaded.id) : Deleted (storedIn loaded new db) assetId ↔ Deleted db assetId := by
  rw [deleted_iff, deleted_iff, statusOf_storedIn_of_ne h]

/-- A flush gives its own row the new status when that is not the loaded one. -/
theorem deleted_storedIn {loaded new : KBAsset} {db : Database} :
    Deleted (storedIn loaded new db) loaded.id ↔
      ∃ a, assetById db loaded.id = some a ∧
        flushColumn loaded.status new.status a.status = .deleted := by
  rw [deleted_iff, statusOf_storedIn, statusOf, Option.map_map, Option.map_eq_some_iff]
  rfl

/-! ## What holds in every run -/

structure Inv (guessType : Str → Option Str) (c : KbConfig) : Prop where
  live : ∀ t loaded new, Pending guessType c t loaded new → loaded.status ≠ .deleted
  present : ∀ t loaded new, Pending guessType c t loaded new →
    (assetById c.shared loaded.id).isSome = true
  not_deleted : ∀ t loaded new, Pending guessType c t loaded new →
    deletedSince t loaded.id c.history = false → ¬Deleted c.shared loaded.id

/-- What is pending after a step was pending before, or is what the step has loaded. -/
theorem pending_after {guessType : Str → Option Str} {c : KbConfig} {t i : Nat} {m : KbMove}
    {loaded new : KBAsset} (h : Pending guessType (after c t m) i loaded new) :
    (i ≠ t ∧ Pending guessType c i loaded new) ∨
      (i = t ∧ m.thread.write guessType = some (loaded, new)) := by
  obtain ⟨th, hth, hw⟩ := h
  rw [after_threads, List.getElem?_set] at hth
  split at hth
  · next heq =>
    split at hth
    · cases hth
      exact Or.inr ⟨heq.symm, hw⟩
    · cases hth
  · next hne => exact Or.inl ⟨Ne.symm hne, th, hth, hw⟩

theorem not_pending_start {guessType : Str → Option Str} {db : Database} {tasks : List Task}
    (h : ∀ th ∈ tasks, th.Fresh) (t : Nat) (loaded new : KBAsset) :
    ¬Pending guessType (.start db tasks) t loaded new := by
  rintro ⟨th, hth, hw⟩
  cases h th (List.mem_of_getElem? hth) with
  | _ => cases hw

theorem inv_start (guessType : Str → Option Str) {db : Database} {tasks : List Task}
    (h : ∀ th ∈ tasks, th.Fresh) : Inv guessType (.start db tasks) where
  live t loaded new hp := absurd hp (not_pending_start h t loaded new)
  present t loaded new hp := absurd hp (not_pending_start h t loaded new)
  not_deleted t loaded new hp := absurd hp (not_pending_start h t loaded new)

section Runs

variable {guessType : Str → Option Str} {errorText : Exn → Str} {c c' : KbConfig}
  {e : Event Choice Empty}

/-- The thread that moves, and what its step does to the assets. -/
theorem fire_cases (h : (kbSystem guessType errorText).fire c e = some c') :
    ∃ t ch th m, e = .run t ch ∧ c.threads[t]? = some th ∧ c' = after c t m ∧
      AssetStep c.shared t ch (th.write guessType) m.shared m.obs (m.thread.write guessType) := by
  cases e with
  | env e => exact nomatch e
  | run t ch =>
    obtain ⟨th, m, hth, hm, rfl⟩ := fire_run _ h
    exact ⟨t, ch, th, m, rfl, hth, rfl, step_cases hm⟩

theorem present_of_assetStep {db db' : Database} {t : Nat} {ch : Choice}
    {w w' : Option (KBAsset × KBAsset)} {obs : List Obs} (h : AssetStep db t ch w db' obs w')
    {assetId : Int} (hpresent : (assetById db assetId).isSome = true) :
    (assetById db' assetId).isSome = true := by
  cases h with
  | quiet hsame _ => rwa [assetById, hsame]
  | load _ _ => exact hpresent
  | store _ _ _ hstored =>
    rw [assetById, hstored]
    show (assetById (storedIn _ _ db) assetId).isSome = true
    rw [assetById_storedIn, Option.isSome_map]
    exact hpresent

theorem Inv.step (hinv : Inv guessType c)
    (h : (kbSystem guessType errorText).fire c e = some c') : Inv guessType c' := by
  obtain ⟨t, ch, th, m, -, hth, rfl, hstep⟩ := fire_cases h
  refine ⟨fun i loaded new hp => ?_, fun i loaded new hp => ?_, fun i loaded new hp hsince => ?_⟩
  · rcases pending_after hp with ⟨-, hold⟩ | ⟨-, hw⟩
    · exact hinv.live i loaded new hold
    · rw [hw] at hstep
      exact hstep.loaded_live.2.2
  · rcases pending_after hp with ⟨-, hold⟩ | ⟨-, hw⟩
    · exact present_of_assetStep hstep (hinv.present i loaded new hold)
    · rw [hw] at hstep
      obtain ⟨hsame, hrow, -⟩ := hstep.loaded_live
      rw [after_shared, hsame, hrow]
      rfl
  · rcases pending_after hp with ⟨hne, hold⟩ | ⟨-, hw⟩
    · -- a step of another operation
      have hbefore := hinv.not_deleted i loaded new hold
      simp only [after_history] at hsince
      simp only [after_shared]
      generalize m.shared = db', m.obs = obs, m.thread.write guessType = w' at hstep hsince ⊢
      cases hstep with
      | quiet hsame _ => exact fun hdel => hbefore hsince ((deleted_congr hsame _).mp hdel)
      | load _ _ => exact hbefore (by simpa [deletedSince, Ne.symm hne] using hsince)
      | @store _ _ loaded' new' _ _ hid hstored =>
        rw [deleted_congr hstored]
        simp only [List.singleton_append, deletedSince, Bool.or_eq_false_iff,
          Bool.and_eq_false_iff, beq_eq_false_iff_ne] at hsince
        have hkeep := hbefore hsince.2
        by_cases hrow : loaded.id = loaded'.id
        · rw [hrow, deleted_storedIn]
          rintro ⟨a, ha, hdel⟩
          have hstatus : new'.status ≠ .deleted := by
            rcases hsince.1 with hother | hstatus
            · exact absurd (hid.trans hrow.symm) hother
            · exact hstatus
          unfold flushColumn at hdel
          split at hdel
          · exact hkeep ⟨a, hrow ▸ ha, hdel⟩
          · exact hstatus hdel
        · rwa [deleted_storedIn_of_ne hrow]
    · rw [hw] at hstep
      obtain ⟨hsame, hrow, hlive⟩ := hstep.loaded_live
      rintro ⟨a, ha, hdel⟩
      rw [after_shared, hsame, hrow] at ha
      cases ha
      exact hlive hdel

/-! ## Runs in which deletion is final -/

/-- What was deleted behind a select is still deleted. -/
def StillDeleted (guessType : Str → Option Str) (c : KbConfig) : Prop :=
  ∀ t loaded new, Pending guessType c t loaded new → deletedSince t loaded.id c.history = true →
    Deleted c.shared loaded.id

theorem StillDeleted.step (hinv : Inv guessType c) (hstill : StillDeleted guessType c)
    (h : (kbSystem guessType errorText).fire c e = some c') (hkept : DeletionKept c e c') :
    StillDeleted guessType c' := by
  obtain ⟨t, ch, th, m, -, hth, rfl, hstep⟩ := fire_cases h
  intro i loaded new hp hsince
  rcases pending_after hp with ⟨hne, hold⟩ | ⟨rfl, hw⟩
  · have hbefore := fun hs => hkept _ (hstill i loaded new hold hs)
    have hpresent := hinv.present i loaded new hold
    simp only [after_history] at hsince
    simp only [after_shared] at hbefore ⊢
    generalize m.shared = db', m.obs = obs, m.thread.write guessType = w'
      at hstep hsince hbefore ⊢
    cases hstep with
    | quiet _ _ => exact hbefore hsince
    | load _ _ => exact hbefore (by simpa [deletedSince, Ne.symm hne] using hsince)
    | @store _ _ loaded' new' _ hw hid hstored =>
      simp only [List.singleton_append, deletedSince, Bool.or_eq_true, Bool.and_eq_true,
        beq_iff_eq] at hsince
      rcases hsince with ⟨hrow, hstatus⟩ | hsince
      · -- the block that has just committed is the deletion
        have hlive := hinv.live t loaded' new' ⟨th, hth, hw⟩
        obtain ⟨a, ha⟩ := Option.isSome_iff_exists.mp hpresent
        have hrow' : loaded.id = loaded'.id := hrow.symm.trans hid
        rw [deleted_congr hstored, hrow', deleted_storedIn]
        refine ⟨a, hrow' ▸ ha, ?_⟩
        rw [flushColumn, hstatus, if_neg (Ne.symm hlive)]
      · exact hbefore hsince
  · rw [hw] at hstep
    generalize m.shared = db', hobs : m.obs = obs at hstep
    cases hstep with
    | load _ _ => simp [after_history, hobs, deletedSince] at hsince

theorem deletionKept_of_inTime (hinv : Inv guessType c)
    (h : (kbSystem guessType errorText).fire c e = some c')
    (htime : StoresInTime guessType c e c') : DeletionKept c e c' := by
  obtain ⟨t, ch, th, m, rfl, hth, rfl, hstep⟩ := fire_cases h
  intro assetId hdel
  simp only [after_shared]
  generalize m.shared = db', m.obs = obs, m.thread.write guessType = w' at hstep ⊢
  cases hstep with
  | quiet hsame _ => exact (deleted_congr hsame _).mpr hdel
  | load _ _ => exact hdel
  | @store _ now loaded new hch hw _ hstored =>
    rw [deleted_congr hstored]
    by_cases hrow : assetId = loaded.id
    · have hp : Pending guessType c t loaded new := ⟨th, hth, hw⟩
      subst hrow
      rw [deleted_storedIn]
      obtain ⟨a, ha, hstatus⟩ := id hdel
      refine ⟨a, ha, ?_⟩
      unfold flushColumn
      split
      · exact hstatus
      · next hne =>
        by_contra hnew
        exact hinv.not_deleted t loaded new hp
          (htime t now loaded new (by rw [hch]) hp hne hnew) hdel
    · rwa [deleted_storedIn_of_ne hrow]

theorem inTime_of_deletionKept (hinv : Inv guessType c) (hstill : StillDeleted guessType c)
    (h : (kbSystem guessType errorText).fire c e = some c') (hkept : DeletionKept c e c') :
    StoresInTime guessType c e c' := by
  obtain ⟨t, ch, th, m, rfl, hth, rfl, hstep⟩ := fire_cases h
  rintro t' now loaded new heq hp hne hnew
  cases heq
  by_contra hsince
  have hdel : Deleted c.shared loaded.id :=
    hstill t loaded new hp (by simpa using hsince)
  have hdel' := hkept _ hdel
  have hpresent := hinv.present t loaded new hp
  obtain ⟨th', hth', hw⟩ := hp
  rw [hth] at hth'
  cases hth'
  simp only [after_shared] at hdel'
  generalize m.shared = db', m.obs = obs, m.thread.write guessType = w' at hstep hdel'
  cases hstep with
  | quiet _ hgone =>
    rw [hgone now loaded new rfl hw] at hpresent
    cases hpresent
  | load hnone _ =>
    rw [hw] at hnone
    cases hnone
  | store _ hw' _ hstored =>
    rw [hw] at hw'
    cases hw'
    rw [deleted_congr hstored, deleted_storedIn] at hdel'
    obtain ⟨a, -, hstatus⟩ := hdel'
    rw [flushColumn, if_neg hne] at hstatus
    exact hnew hstatus

end Runs

/--
**Deletion is final** in a run exactly when no deletion commits between the last select of an
operation and its block, if that block writes a status other than the loaded one and `deleted`.
-/
theorem deletion_final_iff (guessType : Str → Option Str) (errorText : Exn → Str) (db : Database)
    (tasks : List Task) (hfresh : ∀ th ∈ tasks, th.Fresh) (es : List (Event Choice Empty)) :
    (kbSystem guessType errorText).EachStep DeletionKept (.start db tasks) es ↔
      (kbSystem guessType errorText).EachStep (StoresInTime guessType) (.start db tasks) es := by
  have hinv : Inv guessType (.start db tasks) := inv_start guessType hfresh
  constructor
  · intro h
    refine h.of_invariant (I := fun c => Inv guessType c ∧ StillDeleted guessType c)
      ⟨hinv, fun t loaded new hp => absurd hp (not_pending_start hfresh t loaded new)⟩ ?_ ?_
    · exact fun c e c' hc he hkept => ⟨hc.1.step he, hc.2.step hc.1 he hkept⟩
    · exact fun c e c' hc he hkept => inTime_of_deletionKept hc.1 hc.2 he hkept
  · intro h
    refine h.of_invariant (I := Inv guessType) hinv ?_ ?_
    · exact fun c e c' hc he _ => hc.step he
    · exact fun c e c' hc he htime => deletionKept_of_inTime hc he htime

/-! ## A deletion behind a select -/

/-- The ingestion has loaded the asset when the deletion commits. -/
def deletedBehindSelect : List (Event Choice Empty) := [go 0, go 1, go 1]

/-- The block of the ingestion then makes the asset `processing`. -/
theorem resurrected_run : ∃ c₁ c₂,
    (kbSystem (fun _ => none) fun _ => []).exec (.start manualDb ingestAndDelete)
        deletedBehindSelect = some c₁ ∧
      (kbSystem (fun _ => none) fun _ => []).fire c₁ (go 0) = some c₂ ∧
      (assetById c₁.shared 1).map KBAsset.status = some .deleted ∧
      (assetById c₂.shared 1).map KBAsset.status = some .processing :=
  ⟨_, _, rfl, rfl, rfl, rfl⟩

theorem deletion_not_final :
    ¬∀ (guessType : Str → Option Str) (errorText : Exn → Str) (db : Database) (tasks : List Task),
      (∀ th ∈ tasks, th.Fresh) → ∀ es,
        (kbSystem guessType errorText).EachStep DeletionKept (.start db tasks) es := by
  intro h
  obtain ⟨c₁, c₂, hpre, hfire, hdel, hback⟩ := resurrected_run
  have hkept := h (fun _ => none) (fun _ => []) manualDb ingestAndDelete ingestAndDelete_fresh
    (deletedBehindSelect ++ [go 0]) deletedBehindSelect (go 0) [] c₁ c₂ rfl hpre hfire 1
  obtain ⟨a, ha, hstatus⟩ := Option.map_eq_some_iff.mp hdel
  obtain ⟨b, hb, hstatus'⟩ := hkept ⟨a, ha, hstatus⟩
  rw [hb, Option.map_some, hstatus'] at hback
  cases hback

theorem deletion_final_iff_resurrected :
    (kbSystem (fun _ => none) fun _ => []).EachStep DeletionKept (.start manualDb ingestAndDelete)
        (deletedBehindSelect ++ [go 0]) ↔
      (kbSystem (fun _ => none) fun _ => []).EachStep (StoresInTime fun _ => none)
        (.start manualDb ingestAndDelete) (deletedBehindSelect ++ [go 0]) :=
  deletion_final_iff (fun _ => none) (fun _ => []) manualDb ingestAndDelete ingestAndDelete_fresh _

end EnterpriseAssistant.Kb.Machine
