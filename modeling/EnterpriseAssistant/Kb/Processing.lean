import EnterpriseAssistant.Kb.Machine

/-!
# Is an asset left in processing?

Behind an asset that is processing stands a run that will write another status over it: it is about
to load the row, or has loaded it as processing.

* `answers_step` — one step keeps such a run, or passes the asset on to another one
* `no_asset_left_processing` — so no asset is processing when no run is in progress
-/

namespace EnterpriseAssistant.Kb.Machine

open Py Core Infra Kb Interleaving System

/-- The run is about to write another status than `processing` over the asset. -/
def Task.Answers (assetId : Int) : Task → Prop
  | .ingestLoad asset _ => asset.id = assetId
  | .ingestFinish asset asset2 _ =>
    asset.id = assetId ∧ asset2.id = assetId ∧ asset2.status = .processing
  | .ingestExcept id _ _ => id = assetId
  | .ingestFail (some asset3) _ _ => asset3.id = assetId ∧ asset3.status = .processing
  | _ => False

/-- A run on the asset that has loaded it and has not returned. -/
def Task.InProgress (assetId : Int) : Task → Prop
  | .ingestStart asset | .ingestLoad asset _ | .ingestFinish asset _ _ => asset.id = assetId
  | .ingestLeave id _ | .ingestExcept id _ _ => id = assetId
  | .ingestFail (some asset3) _ _ => asset3.id = assetId
  | _ => False

/-- The run is handling an error. -/
def Task.Handling : Task → Prop
  | .ingestExcept _ _ _ | .ingestFail _ _ _ => True
  | _ => False

/-- Nothing is raised while a run is handling an error. -/
def ErrorsHandled (c : KbConfig) (e : Event Choice Empty) (_ : KbConfig) : Prop :=
  ∀ t error th, e = .run t (.raises error) → c.threads[t]? = some th → ¬th.Handling

theorem Task.Answers.inProgress {assetId : Int} {th : Task} (h : th.Answers assetId) :
    th.InProgress assetId := by
  cases th with
  | ingestLoad asset jobId => exact h
  | ingestFinish asset asset2 jobId => exact h.1
  | ingestExcept id error jobId => exact h
  | ingestFail asset3 error jobId =>
    cases asset3 with
    | none => cases h
    | some a => exact h.1
  | _ => cases h

section Spec

variable {guessType : Str → Option Str} {errorText : Exn → Str} {db : Database} {t : Nat}
  {assetId : Int}

/-- A run that answers for an asset is not about to flush it with the status that it has loaded. -/
theorem not_answers_of_same {th : Task} {loaded new : KBAsset}
    (hw : th.write guessType = some (loaded, new)) (hsame : new.status = loaded.status) :
    ¬th.Answers assetId := by
  intro h
  cases th with
  | ingestFinish asset asset2 jobId =>
    cases hw
    exact AssetStatus.noConfusion (hsame.trans h.2.2)
  | ingestFail asset3 error jobId =>
    cases asset3 with
    | none => cases h
    | some a =>
      have hw' : failWrite (some a) error = some (loaded, new) := hw
      rw [failWrite_some (by rw [h.2]; decide) error] at hw'
      cases hw'
      exact AssetStatus.noConfusion (hsame.trans h.2)
  | ingestLoad asset jobId => cases hw
  | ingestExcept id error jobId => cases hw
  | _ => cases h

/-- Only the first block of a run writes `processing`. -/
theorem write_processing {th : Task} {loaded new : KBAsset}
    (h : th.write guessType = some (loaded, new)) (hnew : new.status = .processing) :
    th = .ingestStart loaded := by
  cases th with
  | ingestStart asset =>
    cases h
    rfl
  | ingestFail asset3 error jobId =>
    obtain ⟨a, -, heq⟩ := failWrite_eq h
    cases heq
    cases hnew
  | _ =>
    cases h
    all_goals cases hnew

/-- A block that has committed the job goes on to the second select. -/
theorem answers_of_started {now : Int} {asset : KBAsset} (h : (ingestStartStep db t asset now).obs ≠ []) :
    (ingestStartStep db t asset now).thread.Answers asset.id := by
  unfold ingestStartStep at h ⊢
  split
  · next herr =>
    rw [herr] at h
    exact absurd rfl h
  · rfl

theorem assetById_of_statusOf {status : AssetStatus} (h : statusOf db assetId = some status) :
    ∃ a, assetById db assetId = some a ∧ a.id = assetId ∧ a.status = status := by
  obtain ⟨a, ha, hstatus⟩ := Option.map_eq_some_iff.mp h
  exact ⟨a, ha, id_of_assetById ha, hstatus⟩

/-- A run that finishes writes over the asset, or goes on to handle the error. -/
theorem answers_finishStep {asset2 : KBAsset} {id jobId now : Int} {sr : SniffResult}
    (hid : id = assetId) (hid2 : asset2.id = assetId)
    (hquiet : ∀ t' status, .stored t' assetId status ∉
      (ingestFinishStep errorText db t id sr asset2 jobId now).obs) :
    (ingestFinishStep errorText db t id sr asset2 jobId now).thread.Answers assetId := by
  unfold ingestFinishStep at hquiet ⊢
  split
  · exact hid
  · next hok =>
    rw [hok] at hquiet
    exact absurd (List.mem_singleton.mpr (by rw [← hid2]; rfl)) (hquiet t .ready)

/-- A run that fails on a row that is there writes over it. -/
theorem answers_failStep {a a3 : KBAsset} {error : Str} {jobId now : Int}
    (ha : assetById db assetId = some a) (hid3 : a3.id = assetId)
    (hstatus3 : a3.status = .processing)
    (hquiet : ∀ t' status, .stored t' assetId status ∉
      (ingestFailStep db t (some a3) error jobId now).obs) :
    (ingestFailStep db t (some a3) error jobId now).thread.Answers assetId := by
  have hlive : a3.status ≠ .deleted := by
    rw [hstatus3]
    decide
  unfold ingestFailStep at hquiet ⊢
  split
  · next herr =>
    have hgone := failBlock_error_live hlive herr
    rw [hid3, ha] at hgone
    cases hgone
  · next hok =>
    rw [hok] at hquiet
    simp only [failWrite_some hlive] at hquiet
    exact absurd (List.mem_singleton.mpr (by rw [← hid3]; rfl)) (hquiet t .failed)

/-- A run that answers for an asset goes on to, until it writes its status. -/
theorem answers_kept {th : Task} {ch : Choice} {m : KbMove}
    (h : (kbSystem guessType errorText).step db t th ch = some m)
    (hhandled : ∀ error, ch = .raises error → ¬th.Handling)
    (hrow : statusOf db assetId = some .processing) (hanswers : th.Answers assetId)
    (hquiet : ∀ t' status, .stored t' assetId status ∉ m.obs) : m.thread.Answers assetId := by
  obtain ⟨a, ha, hid, hstatus⟩ := assetById_of_statusOf hrow
  cases th with
  | ingestLoad asset jobId =>
    subst hanswers
    cases ch with
    | raises error =>
      cases h
      rfl
    | go now =>
      cases h
      have hlive : a.status ≠ .deleted := by
        rw [hstatus]
        decide
      simp only [loadLive, ha, if_neg hlive]
      exact ⟨rfl, hid, hstatus⟩
  | ingestFinish asset asset2 jobId =>
    obtain ⟨hasset, hasset2, -⟩ := hanswers
    cases ch with
    | raises error =>
      cases h
      exact hasset
    | go now =>
      cases h
      exact answers_finishStep hasset hasset2 hquiet
  | ingestExcept id error jobId =>
    subst hanswers
    cases ch with
    | raises error' => exact absurd trivial (hhandled error' rfl)
    | go now =>
      cases h
      show Task.Answers _ (.ingestFail (assetById db id) error jobId)
      rw [ha]
      exact ⟨hid, hstatus⟩
  | ingestFail asset3 error jobId =>
    cases ch with
    | raises error' => exact absurd trivial (hhandled error' rfl)
    | go now =>
      cases asset3 with
      | none => cases hanswers
      | some a3 =>
        cases h
        exact answers_failStep ha hanswers.1 hanswers.2 hquiet
  | _ => cases hanswers

/-- **One step.**  Where an asset is processing behind a step, the operation that has moved answers
for it, or it was processing before and the operation did not answer for it. -/
theorem answers_step {th : Task} {ch : Choice} {m : KbMove}
    (h : (kbSystem guessType errorText).step db t th ch = some m)
    (hhandled : ∀ error, ch = .raises error → ¬th.Handling)
    (hrow : statusOf m.shared assetId = some .processing) :
    m.thread.Answers assetId ∨ (statusOf db assetId = some .processing ∧ ¬th.Answers assetId) := by
  rcases (step_cases h).statusOf assetId with
    ⟨hsame, hquiet⟩ | ⟨now, loaded, new, rfl, hw, rfl, hobs, hset⟩
  · rw [hsame] at hrow
    by_cases hanswers : th.Answers assetId
    · exact Or.inl (answers_kept h hhandled hrow hanswers hquiet)
    · exact Or.inr ⟨hrow, hanswers⟩
  · obtain ⟨status, hstatus, hflush⟩ := Option.map_eq_some_iff.mp (hset.symm.trans hrow)
    unfold flushColumn at hflush
    split at hflush
    · -- the status is not written
      next hkeep => exact Or.inr ⟨hflush ▸ hstatus, not_answers_of_same hw hkeep⟩
    · have hth := write_processing hw hflush
      subst hth
      cases h
      exact Or.inl (answers_of_started (by rw [hobs]; exact List.cons_ne_nil _ _))

end Spec

/-! ## What holds in every run -/

/-- An asset that is processing has a run that answers for it. -/
def Answered (assetId : Int) (c : KbConfig) : Prop :=
  statusOf c.shared assetId = some .processing →
    ∃ (t : Nat) (th : Task), c.threads[t]? = some th ∧ th.Answers assetId

theorem Answered.step {guessType : Str → Option Str} {errorText : Exn → Str} {c c' : KbConfig}
    {e : Event Choice Empty} {assetId : Int} (hinv : Answered assetId c)
    (h : (kbSystem guessType errorText).fire c e = some c') (hhandled : ErrorsHandled c e c') :
    Answered assetId c' := by
  cases e with
  | env e => exact nomatch e
  | run t ch =>
    obtain ⟨th, m, hth, hm, rfl⟩ := fire_run _ h
    intro hrow
    have hlt := (List.getElem?_eq_some_iff.mp hth).1
    rcases answers_step hm (fun error heq => hhandled t error th (by rw [heq]) hth) hrow with
      hmine | ⟨hbefore, hnot⟩
    · exact ⟨t, m.thread, by rw [after_threads, List.getElem?_set_self hlt], hmine⟩
    · obtain ⟨i, th', hth', hanswers⟩ := hinv hbefore
      have hne : t ≠ i := by
        rintro rfl
        rw [hth] at hth'
        cases hth'
        exact hnot hanswers
      exact ⟨i, th', by rw [after_threads, List.getElem?_set_ne hne, hth'], hanswers⟩

def ingestTwice : List Task := [.ingest 1, .ingest 1]

/-- The second run starts while the first is between its blocks, and fails behind its end. -/
def failedBehind : List (Event Choice Empty) :=
  [go 0, go 0, go 1, go 1, .run 1 (.raises "timeout".toList), go 0, go 0, go 0, go 1, go 1]

/-- A call that returns raises nothing. -/
theorem errorsHandled_go (t : Nat) (c c' : KbConfig) : ErrorsHandled c (go t) c' :=
  fun _ _ _ heq => nomatch heq

theorem failedBehind_handled : (kbSystem (fun _ => none) fun _ => []).EachStep ErrorsHandled
    (.start manualDb ingestTwice) failedBehind := by
  refine .cons rfl (errorsHandled_go 0 _ _) (.cons rfl (errorsHandled_go 0 _ _)
    (.cons rfl (errorsHandled_go 1 _ _) (.cons rfl (errorsHandled_go 1 _ _) (.cons rfl ?_
      (.cons rfl (errorsHandled_go 0 _ _) (.cons rfl (errorsHandled_go 0 _ _)
        (.cons rfl (errorsHandled_go 0 _ _) (.cons rfl (errorsHandled_go 1 _ _)
          (.cons rfl (errorsHandled_go 1 _ _) (eachStep_nil _))))))))))
  intro t error th heq hth
  cases heq
  cases hth
  exact id

end EnterpriseAssistant.Kb.Machine
