import EnterpriseAssistant.Kb.Deletion

/-!
# Is a ready asset fresh?

A run carries nothing from its first block to its second that would tell one upload from the next.
So an upload that commits between the two is lost: the second block makes the asset ready all the
same.  And `mark_uploaded` writes no status over a row that it has loaded as uploaded, whatever has
become of the row since.

* `BegunInv.step` — a run that is at its second block has committed its first
* `uploads_kept_iff` — the runs in which no upload is lost
-/

namespace EnterpriseAssistant.Kb.Machine

open Py Core Infra Kb Interleaving System

/-- `mark_uploaded` has committed on the asset. -/
def Obs.isUpload (assetId : Int) : Obs → Bool
  | .stored _ id status => id == assetId && status == .uploaded
  | .loaded _ _ => false

/-- The first block of run `t` has committed, and no upload of the asset has since. -/
def StartedSince (t : Nat) (assetId : Int) (h : List Obs) : Prop :=
  ∃ newer older, h = newer ++ .stored t assetId .processing :: older ∧
    ∀ o ∈ newer, o.isUpload assetId = false

/-- A run whose two blocks have both committed behind the last upload of the asset, if there is one. -/
def IngestedSince (assetId : Int) (h : List Obs) : Prop :=
  (∀ o ∈ h, o.isUpload assetId = false) ∨
    ∃ t newer older, h = newer ++ .stored t assetId .ready :: older ∧
      (∀ o ∈ newer, o.isUpload assetId = false) ∧ StartedSince t assetId older

/-- A step makes an asset ready only for a run whose first block is behind the last upload, and what
is ready behind the step has been ingested since its last upload. -/
def UploadsKept (c : KbConfig) (e : Event Choice Empty) (c' : KbConfig) : Prop :=
  ∀ assetId, statusOf c'.shared assetId = some .ready →
    (statusOf c.shared assetId ≠ some .ready →
      ∃ t ch, e = .run t ch ∧ StartedSince t assetId c.history) ∧
    IngestedSince assetId c'.history

/-- An upload of the asset has committed since the first block of run `t`. -/
def uploadedSince (t : Nat) (assetId : Int) : List Obs → Bool
  | [] => false
  | o :: h => o != .stored t assetId .processing && (o.isUpload assetId || uploadedSince t assetId h)

/-- A block that turns an asset ready is not behind an upload that has committed since the first
block of its run; and a block of `mark_uploaded` that has loaded its asset as uploaded does not meet
it ready. -/
def UploadsInTime (guessType : Str → Option Str) (c : KbConfig) (e : Event Choice Empty)
    (_ : KbConfig) : Prop :=
  ∀ t now loaded new, e = .run t (.go now) → Pending guessType c t loaded new →
    (new.status = .ready → loaded.status ≠ .ready → statusOf c.shared loaded.id ≠ some .ready →
      uploadedSince t loaded.id c.history = false) ∧
    (new.status = .uploaded → loaded.status = .uploaded →
      statusOf c.shared loaded.id ≠ some .ready)

/-! ## Since when -/

theorem startedSince_cons {t : Nat} {assetId : Int} {o : Obs} {h : List Obs}
    (ho : o.isUpload assetId = false) (hh : StartedSince t assetId h) :
    StartedSince t assetId (o :: h) := by
  obtain ⟨newer, older, rfl, hnewer⟩ := hh
  exact ⟨o :: newer, older, rfl, List.forall_mem_cons.mpr ⟨ho, hnewer⟩⟩

theorem ingestedSince_cons {assetId : Int} {o : Obs} {h : List Obs}
    (ho : o.isUpload assetId = false) (hh : IngestedSince assetId h) :
    IngestedSince assetId (o :: h) := by
  rcases hh with hnone | ⟨t, newer, older, rfl, hnewer, hstarted⟩
  · exact Or.inl (List.forall_mem_cons.mpr ⟨ho, hnone⟩)
  · exact Or.inr ⟨t, o :: newer, older, rfl, List.forall_mem_cons.mpr ⟨ho, hnewer⟩, hstarted⟩

theorem ingestedSince_append {assetId : Int} {os h : List Obs}
    (hos : ∀ o ∈ os, o.isUpload assetId = false) (hh : IngestedSince assetId h) :
    IngestedSince assetId (os ++ h) := by
  induction os with
  | nil => exact hh
  | cons o os ih =>
    obtain ⟨ho, hos⟩ := List.forall_mem_cons.mp hos
    exact ingestedSince_cons ho (ih hos)

/-- Right behind an upload nothing has been ingested. -/
theorem not_ingestedSince_upload {assetId : Int} {o : Obs} {h : List Obs}
    (ho : o.isUpload assetId = true) : ¬IngestedSince assetId (o :: h) := by
  rintro (hnone | ⟨t, newer, older, heq, hnewer, -⟩)
  · rw [hnone o List.mem_cons_self] at ho
    cases ho
  · cases newer with
    | nil =>
      obtain ⟨rfl, -⟩ := List.cons.inj heq
      simp [Obs.isUpload] at ho
    | cons o' newer =>
      obtain ⟨rfl, -⟩ := List.cons.inj heq
      rw [hnewer o List.mem_cons_self] at ho
      cases ho

theorem uploadedSince_eq_false_iff {t : Nat} {assetId : Int} {h : List Obs}
    (hbegun : .stored t assetId .processing ∈ h) :
    uploadedSince t assetId h = false ↔ StartedSince t assetId h := by
  induction h with
  | nil => cases hbegun
  | cons o h ih =>
    by_cases ho : o = .stored t assetId .processing
    · refine iff_of_true (by simp [uploadedSince, ho]) ⟨[], h, by rw [ho]; rfl, ?_⟩
      exact fun o ho => nomatch ho
    · have hmem := (List.mem_cons.mp hbegun).resolve_left (Ne.symm ho)
      have hcons : uploadedSince t assetId (o :: h)
          = (o.isUpload assetId || uploadedSince t assetId h) := by
        rw [uploadedSince, bne_iff_ne.mpr ho, Bool.true_and]
      rw [hcons, Bool.or_eq_false_iff, ih hmem]
      constructor
      · rintro ⟨hup, hstarted⟩
        exact startedSince_cons hup hstarted
      · rintro ⟨newer, older, heq, hnewer⟩
        cases newer with
        | nil => exact absurd (List.cons.inj heq).1 ho
        | cons o' newer =>
          obtain ⟨rfl, rfl⟩ := List.cons.inj heq
          obtain ⟨hup, hrest⟩ := List.forall_mem_cons.mp hnewer
          exact ⟨hup, newer, older, rfl, hrest⟩

/-! ## How far a run has come -/

/-- The asset whose first block the run has committed and whose second block is still to come. -/
def Task.begun : Task → Option Int
  | .ingestLoad asset _ | .ingestFinish asset _ _ => some asset.id
  | _ => none

/-- The second select has loaded the row of the same asset. -/
def Task.SameAsset : Task → Prop
  | .ingestFinish asset asset2 _ => asset2.id = asset.id
  | _ => True

section Spec

variable {guessType : Str → Option Str} {errorText : Exn → Str} {db : Database} {t : Nat}

/-- Only the second block of a run writes `ready`. -/
theorem write_ready {th : Task} {loaded new : KBAsset}
    (h : th.write guessType = some (loaded, new)) (hready : new.status = .ready) :
    ∃ asset jobId, th = .ingestFinish asset loaded jobId := by
  cases th with
  | ingestFinish asset asset2 jobId =>
    cases h
    exact ⟨asset, jobId, rfl⟩
  | ingestFail asset3 error jobId =>
    obtain ⟨a, -, heq⟩ := failWrite_eq h
    cases heq
    cases hready
  | _ =>
    cases h
    all_goals cases hready

/-- What the thread of a step tells about its run: nothing has begun, nothing has changed, or the
first block has just committed. -/
def BegunStep (t : Nat) (th : Task) (m : KbMove) : Prop :=
  m.thread.SameAsset ∧ (m.thread.begun = none ∨ m.thread.begun = th.begun ∨
    ∃ id, m.thread.begun = some id ∧ .stored t id .processing ∈ m.obs)

theorem BegunStep.of_none {th : Task} {m : KbMove}
    (h : m.thread.SameAsset ∧ m.thread.begun = none) : BegunStep t th m :=
  ⟨h.1, Or.inl h.2⟩

theorem begunStep_loadLive {th : Task} {assetId : Int} {next : KBAsset → Task} {otherwise : Task}
    (hnext : ∀ a, a.id = assetId →
      (next a).SameAsset ∧ ((next a).begun = none ∨ (next a).begun = th.begun))
    (hother : otherwise.SameAsset ∧ otherwise.begun = none) :
    BegunStep t th (loadLive db t assetId next otherwise) := by
  unfold loadLive
  split
  · exact .of_none hother
  · next a ha =>
    split
    · exact .of_none hother
    · obtain ⟨hsame, hbegun⟩ := hnext a (id_of_assetById ha)
      exact ⟨hsame, hbegun.imp_right Or.inl⟩

theorem begunStep_store (th : Task) (loaded new : KBAsset) :
    BegunStep t th (storeStep db t loaded new) := by
  unfold storeStep
  split
  · exact .of_none ⟨trivial, rfl⟩
  · exact .of_none ⟨trivial, rfl⟩

theorem begunStep_ingestStart (asset : KBAsset) (now : Int) :
    BegunStep t (.ingestStart asset) (ingestStartStep db t asset now) := by
  unfold ingestStartStep
  split
  · exact .of_none ⟨trivial, rfl⟩
  · exact ⟨trivial, Or.inr (Or.inr ⟨asset.id, rfl, List.mem_singleton.mpr rfl⟩)⟩

theorem begunStep_ingestFail (th : Task) (asset3 : Option KBAsset) (error : Str) (jobId : Int)
    (now : Int) : BegunStep t th (ingestFailStep db t asset3 error jobId now) := by
  unfold ingestFailStep
  split
  · exact .of_none ⟨trivial, rfl⟩
  · split
    · exact .of_none ⟨trivial, rfl⟩
    · exact .of_none ⟨trivial, rfl⟩

theorem begunStep_raise {th : Task} {error : Str} {m : KbMove}
    (h : raiseStep db th error = some m) : BegunStep t th m := by
  unfold raiseStep at h
  split at h
  all_goals first
    | cases h; exact .of_none ⟨trivial, rfl⟩
    | cases h

theorem begun_step {th : Task} {ch : Choice} {m : KbMove}
    (h : (kbSystem guessType errorText).step db t th ch = some m) : BegunStep t th m := by
  cases ch with
  | raises error => exact begunStep_raise h
  | go now =>
    cases th with
    | ingest assetId =>
      cases h
      refine begunStep_loadLive (fun a _ => ?_) ⟨trivial, rfl⟩
      split
      · exact ⟨trivial, Or.inl rfl⟩
      · exact ⟨trivial, Or.inl rfl⟩
    | ingestStart asset =>
      cases h
      exact begunStep_ingestStart asset now
    | ingestLoad asset jobId =>
      cases h
      exact begunStep_loadLive (fun a ha => ⟨ha, Or.inr rfl⟩) ⟨trivial, rfl⟩
    | ingestFinish asset asset2 jobId =>
      cases h
      unfold ingestFinishStep
      split
      · exact .of_none ⟨trivial, rfl⟩
      · exact .of_none ⟨trivial, rfl⟩
    | ingestLeave assetId jobId =>
      cases h
      exact .of_none ⟨trivial, rfl⟩
    | ingestExcept assetId error jobId =>
      cases h
      exact .of_none ⟨trivial, rfl⟩
    | ingestFail asset3 error jobId =>
      cases h
      exact begunStep_ingestFail _ asset3 error jobId now
    | ingested jobId => cases h
    | upload assetId args =>
      cases h
      exact begunStep_loadLive (fun a _ => ⟨trivial, Or.inl rfl⟩) ⟨trivial, rfl⟩
    | uploadStore asset args =>
      cases h
      exact begunStep_store _ asset _
    | softDelete assetId =>
      cases h
      exact begunStep_loadLive (fun a _ => ⟨trivial, Or.inl rfl⟩) ⟨trivial, rfl⟩
    | softDeleteStore asset =>
      cases h
      exact begunStep_store _ asset _
    | ended => cases h

end Spec

/-! ## What holds in every run -/

/-- A run between its blocks has committed its first one, and its second is about the same asset. -/
structure BegunInv (c : KbConfig) : Prop where
  same : ∀ (t : Nat) (th : Task), c.threads[t]? = some th → th.SameAsset
  begun : ∀ (t : Nat) (th : Task), c.threads[t]? = some th → ∀ id, th.begun = some id →
    .stored t id .processing ∈ c.history

theorem begunInv_start {db : Database} {tasks : List Task} (h : ∀ th ∈ tasks, th.Fresh) :
    BegunInv (.start db tasks) := by
  refine ⟨fun t th hth => ?_, fun t th hth id hid => ?_⟩
  · cases h th (List.mem_of_getElem? hth) with
    | _ => trivial
  · cases h th (List.mem_of_getElem? hth) with
    | _ => cases hid

section Runs

variable {guessType : Str → Option Str} {errorText : Exn → Str} {c c' : KbConfig}
  {e : Event Choice Empty}

theorem BegunInv.step (hinv : BegunInv c) (h : (kbSystem guessType errorText).fire c e = some c') :
    BegunInv c' := by
  cases e with
  | env e => exact nomatch e
  | run t ch =>
    obtain ⟨th, m, hth, hm, rfl⟩ := fire_run _ h
    obtain ⟨hsame, hbegun⟩ := begun_step hm
    refine ⟨forall_set hinv.same hsame, forall_set (fun i th' hth' id hid => ?_) fun id hid => ?_⟩
    · exact List.mem_append_right _ (hinv.begun i th' hth' id hid)
    · rcases hbegun with hnone | hbefore | ⟨id', hid', hobs⟩
      · rw [hnone] at hid
        cases hid
      · exact List.mem_append_right _ (hinv.begun t th hth id (hbefore ▸ hid))
      · rw [hid'] at hid
        cases hid
        exact List.mem_append_left _ hobs

/-- The run that is about to write `ready` has committed its first block. -/
theorem BegunInv.uploadedSince_iff (hinv : BegunInv c) {t : Nat} {loaded new : KBAsset}
    (hp : Pending guessType c t loaded new) (hready : new.status = .ready) :
    uploadedSince t loaded.id c.history = false ↔ StartedSince t loaded.id c.history := by
  obtain ⟨th, hth, hw⟩ := hp
  obtain ⟨asset, jobId, rfl⟩ := write_ready hw hready
  have hsame : loaded.id = asset.id := hinv.same t _ hth
  refine uploadedSince_eq_false_iff ?_
  rw [hsame]
  exact hinv.begun t _ hth asset.id rfl

/-! ## Runs in which uploads are kept -/

/-- What is ready has been ingested since its last upload. -/
def ReadyFresh (c : KbConfig) : Prop :=
  ∀ assetId, statusOf c.shared assetId = some .ready → IngestedSince assetId c.history

theorem ReadyFresh.kept (hbegun : BegunInv c) (hfresh : ReadyFresh c)
    (h : (kbSystem guessType errorText).fire c e = some c')
    (htime : UploadsInTime guessType c e c') : UploadsKept c e c' := by
  obtain ⟨t, ch, th, m, rfl, hth, rfl, hstep⟩ := fire_cases h
  intro assetId hready
  simp only [after_shared] at hready
  simp only [after_history]
  rcases hstep.statusOf assetId with ⟨hsame, hobs⟩ | ⟨now, loaded, new, rfl, hw, rfl, hobs, hset⟩
  · -- the asset is not touched, and was ready before
    rw [hsame] at hready
    refine ⟨fun hnot => absurd hready hnot, ingestedSince_append (fun o ho => ?_) (hfresh _ hready)⟩
    cases o with
    | loaded _ _ => rfl
    | stored t' id status =>
      by_cases hid : id = assetId
      · exact absurd (hid ▸ ho) (hobs t' status)
      · simp [Obs.isUpload, hid]
  · have hp : Pending guessType c t loaded new := ⟨th, hth, hw⟩
    obtain ⟨hbehind, hunmet⟩ := htime t now loaded new rfl hp
    obtain ⟨status, hstatus, hflush⟩ := Option.map_eq_some_iff.mp (hset.symm.trans hready)
    rw [hobs, List.singleton_append]
    by_cases hbefore : statusOf c.shared loaded.id = some .ready
    · refine ⟨fun hnot => absurd hbefore hnot, ingestedSince_cons ?_ (hfresh _ hbefore)⟩
      -- an upload would have made it uploaded, or would not meet it ready
      by_contra hup
      have hnew : new.status = .uploaded := by simpa [Obs.isUpload] using hup
      unfold flushColumn at hflush
      split at hflush
      · next heq => exact hunmet hnew (heq ▸ hnew) hbefore
      · rw [hnew] at hflush
        cases hflush
    · -- the block makes it ready
      unfold flushColumn at hflush
      split at hflush
      · exact absurd (hflush ▸ hstatus) hbefore
      · next hne =>
        have hstarted := (hbegun.uploadedSince_iff hp hflush).mp
          (hbehind hflush (fun hl => hne (hflush.trans hl.symm)) hbefore)
        refine ⟨fun _ => ⟨t, .go now, rfl, hstarted⟩, Or.inr ⟨t, [], c.history, ?_, ?_, hstarted⟩⟩
        · rw [hflush, List.nil_append]
        · exact fun o ho => nomatch ho

theorem uploadsInTime_of_kept (hinv : Inv guessType c) (hbegun : BegunInv c)
    (h : (kbSystem guessType errorText).fire c e = some c') (hkept : UploadsKept c e c') :
    UploadsInTime guessType c e c' := by
  obtain ⟨t, ch, th, m, rfl, hth, rfl, hstep⟩ := fire_cases h
  rintro t' now loaded new heq hp
  cases heq
  have hpresent := hinv.present t loaded new hp
  obtain ⟨th', hth', hw⟩ := id hp
  rw [hth] at hth'
  cases hth'
  rw [hw] at hstep
  obtain ⟨hobs, hset⟩ := hstep.flushed hpresent
  obtain ⟨a, ha⟩ := Option.isSome_iff_exists.mp hpresent
  have hstatus : statusOf c.shared loaded.id = some a.status := by rw [statusOf, ha, Option.map_some]
  rw [hstatus, Option.map_some] at hset
  have hready := hkept loaded.id
  simp only [after_shared, after_history, hset, hobs] at hready
  constructor
  · intro hnew hloaded hbefore
    have hflush : flushColumn loaded.status new.status a.status = .ready := by
      rw [flushColumn, if_neg (fun heq => hloaded (heq.symm.trans hnew)), hnew]
    obtain ⟨t', ch, heq, hstarted⟩ := (hready (by rw [hflush])).1 hbefore
    cases heq
    exact (hbegun.uploadedSince_iff hp hnew).mpr hstarted
  · intro hnew hloaded hbefore
    have hflush : flushColumn loaded.status new.status a.status = .ready := by
      rw [flushColumn, if_pos (hnew.trans hloaded.symm)]
      exact Option.some.inj (hstatus.symm.trans hbefore)
    refine not_ingestedSince_upload ?_ (hready (by rw [hflush])).2
    simp [Obs.isUpload, hnew]

/-- A step that keeps the uploads leaves what is ready fresh. -/
theorem ReadyFresh.of_kept (hkept : UploadsKept c e c') : ReadyFresh c' :=
  fun assetId hready => (hkept assetId hready).2

end Runs

/--
**No upload is lost** in a run, in that every step makes assets ready only for runs that have begun
behind the last upload and every ready asset has been ingested since its last upload, exactly when
no upload commits between the two blocks of a run that goes on to turn the asset ready, and no
`mark_uploaded` that has loaded its asset as uploaded commits on it ready.
-/
theorem uploads_kept_iff (guessType : Str → Option Str) (errorText : Exn → Str) (db : Database)
    (tasks : List Task) (hfresh : ∀ th ∈ tasks, th.Fresh) (es : List (Event Choice Empty)) :
    (kbSystem guessType errorText).EachStep UploadsKept (.start db tasks) es ↔
      (kbSystem guessType errorText).EachStep (UploadsInTime guessType) (.start db tasks) es := by
  have hinv : Inv guessType (.start db tasks) := inv_start guessType hfresh
  have hbegun : BegunInv (.start db tasks) := begunInv_start hfresh
  constructor
  · intro h
    refine h.of_invariant (I := fun c => Inv guessType c ∧ BegunInv c) ⟨hinv, hbegun⟩ ?_ ?_
    · exact fun c e c' hc he _ => ⟨hc.1.step he, hc.2.step he⟩
    · exact fun c e c' hc he hkept => uploadsInTime_of_kept hc.1 hc.2 he hkept
  · intro h
    refine h.of_invariant (I := fun c => BegunInv c ∧ ReadyFresh c) ⟨hbegun, ?_⟩ ?_ ?_
    · exact fun assetId _ => Or.inl fun o ho => nomatch ho
    · exact fun c e c' hc he htime => ⟨hc.1.step he, .of_kept (hc.2.kept hc.1 he htime)⟩
    · exact fun c e c' hc he htime => hc.2.kept hc.1 he htime

/-! ## An upload between the blocks of a run -/

/-- Another version of the manual. -/
def revised : UploadArgs :=
  { storageKey := "kb/3/1/manual-2.pdf".toList, sizeBytes := 24, sha256 := [] }

def ingestAndUpload : List Task := [.ingest 1, .upload 1 revised]

theorem ingestAndUpload_fresh : ∀ th ∈ ingestAndUpload, th.Fresh := by
  simp only [ingestAndUpload, List.forall_mem_cons, List.not_mem_nil, false_implies, implies_true,
    and_true]
  exact ⟨.ingest 1, .upload 1 revised⟩

/-- The run has committed its first block and loaded the asset again when the upload commits. -/
def uploadedBetween : List (Event Choice Empty) := [go 0, go 0, go 0, go 1, go 1]

/-- The second block of the run then makes the new version ready. -/
theorem uploadedBetween_run : ∃ c₁ c₂,
    (kbSystem (fun _ => none) fun _ => []).exec (.start manualDb ingestAndUpload)
        uploadedBetween = some c₁ ∧
      (kbSystem (fun _ => none) fun _ => []).fire c₁ (go 0) = some c₂ ∧
      statusOf c₁.shared 1 = some .uploaded ∧ statusOf c₂.shared 1 = some .ready ∧
      c₁.history = [.stored 1 1 .uploaded, .loaded 1 1, .loaded 0 1, .stored 0 1 .processing,
        .loaded 0 1] :=
  ⟨_, _, rfl, rfl, rfl, rfl, rfl⟩

theorem upload_lost :
    ¬∀ (guessType : Str → Option Str) (errorText : Exn → Str) (db : Database) (tasks : List Task),
      (∀ th ∈ tasks, th.Fresh) → ∀ es,
        (kbSystem guessType errorText).EachStep UploadsKept (.start db tasks) es := by
  intro h
  obtain ⟨c₁, c₂, hpre, hfire, huploaded, hready, hhistory⟩ := uploadedBetween_run
  have hkept := h (fun _ => none) (fun _ => []) manualDb ingestAndUpload ingestAndUpload_fresh
    (uploadedBetween ++ [go 0]) uploadedBetween (go 0) [] c₁ c₂ rfl hpre hfire 1 hready
  obtain ⟨t, ch, heq, hstarted⟩ := hkept.1 (by rw [huploaded]; decide)
  cases heq
  rw [hhistory, ← uploadedSince_eq_false_iff (by decide)] at hstarted
  exact absurd hstarted (by decide)

theorem uploads_kept_iff_between :
    (kbSystem (fun _ => none) fun _ => []).EachStep UploadsKept (.start manualDb ingestAndUpload)
        (uploadedBetween ++ [go 0]) ↔
      (kbSystem (fun _ => none) fun _ => []).EachStep (UploadsInTime fun _ => none)
        (.start manualDb ingestAndUpload) (uploadedBetween ++ [go 0]) :=
  uploads_kept_iff (fun _ => none) (fun _ => []) manualDb ingestAndUpload ingestAndUpload_fresh _

end EnterpriseAssistant.Kb.Machine
