import EnterpriseAssistant.Kb.Machine

/-!
# Do jobs end?

A run of `run_ingestion` inserts its job as running and ends it in one of two blocks.  Between them
lies a return: where the second select finds the asset deleted, the job stays as it is.

* `JobInv.step` — where a run stands says how its job stands, and no two runs share a job
* `jobs_end_iff` — the runs in which every job has ended when its ingestion returns
-/

namespace EnterpriseAssistant.Kb.Machine

open Py Core Infra Kb Interleaving System

/-! ## Jobs -/

/-- The job is done or has failed, with the time at which it did. -/
def Ended (job : KBIndexJob) : Prop :=
  (job.status = .done ∨ job.status = .failed) ∧ job.finishedAt ≠ none

def JobEnded (db : Database) (jobId : Int) : Prop := ∃ job, jobById db jobId = some job ∧ Ended job

/-- How far a run of `run_ingestion` has come with its job. -/
inductive Stage where
  | running
  /-- ended by the second block -/
  | ended
  /-- in the `except` -/
  | failing
  | returned
deriving DecidableEq, Repr

/-- The job that the run has inserted, and how far it is with it. -/
def Task.job : Task → Option (Int × Stage)
  | .ingestLoad _ jobId | .ingestFinish _ _ jobId => some (jobId, .running)
  | .ingestLeave _ jobId => some (jobId, .ended)
  | .ingestExcept _ _ jobId | .ingestFail _ _ jobId => some (jobId, .failing)
  | .ingested (some jobId) => some (jobId, .returned)
  | _ => none

/-- What the stage says about the row. -/
def Stage.Fits (stage : Stage) (job : KBIndexJob) : Prop :=
  match stage with
  | .running => job.status = .running
  | .ended => Ended job
  | .failing | .returned => True

/-- The second select of a run finds the asset alive. -/
def LoadsLive (c : KbConfig) (e : Event Choice Empty) (_ : KbConfig) : Prop :=
  ∀ t now asset jobId, e = .run t (.go now) → c.threads[t]? = some (.ingestLoad asset jobId) →
    ∃ a, LiveAsset c.shared asset.id a

/-- From one stage to the next, without touching the job. -/
inductive Stage.Next : Stage → Stage → Prop where
  | stay (stage : Stage) : Next stage stage
  | fail (stage : Stage) : Next stage .failing
  | leave : Next .ended .returned

/-- A step of the operation `th`: the database and the operation after it. -/
inductive JobStep (db : Database) (ch : Choice) (th : Task) : Database → Task → Prop where
  /-- the operation has no job, or an exception has left the run -/
  | drop {db' : Database} {th' : Task} (h : db'.jobs = db.jobs) (hth' : th'.job = none) :
      JobStep db ch th db' th'
  | insert {db₁ db' : Database} {th' : Task} {job : KBIndexJob} {assetId now : Int}
      (h : insertJob assetId now db = .ok (job, db₁)) (hdb' : db'.jobs = db₁.jobs)
      (hth' : th'.job = some (job.id, .running)) : JobStep db ch th db' th'
  | keep {db' : Database} {th' : Task} {jobId : Int} {stage stage' : Stage}
      (h : db'.jobs = db.jobs) (hth : th.job = some (jobId, stage))
      (hth' : th'.job = some (jobId, stage')) (hnext : stage.Next stage') :
      JobStep db ch th db' th'
  /-- the early return -/
  | vanished {now : Int} {asset : KBAsset} {jobId : Int} (hch : ch = .go now)
      (hth : th = .ingestLoad asset jobId) (h : ¬∃ a, LiveAsset db asset.id a) :
      JobStep db ch th db (.ingested (some jobId))
  | close {db' : Database} {th' : Task} {jobId now : Int} {stage stage' : Stage}
      {status : IndexJobStatus} {error : Option Str} (hth : th.job = some (jobId, stage))
      (hth' : th'.job = some (jobId, stage')) (hstage : stage' = .ended ∨ stage' = .returned)
      (hstatus : status = .done ∨ status = .failed)
      (h : db'.jobs = (closeJob jobId status error now db).jobs) : JobStep db ch th db' th'

section Spec

variable {guessType : Str → Option Str} {errorText : Exn → Str} {db : Database} {t : Nat}

theorem jobs_loadLive (db : Database) (t : Nat) (assetId : Int) (next : KBAsset → Task) (otherwise : Task) :
    let m := loadLive db t assetId next otherwise
    m.shared = db ∧ ((m.thread = otherwise ∧ ¬∃ a, LiveAsset db assetId a) ∨
      ∃ a, LiveAsset db assetId a ∧ m.thread = next a) := by
  unfold loadLive
  cases ha : assetById db assetId with
  | none =>
    refine ⟨rfl, Or.inl ⟨rfl, ?_⟩⟩
    rintro ⟨a, hrow, -⟩
    rw [ha] at hrow
    cases hrow
  | some a =>
    by_cases hdel : a.status = .deleted
    · simp only [if_pos hdel]
      refine ⟨rfl, Or.inl ⟨rfl, ?_⟩⟩
      rintro ⟨b, hrow, hlive⟩
      rw [ha] at hrow
      cases hrow
      exact hlive hdel
    · simp only [if_neg hdel]
      exact ⟨trivial, Or.inr ⟨a, ⟨ha, hdel⟩, rfl⟩⟩

/-- A select in an operation without a job. -/
theorem jobStep_loadLive {ch : Choice} {th : Task} {assetId : Int} {next : KBAsset → Task}
    {otherwise : Task} (hnext : ∀ a, (next a).job = none) (hother : otherwise.job = none) :
    let m := loadLive db t assetId next otherwise
    JobStep db ch th m.shared m.thread := by
  intro m
  obtain ⟨hshared, ⟨hth, -⟩ | ⟨a, -, hth⟩⟩ :=
    jobs_loadLive db t assetId next otherwise
  · exact .drop (congrArg Database.jobs hshared) (hth ▸ hother)
  · exact .drop (congrArg Database.jobs hshared) (hth ▸ hnext a)

theorem jobStep_storeStep {ch : Choice} {th : Task} {loaded new : KBAsset} :
    let m := storeStep db t loaded new
    JobStep db ch th m.shared m.thread := by
  unfold storeStep
  split
  · exact .drop rfl rfl
  · next u db' hflush =>
    rw [flushAsset_ok hflush]
    exact .drop rfl rfl

theorem jobStep_fail {now : Int} {asset3 : Option KBAsset} {error : Str} {jobId : Int} :
    let m := ingestFailStep db t asset3 error jobId now
    JobStep db (.go now) (.ingestFail asset3 error jobId) m.shared m.thread := by
  unfold ingestFailStep
  split
  · exact .drop rfl rfl
  · next u db' hok =>
    rw [failBlock_ok hok]
    cases failWrite asset3 error with
    | none => exact .close rfl rfl (Or.inr rfl) (Or.inr rfl) rfl
    | some w => exact .close rfl rfl (Or.inr rfl) (Or.inr rfl) rfl

theorem jobStep_raise {th : Task} {error : Str} {m : KbMove} (h : raiseStep db th error = some m) :
    JobStep db (.raises error) th m.shared m.thread := by
  unfold raiseStep at h
  split at h
  · cases h
    exact .keep rfl rfl rfl (.fail _)
  · cases h
    exact .keep rfl rfl rfl (.fail _)
  · cases h
    exact .keep rfl rfl rfl (.fail _)
  · cases h
  · cases h
  · cases h
    exact .drop rfl rfl

theorem jobStep_cases {th : Task} {ch : Choice} {m : KbMove}
    (h : (kbSystem guessType errorText).step db t th ch = some m) :
    JobStep db ch th m.shared m.thread := by
  cases ch with
  | raises error => exact jobStep_raise h
  | go now =>
    cases th with
    | ingest assetId =>
      cases h
      refine jobStep_loadLive (fun a => ?_) rfl
      split
      · rfl
      · rfl
    | ingestStart asset =>
      cases h
      unfold ingestStartStep
      split
      · exact .drop rfl rfl
      · next job db' hok =>
        obtain ⟨db₁, hinsert, rfl⟩ := startBlock_ok hok
        exact .insert hinsert rfl rfl
    | ingestLoad asset jobId =>
      cases h
      obtain ⟨hshared, ⟨hth, hnone⟩ | ⟨a, -, hth⟩⟩ := jobs_loadLive db t asset.id
        (fun a => .ingestFinish asset a jobId) (.ingested (some jobId))
      · rw [hshared, hth]
        exact .vanished rfl rfl hnone
      · rw [hshared, hth]
        exact .keep rfl rfl rfl (.stay _)
    | ingestFinish asset asset2 jobId =>
      cases h
      unfold ingestFinishStep
      split
      · exact .keep rfl rfl rfl (.fail _)
      · next u db' hok =>
        rw [readyBlock_ok hok]
        exact .close rfl rfl (Or.inl rfl) (Or.inl rfl) rfl
    | ingestLeave assetId jobId =>
      cases h
      exact .keep rfl rfl rfl .leave
    | ingestExcept assetId error jobId =>
      cases h
      exact .keep rfl rfl rfl (.stay _)
    | ingestFail asset3 error jobId =>
      cases h
      exact jobStep_fail
    | ingested jobId => cases h
    | upload assetId args =>
      cases h
      exact jobStep_loadLive (fun a => rfl) rfl
    | uploadStore asset args =>
      cases h
      exact jobStep_storeStep
    | softDelete assetId =>
      cases h
      exact jobStep_loadLive (fun a => rfl) rfl
    | softDeleteStore asset =>
      cases h
      exact jobStep_storeStep
    | ended => cases h

/-! ## Rows -/

theorem jobById_congr {db db' : Database} (h : db'.jobs = db.jobs) (id : Int) :
    jobById db' id = jobById db id := by
  simp only [jobById, h]

variable {ch : Choice} {th th' : Task} {db' : Database}

/-- A step leaves the jobs of the other operations. -/
theorem JobStep.others (h : JobStep db ch th db' th') {id : Int}
    (hrow : (jobById db id).isSome = true) (hother : ∀ stage, th.job ≠ some (id, stage)) :
    jobById db' id = jobById db id := by
  cases h with
  | drop hjobs _ => exact jobById_congr hjobs id
  | insert hinsert hjobs _ =>
    obtain ⟨-, -, -, hold⟩ := insertJob_jobs hinsert
    rw [jobById_congr hjobs, hold id hrow]
  | keep hjobs _ _ _ => exact jobById_congr hjobs id
  | vanished _ _ _ => rfl
  | @close _ _ jobId now stage _ status error hth _ _ _ hjobs =>
    rw [jobById_congr hjobs, jobById_closeJob]
    obtain ⟨job, hjob⟩ := Option.isSome_iff_exists.mp hrow
    have hid : job.id = id := by simpa using List.find?_some hjob
    have hne : job.id ≠ jobId := by
      rintro rfl
      exact hother stage (hid ▸ hth)
    rw [hjob, Option.map_some, if_neg hne]

/-- The job of an operation after a step is the one before, or a new one. -/
theorem JobStep.job_before (h : JobStep db ch th db' th') {id : Int} {stage' : Stage}
    (hth' : th'.job = some (id, stage')) :
    (∃ stage, th.job = some (id, stage)) ∨ jobById db id = none := by
  cases h with
  | drop _ hnone =>
    rw [hnone] at hth'
    cases hth'
  | insert hinsert _ hnew =>
    rw [hnew] at hth'
    cases hth'
    exact Or.inr (insertJob_jobs hinsert).2.1
  | keep _ hth hsame _ =>
    rw [hsame] at hth'
    cases hth'
    exact Or.inl ⟨_, hth⟩
  | vanished _ hth _ =>
    cases hth'
    exact Or.inl ⟨.running, by rw [hth]; rfl⟩
  | close hth hsame _ _ _ =>
    rw [hsame] at hth'
    cases hth'
    exact Or.inl ⟨_, hth⟩

theorem jobEnded_closeJob {jobId now : Int} {status : IndexJobStatus} {error : Option Str}
    (hstatus : status = .done ∨ status = .failed) {job : KBIndexJob}
    (hjob : jobById db jobId = some job) :
    ∃ job', jobById (closeJob jobId status error now db) jobId = some job' ∧ Ended job' := by
  have hid : job.id = jobId := by simpa using List.find?_some hjob
  refine ⟨_, by rw [jobById_closeJob, hjob, Option.map_some, if_pos hid], hstatus, ?_⟩
  exact Option.some_ne_none now

/-- The stage after a step fits the row after it. -/
theorem JobStep.fits (h : JobStep db ch th db' th')
    (hbefore : ∀ id stage, th.job = some (id, stage) →
      ∃ job, jobById db id = some job ∧ stage.Fits job)
    {id : Int} {stage' : Stage} (hth' : th'.job = some (id, stage')) :
    ∃ job, jobById db' id = some job ∧ stage'.Fits job := by
  cases h with
  | drop _ hnone =>
    rw [hnone] at hth'
    cases hth'
  | insert hinsert hjobs hnew =>
    rw [hnew] at hth'
    cases hth'
    obtain ⟨hrunning, -, hrow, -⟩ := insertJob_jobs hinsert
    exact ⟨_, by rw [jobById_congr hjobs, hrow], hrunning⟩
  | keep hjobs hth hsame hnext =>
    rw [hsame] at hth'
    cases hth'
    obtain ⟨job, hrow, hfits⟩ := hbefore _ _ hth
    refine ⟨job, by rw [jobById_congr hjobs, hrow], ?_⟩
    cases hnext with
    | stay => exact hfits
    | fail => trivial
    | leave => trivial
  | vanished _ hth _ =>
    cases hth'
    obtain ⟨job, hrow, -⟩ := hbefore id .running (by rw [hth]; rfl)
    exact ⟨job, hrow, trivial⟩
  | close hth hsame hstage hstatus hjobs =>
    rw [hsame] at hth'
    cases hth'
    obtain ⟨job, hrow, -⟩ := hbefore _ _ hth
    obtain ⟨job', hrow', hended⟩ := jobEnded_closeJob hstatus hrow
    refine ⟨job', by rw [jobById_congr hjobs, hrow'], ?_⟩
    rcases hstage with rfl | rfl
    · exact hended
    · trivial

end Spec

/-! ## What holds in every run -/

structure JobInv (c : KbConfig) : Prop where
  fits : ∀ (t : Nat) (th : Task), c.threads[t]? = some th → ∀ id stage,
    th.job = some (id, stage) → ∃ job, jobById c.shared id = some job ∧ stage.Fits job
  distinct : ∀ (t : Nat) (th : Task), c.threads[t]? = some th → ∀ (t' : Nat) (th' : Task),
    c.threads[t']? = some th' → ∀ id stage stage', th.job = some (id, stage) →
      th'.job = some (id, stage') → t = t'

theorem jobInv_start {db : Database} {tasks : List Task} (h : ∀ th ∈ tasks, th.Fresh) :
    JobInv (.start db tasks) := by
  have hnone : ∀ (t : Nat) (th : Task), (Config.start db tasks : KbConfig).threads[t]? = some th →
      th.job = none := by
    intro t th hth
    cases h th (List.mem_of_getElem? hth) with
    | _ => rfl
  refine ⟨fun t th hth id stage hjob => ?_, fun t th hth t' th' _ id stage stage' hjob => ?_⟩
  · rw [hnone t th hth] at hjob
    cases hjob
  · rw [hnone t th hth] at hjob
    cases hjob

section Runs

variable {guessType : Str → Option Str} {errorText : Exn → Str} {c c' : KbConfig}
  {e : Event Choice Empty}

/-- The thread that moves, and what its step does to the jobs. -/
theorem fire_jobs (h : (kbSystem guessType errorText).fire c e = some c') :
    ∃ t ch th m, e = .run t ch ∧ c.threads[t]? = some th ∧ c' = after c t m ∧
      (kbSystem guessType errorText).step c.shared t th ch = some m ∧
      JobStep c.shared ch th m.shared m.thread := by
  cases e with
  | env e => exact nomatch e
  | run t ch =>
    obtain ⟨th, m, hth, hm, rfl⟩ := fire_run _ h
    exact ⟨t, ch, th, m, rfl, hth, rfl, hm, jobStep_cases hm⟩

/-- Another operation's step leaves the row of a job. -/
theorem JobInv.row_kept (hinv : JobInv c) {t i : Nat} {ch : Choice} {th th' : Task} {m : KbMove}
    (hstep : JobStep c.shared ch th m.shared m.thread) (hth : c.threads[t]? = some th)
    (hth' : c.threads[i]? = some th') (hne : i ≠ t) {id : Int} {stage : Stage}
    (hjob : th'.job = some (id, stage)) : jobById m.shared id = jobById c.shared id := by
  obtain ⟨job, hrow, -⟩ := hinv.fits i th' hth' id stage hjob
  refine hstep.others (by rw [hrow]; rfl) fun stage' hmine => ?_
  exact hne (hinv.distinct i th' hth' t th hth id stage stage' hjob hmine)

theorem JobInv.step (hinv : JobInv c) (h : (kbSystem guessType errorText).fire c e = some c') :
    JobInv c' := by
  obtain ⟨t, ch, th, m, -, hth, rfl, -, hstep⟩ := fire_jobs h
  -- the job of the operation that moved is no other's
  have hown : ∀ (i : Nat) (th' : Task), i ≠ t → c.threads[i]? = some th' → ∀ id stage stage',
      th'.job = some (id, stage) → m.thread.job ≠ some (id, stage') := by
    intro i th' hne hth' id stage stage' hjob hmine
    rcases hstep.job_before hmine with ⟨stage'', hbefore⟩ | hnone
    · exact hne (hinv.distinct i th' hth' t th hth id stage stage'' hjob hbefore)
    · obtain ⟨job, hrow, -⟩ := hinv.fits i th' hth' id stage hjob
      rw [hnone] at hrow
      cases hrow
  refine ⟨forall_set_of_ne (fun i th' hne hth' id stage hjob => ?_) fun id stage hjob => ?_,
    forall_set_of_ne (fun i th₁ hne hth₁ => ?_) ?_⟩
  · rw [after_shared, hinv.row_kept hstep hth hth' hne hjob]
    exact hinv.fits i th' hth' id stage hjob
  · exact hstep.fits (hinv.fits t th hth) hjob
  · refine forall_set_of_ne (fun i' th₂ _ hth₂ => ?_) fun id stage stage' hjob hjob' => ?_
    · exact hinv.distinct i th₁ hth₁ i' th₂ hth₂
    · exact absurd hjob' (hown i th₁ hne hth₁ id stage stage' hjob)
  · refine forall_set_of_ne (fun i' th₂ hne hth₂ id stage stage' hjob hjob' => ?_)
      fun _ _ _ _ _ => rfl
    exact absurd hjob (hown i' th₂ hne hth₂ id stage' stage hjob')

/-! ## Returned runs -/

/-- Every job has ended whose run has returned. -/
def ReturnedEnded (c : KbConfig) : Prop :=
  ∀ (t : Nat) (jobId : Int), c.threads[t]? = some (.ingested (some jobId)) →
    JobEnded c.shared jobId

theorem ReturnedEnded.step (hinv : JobInv c) (hret : ReturnedEnded c)
    (h : (kbSystem guessType errorText).fire c e = some c') (hlive : LoadsLive c e c') :
    ReturnedEnded c' := by
  obtain ⟨t, ch, th, m, rfl, hth, rfl, hm, hstep⟩ := fire_jobs h
  have hmine : ∀ jobId, m.thread = .ingested (some jobId) → JobEnded m.shared jobId := by
    intro jobId heq
    generalize m.shared = db', m.thread = th' at hstep heq
    subst heq
    cases hstep with
    | drop _ hnone => cases hnone
    | insert _ _ hnew => cases hnew
    | @keep _ _ jobId stage stage' hjobs hth' hsame hnext =>
      cases hsame
      obtain ⟨job, hrow, hfits⟩ := hinv.fits t th hth _ _ hth'
      cases hnext with
      | stay =>
        -- a run that has returned makes no step
        cases th with
        | ingested jobId' => cases ch with
          | go now => cases hm
          | raises error => cases hm
        | _ => cases hth'
      | leave => exact ⟨job, by rw [jobById_congr hjobs, hrow], hfits⟩
    | vanished hch hload hnone =>
      subst hch hload
      exact absurd (hlive t _ _ _ rfl hth) hnone
    | close hth' hsame _ hstatus hjobs =>
      cases hsame
      obtain ⟨job, hrow, -⟩ := hinv.fits t th hth _ _ hth'
      obtain ⟨job', hrow', hended⟩ := jobEnded_closeJob hstatus hrow
      exact ⟨job', by rw [jobById_congr hjobs, hrow'], hended⟩
  have hall : ∀ (i : Nat) (th' : Task), (c.threads.set t m.thread)[i]? = some th' → ∀ jobId,
      th' = .ingested (some jobId) → JobEnded m.shared jobId := by
    refine forall_set_of_ne (fun i th' hne hth' jobId heq => ?_) hmine
    subst heq
    obtain ⟨job, hrow, hended⟩ := hret i jobId hth'
    exact ⟨job, by rw [hinv.row_kept hstep hth hth' hne rfl, hrow], hended⟩
  exact fun i jobId hi => hall i _ hi jobId rfl

/-- Run `t` has returned and left its job running. -/
def LeftRunning (t : Nat) (jobId : Int) (c : KbConfig) : Prop :=
  c.threads[t]? = some (.ingested (some jobId)) ∧
    ∃ job, jobById c.shared jobId = some job ∧ job.status = .running

theorem LeftRunning.step {t : Nat} {jobId : Int} (hinv : JobInv c) (hleft : LeftRunning t jobId c)
    (h : (kbSystem guessType errorText).fire c e = some c') : LeftRunning t jobId c' := by
  obtain ⟨i, ch, th, m, rfl, hth, rfl, hm, hstep⟩ := fire_jobs h
  obtain ⟨hret, job, hrow, hrunning⟩ := hleft
  have hne : t ≠ i := by
    rintro rfl
    rw [hret] at hth
    cases hth
    cases ch with
    | go now => cases hm
    | raises error => cases hm
  refine ⟨(List.getElem?_set_ne (Ne.symm hne)).trans hret, job, ?_, hrunning⟩
  rw [after_shared, hinv.row_kept hstep hth hret hne rfl, hrow]

/-- The early return leaves the job running. -/
theorem leftRunning_of_not_live {t : Nat} {now : Int} {asset : KBAsset} {jobId : Int}
    (hinv : JobInv c) (hth : c.threads[t]? = some (.ingestLoad asset jobId))
    (h : (kbSystem guessType errorText).fire c (.run t (.go now)) = some c')
    (hnone : ¬∃ a, LiveAsset c.shared asset.id a) : LeftRunning t jobId c' := by
  obtain ⟨th, m, hth', hm, rfl⟩ := fire_run _ h
  rw [hth] at hth'
  cases hth'
  cases hm
  obtain ⟨hshared, ⟨hthread, -⟩ | ⟨a, ha, -⟩⟩ := jobs_loadLive c.shared t asset.id
    (fun a => .ingestFinish asset a jobId) (.ingested (some jobId))
  · obtain ⟨job, hrow, hrunning⟩ := hinv.fits t _ hth jobId .running rfl
    refine ⟨?_, job, by rw [after_shared, hshared, hrow], hrunning⟩
    rw [after_threads, hthread, List.getElem?_set_self (List.getElem?_eq_some_iff.mp hth).1]
  · exact absurd ⟨a, ha⟩ hnone

end Runs

/--
**Every job ends** with the run that has inserted it, as long as no second select finds its asset
gone or deleted, and only then.
-/
theorem jobs_end_iff (guessType : Str → Option Str) (errorText : Exn → Str) (db : Database)
    (tasks : List Task) (hfresh : ∀ th ∈ tasks, th.Fresh) (es : List (Event Choice Empty))
    (c : KbConfig) (h : (kbSystem guessType errorText).exec (.start db tasks) es = some c) :
    ReturnedEnded c ↔ (kbSystem guessType errorText).EachStep LoadsLive (.start db tasks) es := by
  have hinv : JobInv (.start db tasks) := jobInv_start hfresh
  constructor
  · rintro hret pre e post c₁ c₂ rfl hpre hfire t now asset jobId rfl hth
    by_contra hnone
    have hinv₁ : JobInv c₁ := exec_invariant _ (fun _ _ _ hc he => hc.step he) pre hinv hpre
    have hleft : LeftRunning t jobId c₂ := leftRunning_of_not_live hinv₁ hth hfire hnone
    have hpost : (kbSystem guessType errorText).exec c₂ post = some c := by
      rwa [exec_append, hpre, Option.bind_some, exec_cons _ hfire] at h
    -- nobody touches the job from here on
    obtain ⟨-, hret', job, hrow, hrunning⟩ := exec_invariant
      (I := fun c => JobInv c ∧ LeftRunning t jobId c) _
      (fun _ _ _ hc he => ⟨hc.1.step he, hc.2.step hc.1 he⟩) post ⟨hinv₁.step hfire, hleft⟩ hpost
    obtain ⟨job', hrow', hstatus, -⟩ := hret t jobId hret'
    rw [hrow] at hrow'
    cases hrow'
    rw [hrunning] at hstatus
    rcases hstatus with hstatus | hstatus
    · cases hstatus
    · cases hstatus
  · intro hlive
    refine (exec_invariant_of_eachStep (I := fun c => JobInv c ∧ ReturnedEnded c)
      (fun _ _ _ hc he hl => ⟨hc.1.step he, hc.2.step hc.1 he hl⟩) es ⟨hinv, ?_⟩ hlive h).2
    intro t jobId hth
    cases hfresh _ (List.mem_of_getElem? hth)

/-! ## A deletion in front of the second select -/

/-- The ingestion has inserted its job when the deletion commits. -/
def deletedBehindStart : List (Event Choice Empty) := [go 0, go 0, go 1, go 1, go 0]

theorem deletedBehindStart_run : ∃ c,
    (kbSystem (fun _ => none) fun _ => []).exec (.start manualDb ingestAndDelete)
        deletedBehindStart = some c ∧
      c.threads[0]? = some (.ingested (some 1)) ∧
      (jobById c.shared 1).map KBIndexJob.status = some .running :=
  ⟨_, rfl, rfl, rfl⟩

theorem jobs_end_iff_deletedBehindStart : ∃ c,
    (kbSystem (fun _ => none) fun _ => []).exec (.start manualDb ingestAndDelete)
        deletedBehindStart = some c ∧
      (ReturnedEnded c ↔ (kbSystem (fun _ => none) fun _ => []).EachStep LoadsLive
        (.start manualDb ingestAndDelete) deletedBehindStart) := by
  obtain ⟨c, hc, -⟩ := deletedBehindStart_run
  exact ⟨c, hc, jobs_end_iff (fun _ => none) (fun _ => []) manualDb ingestAndDelete
    ingestAndDelete_fresh deletedBehindStart c hc⟩

theorem job_left_running :
    ¬∀ (guessType : Str → Option Str) (errorText : Exn → Str) (db : Database) (tasks : List Task),
      (∀ th ∈ tasks, th.Fresh) → ∀ es c,
        (kbSystem guessType errorText).exec (.start db tasks) es = some c → ReturnedEnded c := by
  intro h
  obtain ⟨c, hc, hret, hrunning⟩ := deletedBehindStart_run
  obtain ⟨job, hrow, hstatus, -⟩ := h (fun _ => none) (fun _ => []) manualDb ingestAndDelete
    ingestAndDelete_fresh deletedBehindStart c hc 0 1 hret
  rw [hrow, Option.map_some, Option.some.injEq] at hrunning
  rw [hrunning] at hstatus
  rcases hstatus with hstatus | hstatus
  · cases hstatus
  · cases hstatus

end EnterpriseAssistant.Kb.Machine
