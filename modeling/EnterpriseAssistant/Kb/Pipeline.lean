import EnterpriseAssistant.Kb.Service
import EnterpriseAssistant.Kb.Sniff

/-!
# Ingestion

`run_ingestion` of `app/modules/kb/ingestion/pipeline.py`: three sessions, each of which loads the
asset and then writes in a `begin` block.  The blocks are functions of the database, as in
`Kb/Service.lean`.
-/

namespace EnterpriseAssistant.Kb

open Py Core Infra Program SqlSession

/-! ## The blocks -/

/-- `m.update(meta_patch)` and `m or None`. -/
def patchMeta (m patch : Option Meta) : Option Meta :=
  let m' := (m.getD []).update (patch.getD [])
  if m' = [] then none else some m'

/-- The row as `_set_asset_status` leaves it. -/
def withStatus (status : AssetStatus) (metaPatch : Option Meta) (a : KBAsset) : KBAsset :=
  { a with status := status, «meta» := patchMeta a.meta metaPatch }

/-- `select(KBIndexJob).where(KBIndexJob.id == id)`. -/
def jobById (db : Database) (id : Int) : Option KBIndexJob := db.jobs.find? fun j => j.id == id

/-- `db.add(job)`: the new job and the database with it. -/
def insertJob (assetId now : Int) (db : Database) : Except Exn (KBIndexJob × Database) :=
  if (assetById db assetId).isSome then
    let job : KBIndexJob :=
      { id := freshId (db.jobs.map fun j => j.id), assetId := assetId, status := .running
        error := none, startedAt := some now, finishedAt := none }
    .ok (job, { db with jobs := db.jobs ++ [job] })
  else .error .integrity

/-- The job ends, when it is there. -/
def closeJob (jobId : Int) (status : IndexJobStatus) (error : Option Str) (now : Int)
    (db : Database) : Database :=
  { db with
    jobs := db.jobs.map fun j =>
      if j.id = jobId then
        { j with status := status, error := error.or j.error, finishedAt := some now }
      else j }

/-- The first block: the job is inserted and the asset is processing. -/
def startBlock (asset : KBAsset) (now : Int) (db : Database) :
    Except Exn (KBIndexJob × Database) :=
  match insertJob asset.id now db with
  | .error e => .error e
  | .ok (job, db) =>
    match flushAsset asset (withStatus .processing none asset) db with
    | .error e => .error e
    | .ok (_, db) => .ok (job, db)

/-- The row that the second block writes. -/
def readyRow (sr : SniffResult) (a : KBAsset) : KBAsset :=
  withStatus .ready sr.meta
    { a with
      mimeType := (orNone sr.mimeType).or a.mimeType
      sourceType := (orNone sr.sourceType).or a.sourceType }

/-- The second block: the asset is ready and the job done. -/
def readyBlock (asset : KBAsset) (sr : SniffResult) (jobId now : Int) (db : Database) :
    Except Exn (Unit × Database) :=
  match flushAsset asset (readyRow sr asset) db with
  | .error e => .error e
  | .ok (_, db) => .ok ((), closeJob jobId .done none now db)

/-- The row that the error path writes. -/
def failedRow (error : Str) (a : KBAsset) : KBAsset :=
  withStatus .failed (some [("error", .str error)]) a

/-- The block of the error path: the asset has failed, unless it was deleted, and so has the job. -/
def failBlock (asset : Option KBAsset) (error : Str) (jobId now : Int) (db : Database) :
    Except Exn (Unit × Database) :=
  match asset with
  | none => .ok ((), closeJob jobId .failed (some error) now db)
  | some a =>
    if a.status = .deleted then .ok ((), closeJob jobId .failed (some error) now db)
    else
      match flushAsset a (failedRow error a) db with
      | .error e => .error e
      | .ok (_, db) => .ok ((), closeJob jobId .failed (some error) now db)

/-! ### What the blocks commit -/

/-- The new job is running, under an id that no job had. -/
theorem insertJob_jobs {assetId now : Int} {db db' : Database} {job : KBIndexJob}
    (h : insertJob assetId now db = .ok (job, db')) :
    job.status = .running ∧ jobById db job.id = none ∧ jobById db' job.id = some job ∧
      ∀ id, (jobById db id).isSome = true → jobById db' id = jobById db id := by
  unfold insertJob at h
  split at h
  · cases h
    have hfresh : jobById db (freshId (db.jobs.map fun j => j.id)) = none := by
      refine List.find?_eq_none.mpr fun j hj => ?_
      have hlt := lt_freshId (List.mem_map_of_mem (f := fun j : KBIndexJob => j.id) hj)
      simp only [beq_iff_eq]
      omega
    refine ⟨rfl, hfresh, ?_, fun id hid => ?_⟩
    · simp only [jobById] at hfresh
      simp only [jobById, List.find?_append, hfresh, Option.none_or, List.find?_singleton,
        beq_self_eq_true, if_true]
    · obtain ⟨j, hj⟩ := Option.isSome_iff_exists.mp hid
      simp only [jobById] at hj
      simp only [jobById, List.find?_append, hj, Option.some_or]
  · cases h

theorem jobById_closeJob (jobId : Int) (status : IndexJobStatus) (error : Option Str) (now : Int)
    (db : Database) (id : Int) :
    jobById (closeJob jobId status error now db) id =
      (jobById db id).map fun j =>
        if j.id = jobId then
          { j with status := status, error := error.or j.error, finishedAt := some now }
        else j := by
  have hid : ((fun j : KBIndexJob => j.id == id) ∘ fun j : KBIndexJob =>
      if j.id = jobId then
        { j with status := status, error := error.or j.error, finishedAt := some now }
      else j) = fun j : KBIndexJob => j.id == id := by
    funext j
    by_cases hj : j.id = jobId
    · simp [hj]
    · simp [hj]
  simp only [jobById, closeJob, List.find?_map, hid]

theorem insertJob_assets {assetId now : Int} {db db' : Database} {job : KBIndexJob}
    (h : insertJob assetId now db = .ok (job, db')) : db'.assets = db.assets := by
  unfold insertJob at h
  split at h
  · cases h
    rfl
  · cases h

theorem startBlock_ok {asset : KBAsset} {now : Int} {db db' : Database} {job : KBIndexJob}
    (h : startBlock asset now db = .ok (job, db')) :
    ∃ db₁, insertJob asset.id now db = .ok (job, db₁) ∧
      db' = storedIn asset (withStatus .processing none asset) db₁ := by
  unfold startBlock at h
  split at h
  · cases h
  · next job' db₁ hinsert =>
    split at h
    · cases h
    · next u db₂ hflush =>
      cases h
      exact ⟨db₁, hinsert, flushAsset_ok hflush⟩

theorem startBlock_error {asset : KBAsset} {now : Int} {db : Database} {e : Exn}
    (h : startBlock asset now db = .error e) : assetById db asset.id = none := by
  unfold startBlock at h
  split at h
  · next e' hinsert =>
    unfold insertJob at hinsert
    split at hinsert
    · cases hinsert
    · next hnone => simpa using hnone
  · next job db₁ hinsert =>
    split at h
    · next e' hflush =>
      have hgone := flushAsset_error hflush
      rwa [assetById, insertJob_assets hinsert] at hgone
    · cases h

theorem readyBlock_ok {asset : KBAsset} {sr : SniffResult} {jobId now : Int} {db db' : Database}
    {u : Unit} (h : readyBlock asset sr jobId now db = .ok (u, db')) :
    db' = closeJob jobId .done none now (storedIn asset (readyRow sr asset) db) := by
  unfold readyBlock at h
  split at h
  · cases h
  · next u' db₁ hflush =>
    cases h
    rw [flushAsset_ok hflush]

theorem readyBlock_error {asset : KBAsset} {sr : SniffResult} {jobId now : Int} {db : Database}
    {e : Exn} (h : readyBlock asset sr jobId now db = .error e) : assetById db asset.id = none := by
  unfold readyBlock at h
  split at h
  · next e' hflush => exact flushAsset_error hflush
  · cases h

/-- The row that the block of the error path flushes. -/
def failWrite (asset : Option KBAsset) (error : Str) : Option (KBAsset × KBAsset) :=
  match asset with
  | none => none
  | some a => if a.status = .deleted then none else some (a, failedRow error a)

theorem failWrite_some {a : KBAsset} (hlive : a.status ≠ .deleted) (error : Str) :
    failWrite (some a) error = some (a, failedRow error a) := if_neg hlive

theorem failWrite_eq {asset : Option KBAsset} {error : Str} {w : KBAsset × KBAsset}
    (h : failWrite asset error = some w) :
    ∃ a, a.status ≠ .deleted ∧ w = (a, failedRow error a) := by
  unfold failWrite at h
  split at h
  · cases h
  · next a =>
    split at h
    · cases h
    · next hlive =>
      cases h
      exact ⟨a, hlive, rfl⟩

theorem failBlock_ok {asset : Option KBAsset} {error : Str} {jobId now : Int} {db db' : Database}
    {u : Unit} (h : failBlock asset error jobId now db = .ok (u, db')) :
    db' = closeJob jobId .failed (some error) now
      (match failWrite asset error with
        | none => db
        | some (loaded, new) => storedIn loaded new db) := by
  unfold failBlock at h
  unfold failWrite
  split at h
  · cases h
    rfl
  · next a =>
    split at h
    · next hdel =>
      cases h
      simp only [if_pos hdel]
    · next hdel =>
      simp only [if_neg hdel]
      split at h
      · cases h
      · next u' db₁ hflush =>
        cases h
        rw [flushAsset_ok hflush]

theorem failBlock_error {asset : Option KBAsset} {error : Str} {jobId now : Int} {db : Database}
    {e : Exn} (h : failBlock asset error jobId now db = .error e) :
    ∃ loaded new, failWrite asset error = some (loaded, new) ∧ assetById db loaded.id = none := by
  unfold failBlock at h
  unfold failWrite
  split at h
  · cases h
  · next a =>
    split at h
    · cases h
    · next hdel =>
      split at h
      · next e' hflush => exact ⟨a, failedRow error a, if_neg hdel, flushAsset_error hflush⟩
      · cases h

/-- On a live asset the error path raises only when the row is gone. -/
theorem failBlock_error_live {a : KBAsset} {error : Str} {jobId now : Int} {db : Database} {e : Exn}
    (hlive : a.status ≠ .deleted) (h : failBlock (some a) error jobId now db = .error e) :
    assetById db a.id = none := by
  obtain ⟨loaded, new, hw, hgone⟩ := failBlock_error h
  rw [failWrite_some hlive] at hw
  cases hw
  exact hgone

/-! ## The run, with nothing in between -/

/-- `async with session_maker() as db: body`. -/
def inSession {α : Type} (body : App α) : App α := do
  Prog.update (State.onSession Session.rollback)
  Prog.finallyUpdate body (State.onSession Session.rollback)

/-- The first session: what is ingested, and its job. -/
def startIngestion (rule : BeginRule) (assetId now : Int) : App (Option (KBAsset × KBIndexJob)) :=
  inSession do
    let asset ← select fun db => assetById db assetId
    match asset with
    | none => pure none
    | some asset =>
      if asset.status = .deleted then pure none
      else if orNone asset.storageKey = none then pure none
      else do
        let job ← begin rule (execute (startBlock asset now))
        pure (some (asset, job))

/-- The second session. -/
def finishIngestion (rule : BeginRule) (assetId : Int) (sr : SniffResult) (jobId now : Int) :
    App Unit :=
  inSession do
    let asset ← select fun db => assetById db assetId
    match asset with
    | none => pure ()
    | some asset =>
      if asset.status = .deleted then pure ()
      else begin rule (execute (readyBlock asset sr jobId now))

/-- The session of the error path. -/
def failIngestion (rule : BeginRule) (assetId : Int) (error : Str) (jobId now : Int) : App Unit :=
  inSession do
    let asset ← select fun db => assetById db assetId
    begin rule (execute (failBlock asset error jobId now))

/-- `run_ingestion`; `errorText` is `str(e)`. -/
def runIngestion (rule : BeginRule) (guessType : Str → Option Str) (errorText : Exn → Str)
    (assetId now : Int) : App Unit := do
  let started ← startIngestion rule assetId now
  match started with
  | none => pure ()
  | some (asset, job) =>
    Prog.tryExcept
      (finishIngestion rule assetId (sniff guessType asset.filename asset.mimeType) job.id now)
      fun e => failIngestion rule assetId (errorText e) job.id now

end EnterpriseAssistant.Kb
