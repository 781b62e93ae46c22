import EnterpriseAssistant.Lib.Interleaving
import EnterpriseAssistant.Kb.Pipeline

/-!
# Operations on assets, interleaved

Any number of `run_ingestion`, `mark_uploaded` and `soft_delete_asset` over one database.  A select
is one step and the `begin` block behind it is another, which commits atomically.  Where a call may
raise, the environment decides whether it does.

* `step_cases` — what a step does to the assets
-/

namespace EnterpriseAssistant.Kb.Machine

open Py Core Infra Kb Interleaving

/-- An operation, at the next thing that it does. -/
inductive Task where
  /-- `run_ingestion`, before its first select -/
  | ingest (assetId : Int)
  /-- before the block that inserts the job -/
  | ingestStart (asset : KBAsset)
  /-- in the `try`: before `sniff` and the second select -/
  | ingestLoad (asset : KBAsset) (jobId : Int)
  /-- in the `try`: before the block that ends the job -/
  | ingestFinish (asset asset2 : KBAsset) (jobId : Int)
  /-- in the `try`: behind that block -/
  | ingestLeave (assetId jobId : Int)
  /-- in the `except`: before the third select -/
  | ingestExcept (assetId : Int) (error : Str) (jobId : Int)
  /-- in the `except`: before its block -/
  | ingestFail (asset3 : Option KBAsset) (error : Str) (jobId : Int)
  /-- `run_ingestion` has returned; the job that it has inserted -/
  | ingested (jobId : Option Int)
  /-- `mark_uploaded`, before its select -/
  | upload (assetId : Int) (args : UploadArgs)
  | uploadStore (asset : KBAsset) (args : UploadArgs)
  /-- `soft_delete_asset`, before its select -/
  | softDelete (assetId : Int)
  | softDeleteStore (asset : KBAsset)
  /-- `mark_uploaded` or `soft_delete_asset` has returned, or an exception has left the operation -/
  | ended
deriving DecidableEq, Repr

/-- An operation that has just been called. -/
inductive Task.Fresh : Task → Prop where
  | ingest (assetId : Int) : Fresh (.ingest assetId)
  | upload (assetId : Int) (args : UploadArgs) : Fresh (.upload assetId args)
  | softDelete (assetId : Int) : Fresh (.softDelete assetId)

inductive Choice where
  /-- the call returns; the clock -/
  | go (now : Int)
  /-- an exception with this text, and the block is rolled back -/
  | raises (error : Str)
deriving DecidableEq, Repr

inductive Obs where
  /-- a select of operation `t` has answered a live row -/
  | loaded (t : Nat) (assetId : Int)
  /-- a block of operation `t` has committed the row with this status -/
  | stored (t : Nat) (assetId : Int) (status : AssetStatus)
deriving DecidableEq, Repr

/-! ## The steps -/

abbrev KbMove := Move Database Task Obs

/-- The operation goes on as `th`; the database has not changed. -/
def goOn (db : Database) (th : Task) : KbMove := { shared := db, thread := th, obs := [] }

/-- A select: the operation goes on with a live row, or ends as `otherwise`. -/
def loadLive (db : Database) (t : Nat) (assetId : Int) (next : KBAsset → Task) (otherwise : Task) :
    KbMove :=
  match assetById db assetId with
  | none => goOn db otherwise
  | some a =>
    if a.status = .deleted then goOn db otherwise
    else { shared := db, thread := next a, obs := [.loaded t assetId] }

/-- A block has committed a changed row. -/
def committed (db : Database) (t : Nat) (new : KBAsset) (next : Task) : KbMove :=
  { shared := db, thread := next, obs := [.stored t new.id new.status] }

section Steps

variable (guessType : Str → Option Str) (errorText : Exn → Str)

def ingestStartStep (db : Database) (t : Nat) (asset : KBAsset) (now : Int) : KbMove :=
  match startBlock asset now db with
  -- not in the `try` yet: the exception leaves `run_ingestion`
  | .error _ => goOn db .ended
  | .ok (job, db) => committed db t (withStatus .processing none asset) (.ingestLoad asset job.id)

def ingestFinishStep (db : Database) (t : Nat) (assetId : Int) (sr : SniffResult)
    (asset2 : KBAsset) (jobId now : Int) : KbMove :=
  match readyBlock asset2 sr jobId now db with
  -- the block is rolled back, its `UPDATE` of the job included
  | .error e => goOn db (.ingestExcept assetId (errorText e) jobId)
  | .ok (_, db) => committed db t (readyRow sr asset2) (.ingestLeave assetId jobId)

def ingestFailStep (db : Database) (t : Nat) (asset3 : Option KBAsset) (error : Str)
    (jobId now : Int) : KbMove :=
  match failBlock asset3 error jobId now db with
  | .error _ => goOn db .ended
  | .ok (_, db) =>
    match failWrite asset3 error with
    | some (_, new) => committed db t new (.ingested (some jobId))
    | none => goOn db (.ingested (some jobId))

/-- The third select takes the row as it is. -/
def ingestExceptStep (db : Database) (t : Nat) (assetId : Int) (error : Str) (jobId : Int) :
    KbMove :=
  let asset3 := assetById db assetId
  { shared := db, thread := .ingestFail asset3 error jobId
    obs := if asset3.any fun a => a.status ≠ .deleted then [.loaded t assetId] else [] }

/-- A block whose only statement is the flush of a row. -/
def storeStep (db : Database) (t : Nat) (loaded new : KBAsset) : KbMove :=
  match flushAsset loaded new db with
  | .error _ => goOn db .ended
  | .ok (_, db) => committed db t new .ended

/-- The call of the operation returns. -/
def goStep (db : Database) (t : Nat) (th : Task) (now : Int) : Option KbMove :=
  match th with
  | .ingest assetId =>
    some (loadLive db t assetId
      (fun a => if orNone a.storageKey = none then .ingested none else .ingestStart a)
      (.ingested none))
  | .ingestStart asset => some (ingestStartStep db t asset now)
  | .ingestLoad asset jobId =>
    -- the early return inside the `try` leaves the job as it is
    some (loadLive db t asset.id (fun a => .ingestFinish asset a jobId) (.ingested (some jobId)))
  | .ingestFinish asset asset2 jobId =>
    some (ingestFinishStep errorText db t asset.id (sniff guessType asset.filename asset.mimeType)
      asset2 jobId now)
  | .ingestLeave _ jobId => some (goOn db (.ingested (some jobId)))
  | .ingestExcept assetId error jobId => some (ingestExceptStep db t assetId error jobId)
  | .ingestFail asset3 error jobId => some (ingestFailStep db t asset3 error jobId now)
  | .upload assetId args => some (loadLive db t assetId (fun a => .uploadStore a args) .ended)
  | .uploadStore asset args => some (storeStep db t asset (uploadedRow args asset))
  | .softDelete assetId => some (loadLive db t assetId .softDeleteStore .ended)
  | .softDeleteStore asset => some (storeStep db t asset (deletedRow asset))
  | .ingested _ | .ended => none

/-- The call of the operation raises. -/
def raiseStep (db : Database) (th : Task) (error : Str) : Option KbMove :=
  match th with
  | .ingestLoad asset jobId | .ingestFinish asset _ jobId =>
    some (goOn db (.ingestExcept asset.id error jobId))
  | .ingestLeave assetId jobId => some (goOn db (.ingestExcept assetId error jobId))
  | .ingested _ | .ended => none
  | _ => some (goOn db .ended)

/-- Nothing happens to the database but what the operations do. -/
def kbSystem : System Database Task Choice Empty Obs where
  step db t th ch :=
    match ch with
    | .go now => goStep guessType errorText db t th now
    | .raises error => raiseStep db th error
  env _ e := nomatch e

end Steps

abbrev KbConfig := Config Database Task Obs

/-! ## What a step does to the assets -/

section Spec

variable (guessType : Str → Option Str)

/-- The row that the next block of the operation has loaded, and the row that it will flush. -/
def Task.write : Task → Option (KBAsset × KBAsset)
  | .ingestStart asset => some (asset, withStatus .processing none asset)
  | .ingestFinish asset asset2 _ =>
    some (asset2, readyRow (sniff guessType asset.filename asset.mimeType) asset2)
  | .ingestFail asset3 error _ => failWrite asset3 error
  | .uploadStore asset args => some (asset, uploadedRow args asset)
  | .softDeleteStore asset => some (asset, deletedRow asset)
  | _ => none

/-- A step of an operation that is about to flush `w`: the database, the observations, and what the
operation is about to flush then. -/
inductive AssetStep (db : Database) (t : Nat) (ch : Choice) (w : Option (KBAsset × KBAsset)) :
    Database → List Obs → Option (KBAsset × KBAsset) → Prop where
  /-- no row changes; a block that returns has found its row gone -/
  | quiet {db' : Database} (h : db'.assets = db.assets)
      (hgone : ∀ now loaded new, ch = .go now → w = some (loaded, new) →
        assetById db loaded.id = none) : AssetStep db t ch w db' [] none
  | load {id : Int} {w' : Option (KBAsset × KBAsset)} (hw : w = none)
      (hlive : ∀ loaded new, w' = some (loaded, new) →
        assetById db id = some loaded ∧ loaded.status ≠ .deleted) :
      AssetStep db t ch w db [.loaded t id] w'
  | store {db' : Database} {now : Int} {loaded new : KBAsset} (hch : ch = .go now)
      (hw : w = some (loaded, new)) (hid : new.id = loaded.id)
      (h : db'.assets = (storedIn loaded new db).assets) :
      AssetStep db t ch w db' [.stored t new.id new.status] none

variable {guessType} {db : Database} {t : Nat}

/-- What an operation is about to flush it has loaded in this step, live. -/
theorem AssetStep.loaded_live {ch : Choice} {w : Option (KBAsset × KBAsset)} {db' : Database}
    {obs : List Obs} {loaded new : KBAsset}
    (h : AssetStep db t ch w db' obs (some (loaded, new))) :
    db' = db ∧ assetById db loaded.id = some loaded ∧ loaded.status ≠ .deleted := by
  cases h with
  | load _ hlive =>
    obtain ⟨hrow, hstatus⟩ := hlive loaded new rfl
    exact ⟨rfl, by rw [id_of_assetById hrow, hrow], hstatus⟩

theorem AssetStep.of_none {db' : Database} {ch : Choice} (h : db'.assets = db.assets) :
    AssetStep db t ch none db' [] none :=
  .quiet h fun _ _ _ _ hw => nomatch hw

/-- The status of an asset after a step: as before, or as the flush of the operation leaves it. -/
theorem AssetStep.statusOf {ch : Choice} {w w' : Option (KBAsset × KBAsset)} {db' : Database}
    {obs : List Obs} (h : AssetStep db t ch w db' obs w') (id : Int) :
    (Kb.statusOf db' id = Kb.statusOf db id ∧ ∀ t' status, .stored t' id status ∉ obs) ∨
      ∃ now loaded new, ch = .go now ∧ w = some (loaded, new) ∧ id = loaded.id ∧
        obs = [.stored t id new.status] ∧
          Kb.statusOf db' id = (Kb.statusOf db id).map (flushColumn loaded.status new.status) := by
  cases h with
  | quiet hsame _ => exact Or.inl ⟨statusOf_congr hsame id, fun _ _ => List.not_mem_nil⟩
  | load _ _ => exact Or.inl ⟨rfl, by simp⟩
  | @store _ now loaded new hch hw hid hstored =>
    rw [statusOf_congr hstored]
    by_cases hrow : id = loaded.id
    · subst hrow
      exact Or.inr ⟨now, loaded, new, hch, hw, rfl, by rw [hid], statusOf_storedIn loaded new db⟩
    · refine Or.inl ⟨statusOf_storedIn_of_ne hrow, fun t' status hmem => hrow ?_⟩
      cases List.mem_singleton.mp hmem
      exact hid

/-- The block of an operation whose row is still there commits. -/
theorem AssetStep.flushed {now : Int} {loaded new : KBAsset} {w' : Option (KBAsset × KBAsset)}
    {db' : Database} {obs : List Obs}
    (h : AssetStep db t (.go now) (some (loaded, new)) db' obs w')
    (hrow : (assetById db loaded.id).isSome = true) :
    obs = [.stored t loaded.id new.status] ∧
      Kb.statusOf db' loaded.id
        = (Kb.statusOf db loaded.id).map (flushColumn loaded.status new.status) := by
  cases h with
  | quiet _ hgone =>
    rw [hgone now loaded new rfl rfl] at hrow
    cases hrow
  | load hnone _ => cases hnone
  | store _ hw hid hstored =>
    cases hw
    rw [statusOf_congr hstored, statusOf_storedIn, hid]
    exact ⟨rfl, rfl⟩

theorem assetStep_loadLive {ch : Choice} {assetId : Int} {next : KBAsset → Task} {otherwise : Task}
    (hnext : ∀ a loaded new, (next a).write guessType = some (loaded, new) → loaded = a)
    (hother : otherwise.write guessType = none) :
    let m := loadLive db t assetId next otherwise
    AssetStep db t ch none m.shared m.obs (m.thread.write guessType) := by
  unfold loadLive
  split
  · show AssetStep db t ch none db [] (otherwise.write guessType)
    rw [hother]
    exact .of_none rfl
  · next a ha =>
    split
    · show AssetStep db t ch none db [] (otherwise.write guessType)
      rw [hother]
      exact .of_none rfl
    · next hlive =>
      refine .load rfl fun loaded new hw => ?_
      obtain rfl := hnext a loaded new hw
      exact ⟨ha, hlive⟩

theorem assetStep_storeStep {now : Int} {loaded new : KBAsset} (hid : new.id = loaded.id) :
    let m := storeStep db t loaded new
    AssetStep db t (.go now) (some (loaded, new)) m.shared m.obs (m.thread.write guessType) := by
  unfold storeStep
  split
  · next e herr =>
    refine .quiet rfl fun _ loaded' new' _ hw => ?_
    cases hw
    exact flushAsset_error herr
  · next db' hflush =>
    exact .store rfl rfl hid (by rw [flushAsset_ok hflush]; rfl)

theorem assetStep_except {now : Int} {assetId : Int} {error : Str} {jobId : Int} :
    let m := ingestExceptStep db t assetId error jobId
    AssetStep db t (.go now) none m.shared m.obs (m.thread.write guessType) := by
  unfold ingestExceptStep
  cases ha : assetById db assetId with
  | none => exact .of_none rfl
  | some a =>
    by_cases hdel : a.status = .deleted
    · simp only [Option.any_some, Task.write, failWrite, if_pos hdel]
      rw [if_neg (by simpa using hdel)]
      exact .of_none rfl
    · simp only [Option.any_some, Task.write, failWrite, if_neg hdel]
      rw [if_pos (by simpa using hdel)]
      refine .load rfl fun loaded new hw => ?_
      cases hw
      exact ⟨ha, hdel⟩

theorem assetStep_fail {now : Int} {asset3 : Option KBAsset} {error : Str} {jobId : Int} :
    let m := ingestFailStep db t asset3 error jobId now
    AssetStep db t (.go now) (failWrite asset3 error) m.shared m.obs
      (m.thread.write guessType) := by
  unfold ingestFailStep
  split
  · next e herr =>
    obtain ⟨loaded, new, hw, hgone⟩ := failBlock_error herr
    refine .quiet rfl fun _ loaded' new' _ hw' => ?_
    rw [hw] at hw'
    cases hw'
    exact hgone
  · next u db' hok =>
    rw [failBlock_ok hok]
    cases hw : failWrite asset3 error with
    | none => exact .of_none rfl
    | some w =>
      obtain ⟨a, -, heq⟩ := failWrite_eq hw
      cases heq
      exact .store rfl rfl rfl rfl

/-- An operation that raises has changed nothing, and has nothing to flush. -/
theorem raiseStep_goOn (guessType : Str → Option Str) {th : Task} {error : Str} {m : KbMove}
    (h : raiseStep db th error = some m) :
    ∃ th', m = goOn db th' ∧ th'.write guessType = none := by
  unfold raiseStep at h
  split at h
  all_goals first
    | cases h; exact ⟨_, rfl, rfl⟩
    | cases h

/-- Every step: the assets stay, a live row is loaded, or the row that was loaded is flushed. -/
theorem step_cases {errorText : Exn → Str} {th : Task} {ch : Choice} {m : KbMove}
    (h : (kbSystem guessType errorText).step db t th ch = some m) :
    AssetStep db t ch (th.write guessType) m.shared m.obs (m.thread.write guessType) := by
  cases ch with
  | raises error =>
    obtain ⟨th', rfl, hw⟩ := raiseStep_goOn guessType h
    simp only [goOn, hw]
    exact .quiet rfl fun _ _ _ hch => nomatch hch
  | go now =>
    cases th with
    | ingest assetId =>
      cases h
      refine assetStep_loadLive (fun a loaded new hw => ?_) rfl
      split at hw
      · cases hw
      · cases hw
        rfl
    | ingestStart asset =>
      cases h
      unfold ingestStartStep
      split
      · next e herr =>
        refine .quiet rfl fun _ _ _ _ hw => ?_
        cases hw
        exact startBlock_error herr
      · next job db' hok =>
        obtain ⟨db₁, hinsert, rfl⟩ := startBlock_ok hok
        refine .store rfl rfl rfl ?_
        simp only [storedIn, committed, insertJob_assets hinsert]
    | ingestLoad asset jobId =>
      cases h
      refine assetStep_loadLive (fun a loaded new hw => ?_) rfl
      cases hw
      rfl
    | ingestFinish asset asset2 jobId =>
      cases h
      unfold ingestFinishStep
      split
      · next e herr =>
        refine .quiet rfl fun _ _ _ _ hw => ?_
        cases hw
        exact readyBlock_error herr
      · next u db' hok =>
        rw [readyBlock_ok hok]
        exact .store rfl rfl rfl rfl
    | ingestLeave assetId jobId =>
      cases h
      exact .of_none rfl
    | ingestExcept assetId error jobId =>
      cases h
      exact assetStep_except
    | ingestFail asset3 error jobId =>
      cases h
      exact assetStep_fail
    | ingested jobId => cases h
    | upload assetId args =>
      cases h
      refine assetStep_loadLive (fun a loaded new hw => ?_) rfl
      cases hw
      rfl
    | uploadStore asset args =>
      cases h
      exact assetStep_storeStep rfl
    | softDelete assetId =>
      cases h
      refine assetStep_loadLive (fun a loaded new hw => ?_) rfl
      cases hw
      rfl
    | softDeleteStore asset =>
      cases h
      exact assetStep_storeStep rfl
    | ended => cases h

end Spec

/-! ## An ingestion and a deletion -/

/-- An asset that has been uploaded. -/
def manual : KBAsset :=
  { id := 1, workspaceId := 3, projectId := none, createdBy := 7, filename := "manual.pdf".toList
    title := none, mimeType := none, sourceType := none, sizeBytes := some 20, sha256 := none
    storageKey := some "kb/3/1/manual.pdf".toList, status := .uploaded, «meta» := none }

def manualDb : Database :=
  { users := [], roles := [], permissions := [], rolePermissions := [], grants := []
    workspaces := [3], projects := [], assets := [manual], jobs := [] }

/-- An ingestion and a deletion of the asset. -/
def ingestAndDelete : List Task := [.ingest 1, .softDelete 1]

theorem ingestAndDelete_fresh : ∀ th ∈ ingestAndDelete, th.Fresh := by
  simp only [ingestAndDelete, List.forall_mem_cons, List.not_mem_nil, false_implies, implies_true,
    and_true]
  exact ⟨.ingest 1, .softDelete 1⟩

/-- The next call of operation `t` returns. -/
def go (t : Nat) : Event Choice Empty := .run t (.go 0)

end EnterpriseAssistant.Kb.Machine
