import EnterpriseAssistant.Core.Errors

/-!
# Knowledge base rows

The rows of `app/modules/kb/models.py` and the status names of `app/modules/kb/consts.py`, without
the columns that nothing reads.
-/

namespace EnterpriseAssistant.Kb

open Py Core

/-- `ASSET_STATUS_*`. -/
inductive AssetStatus where
  | pending
  | uploaded
  | processing
  | ready
  | failed
  | deleted
deriving DecidableEq, Repr

/-- `INDEX_JOB_STATUS_*`. -/
inductive IndexJobStatus where
  | queued
  | running
  | done
  | failed
deriving DecidableEq, Repr

structure KBAsset where
  id : Int
  workspaceId : Int
  projectId : Option Int
  createdBy : Int
  filename : Str
  title : Option Str
  mimeType : Option Str
  sourceType : Option Str
  sizeBytes : Option Int
  sha256 : Option Str
  storageKey : Option Str
  status : AssetStatus
  «meta» : Option Meta
deriving DecidableEq, Repr

structure KBIndexJob where
  id : Int
  assetId : Int
  status : IndexJobStatus
  error : Option Str
  startedAt : Option Int
  finishedAt : Option Int
deriving DecidableEq, Repr

end EnterpriseAssistant.Kb
