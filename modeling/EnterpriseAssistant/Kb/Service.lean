import EnterpriseAssistant.Infra.App

/-!
# Assets

`app/modules/kb/service.py`.  Every operation on an existing asset loads the row with a select and
writes it in a later `begin` block; what the block does to the database is a function of the loaded
row, so that it can also be interleaved with others (`Kb/Machine.lean`).
-/

namespace EnterpriseAssistant.Kb

open Py Core Infra Program SqlSession

/-- `select(KBAsset).where(KBAsset.id == id)`. -/
def assetById (db : Database) (id : Int) : Option KBAsset := db.assets.find? fun a => a.id == id

/-- An asset with this id is there and has not been deleted. -/
def LiveAsset (db : Database) (assetId : Int) (a : KBAsset) : Prop :=
  assetById db assetId = some a ∧ a.status ≠ .deleted

/-! ## The flush of a changed row -/

/-- A column is written when the attribute differs from what was loaded. -/
def flushColumn {α : Type} [DecidableEq α] (loaded new current : α) : α :=
  if new = loaded then current else new

/-- `UPDATE .. WHERE id = ..` of the attributes that the handlers change. -/
def flushColumns (loaded new row : KBAsset) : KBAsset :=
  { row with
    mimeType := flushColumn loaded.mimeType new.mimeType row.mimeType
    sourceType := flushColumn loaded.sourceType new.sourceType row.sourceType
    sizeBytes := flushColumn loaded.sizeBytes new.sizeBytes row.sizeBytes
    sha256 := flushColumn loaded.sha256 new.sha256 row.sha256
    storageKey := flushColumn loaded.storageKey new.storageKey row.storageKey
    status := flushColumn loaded.status new.status row.status
    «meta» := flushColumn loaded.meta new.meta row.meta }

/-- `db.flush()` of an asset that was loaded as `loaded` and is now `new`. -/
def flushAsset (loaded new : KBAsset) (db : Database) : Except Exn (Unit × Database) :=
  -- where nothing is dirty no `UPDATE` is sent, and no row has to match
  if new = loaded then .ok ((), db)
  else if db.assets.any (fun a => a.id == loaded.id) then
    .ok ((), { db with
      assets := db.assets.map fun a => if a.id = loaded.id then flushColumns loaded new a else a })
  else .error .staleData

/-- What a flush that matches a row makes of the table. -/
def storedIn (loaded new : KBAsset) (db : Database) : Database :=
  { db with
    assets := db.assets.map fun a => if a.id = loaded.id then flushColumns loaded new a else a }

theorem flushColumns_self (loaded row : KBAsset) : flushColumns loaded loaded row = row := by
  simp [flushColumns, flushColumn]

theorem storedIn_self (a : KBAsset) (db : Database) : storedIn a a db = db := by
  simp [storedIn, flushColumns_self]

theorem flushAsset_ok {loaded new : KBAsset} {db db' : Database} {u : Unit}
    (h : flushAsset loaded new db = .ok (u, db')) : db' = storedIn loaded new db := by
  unfold flushAsset at h
  split at h
  · next heq =>
    cases h
    rw [heq, storedIn_self]
  · split at h
    · cases h
      rfl
    · cases h

/-- A flush fails only when its row has gone. -/
theorem flushAsset_error {loaded new : KBAsset} {db : Database} {e : Exn}
    (h : flushAsset loaded new db = .error e) : assetById db loaded.id = none := by
  unfold flushAsset at h
  split at h
  · cases h
  · split at h
    · cases h
    · next hany =>
      rw [assetById, List.find?_eq_none]
      simpa using hany

theorem id_of_assetById {db : Database} {id : Int} {a : KBAsset} (h : assetById db id = some a) :
    a.id = id := by
  simpa using List.find?_some h

theorem assetById_storedIn (loaded new : KBAsset) (db : Database) (id : Int) :
    assetById (storedIn loaded new db) id =
      (assetById db id).map fun a =>
        if a.id = loaded.id then flushColumns loaded new a else a := by
  have hid : ((fun a : KBAsset => a.id == id) ∘ fun a : KBAsset =>
      if a.id = loaded.id then flushColumns loaded new a else a) = fun a : KBAsset => a.id == id := by
    funext a
    by_cases ha : a.id = loaded.id
    · simp [ha, flushColumns]
    · simp [ha]
  simp only [assetById, storedIn, List.find?_map, hid]

/-- The status of the asset, when it is there. -/
def statusOf (db : Database) (id : Int) : Option AssetStatus := (assetById db id).map KBAsset.status

theorem statusOf_congr {db db' : Database} (h : db'.assets = db.assets) (id : Int) :
    statusOf db' id = statusOf db id := by
  simp only [statusOf, assetById, h]

theorem statusOf_storedIn_of_ne {loaded new : KBAsset} {db : Database} {id : Int}
    (h : id ≠ loaded.id) : statusOf (storedIn loaded new db) id = statusOf db id := by
  simp only [statusOf, assetById_storedIn]
  cases ha : assetById db id with
  | none => rfl
  | some a => rw [Option.map_some, if_neg (id_of_assetById ha ▸ h)]

/-- A flush changes the status only from the loaded one to another. -/
theorem statusOf_storedIn (loaded new : KBAsset) (db : Database) :
    statusOf (storedIn loaded new db) loaded.id =
      (statusOf db loaded.id).map (flushColumn loaded.status new.status) := by
  simp only [statusOf, assetById_storedIn]
  cases ha : assetById db loaded.id with
  | none => rfl
  | some a =>
    simp only [Option.map_some, if_pos (id_of_assetById ha)]
    rfl

/-! ## The operations -/

/-- The arguments of `create_asset`. -/
structure CreateAssetArgs where
  workspaceId : Int
  projectId : Option Int
  createdBy : Int
  filename : Str
  mimeType : Option Str
  title : Option Str
  «meta» : Option Meta

/-- The foreign keys of an asset name rows that exist. -/
def assetKeysExist (args : CreateAssetArgs) (db : Database) : Bool :=
  db.workspaces.contains args.workspaceId && args.projectId.all (fun p => db.projects.contains p)
    && (Auth.userById db.users args.createdBy).isSome

/-- `db.add(a)` with the flush and the refresh behind it. -/
def insertAsset (args : CreateAssetArgs) (db : Database) : Except Exn (KBAsset × Database) :=
  if assetKeysExist args db then
    let a : KBAsset :=
      { id := freshId (db.assets.map fun a => a.id), workspaceId := args.workspaceId
        projectId := args.projectId, createdBy := args.createdBy, filename := args.filename
        title := args.title, mimeType := args.mimeType, sourceType := none, sizeBytes := none
        sha256 := none, storageKey := none, status := .pending, «meta» := args.meta }
    .ok (a, { db with assets := db.assets ++ [a] })
  else .error .integrity

def createAsset (rule : BeginRule) (args : CreateAssetArgs) : App KBAsset :=
  begin rule (execute (insertAsset args))

/-- The arguments of `mark_uploaded`. -/
structure UploadArgs where
  storageKey : Str
  sizeBytes : Int
  sha256 : Str
deriving DecidableEq, Repr

/-- The row as `mark_uploaded` leaves it. -/
def uploadedRow (args : UploadArgs) (a : KBAsset) : KBAsset :=
  { a with
    storageKey := some args.storageKey, sizeBytes := some args.sizeBytes
    sha256 := some args.sha256, status := .uploaded }

/-- The row as `soft_delete_asset` leaves it. -/
def deletedRow (a : KBAsset) : KBAsset := { a with status := .deleted }

/-- `raise_err("error.http", http_status=404, message="asset_not_found")`. -/
def assetNotFound : AppError := err "error.http" (some 404) (some "asset_not_found")

def markUploaded (rule : BeginRule) (assetId : Int) (args : UploadArgs) : App (Option KBAsset) := do
  let a ← select fun db => assetById db assetId
  match a with
  | none => Prog.raise (.app assetNotFound)
  | some a =>
    if a.status = .deleted then Prog.raise (.app assetNotFound)
    else
      begin rule do
        execute (flushAsset a (uploadedRow args a))
        select fun db => assetById db assetId

def softDeleteAsset (rule : BeginRule) (assetId : Int) : App Unit := do
  let a ← select fun db => assetById db assetId
  match a with
  | none => pure ()
  | some a =>
    if a.status = .deleted then pure ()
    else begin rule (execute (flushAsset a (deletedRow a)))

end EnterpriseAssistant.Kb
