import EnterpriseAssistant.Lib.SqlSession
import EnterpriseAssistant.Audit.Service
import EnterpriseAssistant.Auth.Models
import EnterpriseAssistant.Kb.Models

/-!
# Request handlers as programs

The database, the exceptions, and the state in which a handler runs: its session, the request
context and the audit buffer.
-/

namespace EnterpriseAssistant.Infra

open Py Core Auth Audit Kb Program SqlSession

/-- The tables that the handlers touch.  `workspaces` and `projects` are the ids that exist. -/
structure Database where
  users : List User
  roles : List Role
  permissions : List Permission
  rolePermissions : List RolePermission
  grants : List UserRoleGrant
  workspaces : List Int
  projects : List Int
  assets : List KBAsset
  jobs : List KBIndexJob

/-- What a handler may raise. -/
inductive Exn where
  | app (e : AppError)
  /-- `InvalidRequestError` of the session -/
  | invalidRequest
  /-- `IntegrityError` of the database -/
  | integrity
  /-- `StaleDataError`: an update has matched no row -/
  | staleData
deriving DecidableEq, Repr

/-- What an identity column gives to a new row. -/
def freshId (ids : List Int) : Int := ids.foldl max 0 + 1

theorem le_foldl_max (ids : List Int) :
    ∀ a : Int, a ≤ ids.foldl max a ∧ ∀ i ∈ ids, i ≤ ids.foldl max a := by
  induction ids with
  | nil => exact fun a => ⟨Int.le_refl a, fun i hi => nomatch hi⟩
  | cons k ids ih =>
    intro a
    obtain ⟨hle, hall⟩ := ih (max a k)
    refine ⟨Int.le_trans (Int.le_max_left a k) hle, fun i hi => ?_⟩
    rcases List.mem_cons.mp hi with rfl | hi
    · exact Int.le_trans (Int.le_max_right a i) hle
    · exact hall i hi

/-- The id of a new row is above all others. -/
theorem lt_freshId {ids : List Int} {i : Int} (h : i ∈ ids) : i < freshId ids :=
  Int.lt_add_one_of_le ((le_foldl_max ids 0).2 i h)

/-- What a handler finds and changes beside the database. -/
structure Ambient where
  ctx : RequestContext
  audit : AuditBuffer Empty
  /-- `\w` of the patterns that redact what is recorded -/
  words : WordClass

/-- Outside of any request, as in the lifespan of the application. -/
def Ambient.empty : Ambient := { ctx := .cleared, audit := none, words := asciiWords }

abbrev AppState := State Database Ambient

/-- A handler, or a part of one. -/
abbrev App := Prog AppState Exn

/-- `record(..)`; in the metadata of the handlers there is nothing of which `str` raises. -/
def record (args : RecordArgs Meta) : App Unit :=
  Prog.update fun s =>
    { s with
      rest := { s.rest with
        audit := match buildEvent (jsonConversion s.rest.words) s.rest.ctx args.ofMeta with
          | some evt => addAuditEvent s.rest.audit evt
          | none => s.rest.audit } }

/-- `set_user_id`. -/
def setUserId (id : Int) : App Unit :=
  Prog.update fun s =>
    { s with rest := { s.rest with ctx := { s.rest.ctx with userId := some id } } }

/-- `raise_err`. -/
def raiseErr {α : Type} (code : String) (httpStatus : Option Int := none)
    (message : Option String := none) («meta» : Option Meta := none) : App α :=
  Prog.raise (.app (err code httpStatus message «meta»))

/-- `async with db.begin(): body`. -/
def begin {α : Type} (rule : BeginRule) (body : App α) : App α :=
  beginBlock rule .invalidRequest body

/-! ## What they do to the session -/

theorem keeps_record {I : AppState → Prop} (h : ∀ s r, I s → I { s with rest := r })
    (args : RecordArgs Meta) : Prog.Keeps I (record args) :=
  fun s hs => h s _ hs

end EnterpriseAssistant.Infra
