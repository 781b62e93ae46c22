import EnterpriseAssistant.Lib.JsonText
import EnterpriseAssistant.Core.Errors
import EnterpriseAssistant.Core.RequestContext
import EnterpriseAssistant.Audit.StdMeta

/-!
# Recording audit events

`record` of `app/modules/audit/service.py` and the buffer of `app/modules/audit/context.py`.  An
event carries its metadata in the standard form of `_std_meta`, with the error code in it.
-/

namespace EnterpriseAssistant.Audit

open Py Core

variable {ω : Type}

/-- What `record` asks of the libraries. -/
structure Conversion (ω : Type) where
  words : WordClass
  /-- `str` of an unknown object; `none` where it raises -/
  text : ω → Option Str
  modelDump : List (Str × Value ω) → Value ω

/-- `_std_meta` -/
def Conversion.stdMeta (c : Conversion ω) : Value ω → Option Str → Option (Value ω) :=
  Audit.stdMeta c.words c.text c.modelDump

theorem isSome_stdMeta (c : Conversion ω) (v : Value ω) (errorCode : Option Str) :
    (c.stdMeta v errorCode).isSome = converts c.text v := by
  rw [Conversion.stdMeta, stdMeta, Option.isSome_map, isSome_normalizeMeta]

theorem stdMeta_storable (c : Conversion ω)
    (hdump : ∀ fields, c.modelDump fields = toPython (.model fields)) {v : Value ω}
    (hconverts : converts c.text v = true) (hok : objOk jsonKey c.text v = true)
    (errorCode : Option Str) : ∃ m, c.stdMeta v errorCode = some m ∧ storable jsonKey m = true := by
  have hstored : (c.stdMeta v errorCode).any (storable jsonKey)
      = (converts c.text v && objOk jsonKey c.text v) :=
    any_storable_stdMeta c.words (fun _ => rfl) hdump v errorCode
  rw [hconverts, hok, Bool.and_self, Option.any_eq_true] at hstored
  exact hstored

/-- Where all values are JSON. -/
def jsonConversion (w : WordClass) : Conversion Empty where
  words := w
  text o := nomatch o
  modelDump fields := toPython (.model fields)

/-- The arguments of `record`, with metadata of the type `μ`. -/
structure RecordArgs (μ : Type) where
  action : String
  status : String := "ok"
  httpStatus : Option Int := none
  scopeKey : Option Str := none
  resourceType : Option String := none
  resourceRefId : Option Int := none
  actorUserId : Option Int := none
  «meta» : Option μ := none
  errorCode : Option Str := none
deriving DecidableEq, Repr

/-- The metadata of a handler as a value. -/
def metaValue : MetaVal → Value ω
  | .str s => .str s
  | .int n => .int n
  | .bool b => .bool b
  | .strs ss => .list (ss.map .str)
  | .json text => (JsonText.read text).getD .none

def RecordArgs.ofMeta (args : RecordArgs Meta) : RecordArgs (Value ω) :=
  { args with
    «meta» := args.meta.map fun m => strDict (m.map fun e => (e.1.toList, metaValue e.2)) }

structure AuditEvent (ω : Type) where
  requestId : Option Str
  actorUserId : Option Int
  action : String
  scopeKey : Option Str
  resourceType : Option String
  resourceRefId : Option Int
  status : String
  httpStatus : Option Int
  ip : Option Str
  userAgent : Option Str
  «meta» : Value ω

/-- The event that `record` builds; `none` is what `str` raises in `_std_meta`. -/
def buildEvent (c : Conversion ω) (ctx : RequestContext) (args : RecordArgs (Value ω)) :
    Option (AuditEvent ω) :=
  (c.stdMeta (args.meta.getD .none) args.errorCode).map fun m =>
    { requestId := ctx.requestId
      actorUserId := args.actorUserId.or ctx.userId
      action := args.action
      scopeKey := args.scopeKey
      resourceType := args.resourceType
      resourceRefId := args.resourceRefId
      status := args.status
      httpStatus := args.httpStatus
      ip := orNone ctx.clientIp
      userAgent := orNone ctx.userAgent
      «meta» := m }

/-- `_audit_events`: `none` where there is no audit context. -/
abbrev AuditBuffer (ω : Type) := Option (List (AuditEvent ω))

/-- `add_audit_event`. -/
def addAuditEvent (buf : AuditBuffer ω) (evt : AuditEvent ω) : AuditBuffer ω :=
  buf.map fun evts => evts ++ [evt]

/-- `pop_audit_events`: the events, and the buffer after it. -/
def popAuditEvents (buf : AuditBuffer ω) : List (AuditEvent ω) × AuditBuffer ω :=
  (buf.getD [], buf.map fun _ => [])

end EnterpriseAssistant.Audit
