import EnterpriseAssistant.Lib.Program
import EnterpriseAssistant.Api.Request
import EnterpriseAssistant.Audit.Service

/-!
# The audit buffer of a request

`app/modules/audit/context.py` and `flush_audit` of `app/modules/audit/middleware.py`, with the
context variables as they are: every task has its own, a new task starts with a copy, and the
variable of the buffer refers to a list that the copies share.

* `perform_adds` — what is recorded in a task ends up in the list, in order
* `flushAudit_run` — what `flush_audit` makes of the list
-/

namespace EnterpriseAssistant.Audit

open Py Core Api Program

variable {ω : Type}

/-! ## Contexts -/

/-- The context variables of a task; `events` refers to a list of `World.buffers`. -/
structure ContextVars where
  request : RequestContext
  events : Option Nat
deriving DecidableEq, Repr

/-- Every variable has its default. -/
def ContextVars.cleared : ContextVars := { request := .cleared, events := none }

structure World (ω : Type) where
  /-- the context of the running task -/
  current : ContextVars
  /-- the lists that `init_audit_context` has made -/
  buffers : List (List (AuditEvent ω))
  /-- the table `audit_events`, oldest row first -/
  stored : List (AuditEvent ω)
  /-- the events that `record` has built, oldest first -/
  recorded : List (AuditEvent ω)
  /-- those that `flush_audit` has taken out of a buffer -/
  handed : List (AuditEvent ω)

/-- A coroutine; it raises the name of an exception's class. -/
abbrev Web (ω α : Type) := Prog (World ω) Str α

/-- The body runs as a task of its own, on a copy of the context. -/
def inTask {α : Type} (body : Web ω α) : Web ω α := fun w =>
  ((body w).1, { (body w).2 with current := w.current })

/-- A task that has this context goes on; the context that it has then. -/
def resume (vars : ContextVars) (body : Web ω Unit) : Web ω ContextVars :=
  inTask do
    Prog.update fun w => { w with current := vars }
    body
    fun w => (.ok w.current, w)

/-- `set_request_id` and its siblings. -/
def setContext (f : RequestContext → RequestContext) : Web ω Unit :=
  Prog.update fun w => { w with current := { w.current with request := f w.current.request } }

/-- The buffer of the running task. -/
def World.buffer (w : World ω) : AuditBuffer ω := w.current.events.bind fun i => w.buffers[i]?

/-- The list of the running task changes in place. -/
def World.modifyBuffer (w : World ω) (f : List (AuditEvent ω) → List (AuditEvent ω)) : World ω :=
  match w.current.events with
  | none => w
  | some i => { w with buffers := w.buffers.modify i f }

def initAuditContext : Web ω Unit :=
  Prog.update fun w =>
    { w with
      buffers := w.buffers ++ [[]], current := { w.current with events := some w.buffers.length } }

def clearAuditContext (w : World ω) : World ω :=
  { w with current := { w.current with events := none } }

/-- `record` with its `add_audit_event`. -/
def recordEvent (c : Conversion ω) (args : RecordArgs (Value ω)) : Web ω Unit := fun w =>
  match buildEvent c w.current.request args with
  | none => (.error "ValueError".toList, w)
  | some evt =>
    (.ok (), { w.modifyBuffer (fun evts => evts ++ [evt]) with recorded := w.recorded ++ [evt] })

/-! ## Flushing -/

/-- `_classify` -/
def classify (statusCode : Int) : String :=
  if statusCode ∈ [401, 403, 429] then "deny" else if 400 ≤ statusCode then "error" else "ok"

/-- The event of a request that has recorded nothing. -/
def httpErrorEvent (ctx : RequestContext) (req : Request) (statusCode : Int) : AuditEvent ω :=
  { requestId := ctx.requestId, actorUserId := ctx.userId, action := "http.error"
    scopeKey := none, resourceType := none, resourceRefId := none
    status := classify statusCode, httpStatus := some statusCode
    ip := orNone ctx.clientIp, userAgent := orNone ctx.userAgent
    «meta» := strDict [("method".toList, .str req.method), ("path".toList, .str req.path)] }

/-- `e["http_status"] = status_code` where it is `None`. -/
def withHttpStatus (statusCode : Int) (e : AuditEvent ω) : AuditEvent ω :=
  { e with httpStatus := e.httpStatus.or (some statusCode) }

/-- `int(getattr(response, "status_code", 500) or 500)` -/
def statusCodeOf (status : Int) : Int := if status = 0 then 500 else status

/-- The rows that `flush_audit` adds. -/
def flushedRows (events : List (AuditEvent ω)) (ctx : RequestContext) (req : Request)
    (statusCode : Int) : List (AuditEvent ω) :=
  match events with
  | [] => if 400 ≤ statusCode then [httpErrorEvent ctx req statusCode] else []
  | evt :: evts => (evt :: evts).map (withHttpStatus statusCode)

/-- `flush_audit`; the database takes the rows. -/
def flushAudit (req : Request) (status : Int) : Web ω Unit :=
  Prog.finallyUpdate
    (Prog.update fun w =>
      let events := (popAuditEvents w.buffer).1
      let rows := flushedRows events w.current.request req (statusCodeOf status)
      { w.modifyBuffer (fun _ => []) with
        stored := w.stored ++ rows, handed := w.handed ++ events })
    clearAuditContext

/-! ## The list and its tasks -/

@[simp] theorem modifyBuffer_current (w : World ω)
    (f : List (AuditEvent ω) → List (AuditEvent ω)) : (w.modifyBuffer f).current = w.current := by
  unfold World.modifyBuffer
  split
  · rfl
  · rfl

/-- A change of the list changes no table. -/
theorem modifyBuffer_tables (w : World ω) (f : List (AuditEvent ω) → List (AuditEvent ω)) :
    (w.modifyBuffer f).stored = w.stored ∧ (w.modifyBuffer f).recorded = w.recorded ∧
      (w.modifyBuffer f).handed = w.handed := by
  unfold World.modifyBuffer
  split
  · exact ⟨rfl, rfl, rfl⟩
  · exact ⟨rfl, rfl, rfl⟩

/-- From `w` to `w'` these events have been recorded, all of them in list `i`. -/
structure Adds (i : Nat) (evts : List (AuditEvent ω)) (w w' : World ω) : Prop where
  events : w'.current.events = w.current.events
  buffer : w'.buffers[i]? = w.buffers[i]?.map fun old => old ++ evts
  stored : w'.stored = w.stored
  recorded : w'.recorded = w.recorded ++ evts
  handed : w'.handed = w.handed

theorem Adds.refl (i : Nat) (w : World ω) : Adds i [] w w where
  events := rfl
  buffer := by simp
  stored := rfl
  recorded := (List.append_nil _).symm
  handed := rfl

theorem Adds.trans {i : Nat} {evts evts' : List (AuditEvent ω)} {w w' w'' : World ω}
    (h : Adds i evts w w') (h' : Adds i evts' w' w'') : Adds i (evts ++ evts') w w'' where
  events := h'.events.trans h.events
  buffer := by
    rw [h'.buffer, h.buffer, Option.map_map]
    congr 1
    funext old
    exact List.append_assoc old evts evts'
  stored := h'.stored.trans h.stored
  recorded := by rw [h'.recorded, h.recorded, List.append_assoc]
  handed := h'.handed.trans h.handed

/-- What a task does: it records, and it sets the context variables of the request. -/
inductive Action (ω : Type) where
  | record (args : RecordArgs (Value ω))
  | setContext (f : RequestContext → RequestContext)

/-- What a task makes of an exception of `record` is in what it does next. -/
def Action.run (c : Conversion ω) : Action ω → Web ω Unit
  | .record args => Prog.tryExcept (recordEvent c args) fun _ => pure ()
  | .setContext f => Audit.setContext f

/-- The actions one after the other. -/
def perform (c : Conversion ω) (actions : List (Action ω)) : Web ω Unit :=
  Prog.forEach actions (Action.run c)

/-- The events that the actions record in a context. -/
def recordedBy (c : Conversion ω) (ctx : RequestContext) : List (Action ω) → List (AuditEvent ω)
  | [] => []
  | .record args :: actions => (buildEvent c ctx args).toList ++ recordedBy c ctx actions
  | .setContext f :: actions => recordedBy c (f ctx) actions

/-- The calls of `record` that build an event. -/
def recordCalls (c : Conversion ω) : List (Action ω) → List (RecordArgs (Value ω))
  | [] => []
  | .record args :: actions =>
    if (c.stdMeta (args.meta.getD .none) args.errorCode).isSome then args :: recordCalls c actions
    else recordCalls c actions
  | .setContext _ :: actions => recordCalls c actions

/-- The context that they leave. -/
def contextAfter (ctx : RequestContext) : List (Action ω) → RequestContext
  | [] => ctx
  | .record _ :: actions => contextAfter ctx actions
  | .setContext f :: actions => contextAfter (f ctx) actions

/-- Whether there is an event does not depend on the context. -/
theorem recordedBy_eq_nil_iff {c : Conversion ω} {actions : List (Action ω)}
    {ctx : RequestContext} : recordedBy c ctx actions = [] ↔ recordCalls c actions = [] := by
  induction actions generalizing ctx with
  | nil => exact iff_of_true rfl rfl
  | cons a actions ih =>
    cases a with
    | record args =>
      rw [recordedBy, recordCalls, buildEvent]
      cases c.stdMeta (args.meta.getD .none) args.errorCode with
      | none => simpa using ih
      | some m => simp
    | setContext f => exact ih

theorem recordEvent_adds (c : Conversion ω) {i : Nat} {w : World ω}
    (h : w.current.events = some i) (args : RecordArgs (Value ω)) :
    ∃ w', (Action.record args).run c w = (.ok (), w') ∧ w'.current = w.current ∧
      Adds i (buildEvent c w.current.request args).toList w w' := by
  unfold Action.run Prog.tryExcept recordEvent
  dsimp only
  cases hevt : buildEvent c w.current.request args with
  | none => exact ⟨w, rfl, rfl, Adds.refl i w⟩
  | some evt =>
    obtain ⟨hstored, -, hhanded⟩ := modifyBuffer_tables w fun evts => evts ++ [evt]
    refine ⟨_, rfl, modifyBuffer_current w _, ⟨?_, ?_, hstored, rfl, hhanded⟩⟩
    · show (w.modifyBuffer _).current.events = _
      rw [modifyBuffer_current]
    · show (w.modifyBuffer _).buffers[i]? = _
      simp [World.modifyBuffer, h]

/-- Every action succeeds, and the events go to the list of the task in order. -/
theorem perform_adds (c : Conversion ω) {i : Nat} : ∀ (actions : List (Action ω)) {w : World ω},
    w.current.events = some i → ∃ w', perform c actions w = (.ok (), w') ∧
      w'.current.request = contextAfter w.current.request actions ∧
      Adds i (recordedBy c w.current.request actions) w w'
  | [], w, _ => ⟨w, rfl, rfl, Adds.refl i w⟩
  | .record args :: actions, w, h => by
    obtain ⟨w₁, hrecord, hctx, hadds⟩ := recordEvent_adds c h args
    obtain ⟨w', hrun, hrequest, hrest⟩ := perform_adds c actions (hadds.events.trans h)
    rw [hctx] at hrequest hrest
    exact ⟨w', (Prog.bind_ok hrecord _).trans hrun, hrequest, hadds.trans hrest⟩
  | .setContext f :: actions, w, h => by
    obtain ⟨w', hrun, hrequest, hrest⟩ :=
      perform_adds c actions (w := (setContext f w).2) (show _ = some i from h)
    exact ⟨w', hrun, hrequest,
      ⟨hrest.events, hrest.buffer, hrest.stored, hrest.recorded, hrest.handed⟩⟩

/-- A task that goes on adds to the list that its context refers to. -/
theorem resume_adds (c : Conversion ω) {i : Nat} {vars : ContextVars} (h : vars.events = some i)
    (actions : List (Action ω)) (w : World ω) :
    ∃ vars' w', resume vars (perform c actions) w = (.ok vars', w') ∧ w'.current = w.current ∧
      vars'.events = some i ∧ vars'.request = contextAfter vars.request actions ∧
      Adds i (recordedBy c vars.request actions) w w' := by
  obtain ⟨w₁, hrun, hrequest, hadds⟩ :=
    perform_adds c actions (w := { w with current := vars }) h
  refine ⟨w₁.current, { w₁ with current := w.current }, ?_, rfl, hadds.events.trans h, hrequest,
    ⟨rfl, hadds.buffer, hadds.stored, hadds.recorded, hadds.handed⟩⟩
  unfold resume inTask
  have hbody : ((do
      Prog.update fun w => { w with current := vars }
      perform c actions
      fun w => (.ok w.current, w)) : Web ω ContextVars) w = (.ok w₁.current, w₁) :=
    Prog.bind_ok (m := perform c actions) (s := { w with current := vars }) hrun _
  rw [hbody]

/-- `flush_audit` in a task whose list holds `evts`. -/
theorem flushAudit_run {i : Nat} {evts : List (AuditEvent ω)} {w : World ω}
    (h : w.current.events = some i) (hbuffer : w.buffers[i]? = some evts) (req : Request)
    (status : Int) :
    ∃ w', flushAudit req status w = (.ok (), w') ∧
      w'.current = { w.current with events := none } ∧ w'.recorded = w.recorded ∧
      w'.handed = w.handed ++ evts ∧
      w'.stored = w.stored ++ flushedRows evts w.current.request req (statusCodeOf status) := by
  have hpopped : (popAuditEvents w.buffer).1 = evts := by
    simp [popAuditEvents, World.buffer, h, hbuffer]
  refine ⟨_, rfl, ?_, ?_, ?_, ?_⟩
  · show { (w.modifyBuffer _).current with events := none } = _
    rw [modifyBuffer_current]
  · show (w.modifyBuffer _).recorded = _
    exact (modifyBuffer_tables w _).2.1
  · show w.handed ++ (popAuditEvents w.buffer).1 = _
    rw [hpopped]
  · show w.stored ++ flushedRows (popAuditEvents w.buffer).1 _ req _ = _
    rw [hpopped]

end EnterpriseAssistant.Audit
