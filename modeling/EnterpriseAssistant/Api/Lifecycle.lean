import EnterpriseAssistant.Audit.Middleware

/-!
# The lifecycle of a request

`RequestContextMiddleware` of `app/api/middleware/request_context.py`, inside
`TenantContextMiddleware` and the error middleware that runs `unhandled_error_handler`.  The audit
buffer is flushed by the background task of the response that `call_next` returns, so a request
without a response, or with one that cannot be sent, does not get there; and what is behind
`call_next` may go on beside the flush, and behind it.

* `handle_run` — what a request leaves behind, whatever is downstream
* `audit_complete_iff` — when the audit trail of a request is complete
-/

namespace EnterpriseAssistant.Api

open Py Core Audit Program

variable {ω : Type}

/-! ## What is downstream -/

structure BackgroundTask (ω : Type) where
  actions : List (Action ω)
  /-- the class of the exception, if it raises -/
  raises : Option Str

/--
How what is behind `call_next` goes on once its response has come back: it makes the rest of the
body, and runs the background task of the endpoint's response, all in its own task.
-/
structure Rest (ω : Type) where
  /-- what it does until the flush takes the events -/
  beside : List (Action ω) := []
  /-- the class of the exception that sending the response ends with, if it does -/
  sending : Option Str := none
  /-- what it does after that -/
  late : List (Action ω) := []
  /-- the class of the exception that its task ends with, where the middleware passes it on -/
  passedOn : Option Str := none

/--
A response of `call_next`, with a status that HTTP allows.  Starlette's has no background task of
its own, as the one of the endpoint's response is run behind `call_next`.
-/
structure Response (ω : Type) where
  status : Int
  background : Option (BackgroundTask ω)
  rest : Rest ω := {}
  status_ge : 100 ≤ status

inductive Outcome (ω : Type) where
  | responds (response : Response ω)
  /-- an exception of this class comes out of `call_next` -/
  | raises (className : Str)

/-- The application behind the middleware: what it does to the audit state, and how it ends. -/
structure Downstream (ω : Type) where
  actions : List (Action ω)
  outcome : Outcome ω

section Source

variable (c : Conversion ω)

def raiseAny : Option Str → Web ω Unit
  | none => pure ()
  | some className => Prog.raise className

def Downstream.call (d : Downstream ω) : Web ω (Response ω) := do
  perform c d.actions
  match d.outcome with
  | .responds response => pure response
  | .raises className => Prog.raise className

/-- `call_next` runs the rest in a task of its own, with a copy of the context: the response, and
the context of that task. -/
def callNext (d : Downstream ω) : Web ω (Response ω × ContextVars) :=
  inTask do
    let response ← d.call c
    fun w => (.ok (response, w.current), w)

def BackgroundTask.run (b : BackgroundTask ω) : Web ω Unit := do
  perform c b.actions
  raiseAny b.raises

/-! ## The middlewares -/

/-- `_finalize_request` -/
def finalizeRequest (req : Request) (status : Int) : Web ω Unit :=
  Prog.finallyUpdate (flushAudit req status)
    fun w => { w with current := { w.current with request := .cleared } }

/-- The context that `dispatch` sets up; `fresh` is `uuid.uuid4().hex`. -/
def dispatchContext (fresh : Str) (req : Request) : RequestContext :=
  { requestId := some (sanitizeRequestId fresh (req.header hdrRequestId)), userId := none
    clientIp := getRealIp req, userAgent := req.header "User-Agent".toList
    workspaceId := extractWorkspaceId req }

/-- The background task that `dispatch` gives the response. -/
def finalBackground (req : Request) (response : Response ω) : Web ω Unit :=
  match response.background with
  | none => finalizeRequest req response.status
  | some prev => do
    -- `_chain` has no `finally` around the first of the two
    prev.run c
    finalizeRequest req response.status

/-- `RequestContextMiddleware.dispatch`: the response, its new background task, and the context of
what is behind `call_next`. -/
def dispatch (fresh : Str) (req : Request) (d : Downstream ω) :
    Web ω (Response ω × ContextVars × Web ω Unit) := do
  setContext fun _ => dispatchContext fresh req
  initAuditContext
  let (response, vars) ← callNext c d
  pure (response, vars, finalBackground c req response)

/-- The response is sent, and its background task runs; beside them, the task behind `call_next`
comes to its end. -/
def deliver (rest : Rest ω) (vars : ContextVars) (background : Web ω Unit) : Web ω Unit := do
  let vars ← resume vars (perform c rest.beside)
  raiseAny rest.sending
  background
  let _ ← resume vars (perform c rest.late)
  raiseAny rest.passedOn

/-- The middleware as a whole. -/
def handle (fresh : Str) (req : Request) (d : Downstream ω) : Web ω Unit := do
  let (response, vars, background) ← dispatch c fresh req d
  deliver c response.rest vars background

/-- `TenantContextMiddleware`, whose `call_next` starts the task in which `handle` runs. -/
def tenantHandle (fresh : Str) (req : Request) (d : Downstream ω) : Web ω Unit := do
  setContext fun ctx => { ctx with workspaceId := extractWorkspaceId req }
  inTask (handle c fresh req d)

/-- What `unhandled_error_handler` records. -/
def unhandledError (req : Request) (className : Str) : RecordArgs (Value ω) :=
  { action := "http.unhandled_error", status := "error", httpStatus := some 500
    «meta» := some (strDict [("path".toList, .str req.path), ("method".toList, .str req.method),
      ("exc_type".toList, .str className)])
    errorCode := some "error.internal".toList }

/-- The error middleware around everything: the handler runs in its context, and the exception
goes on. -/
def serve (fresh : Str) (req : Request) (d : Downstream ω) : Web ω Unit :=
  Prog.tryExcept (inTask (tenantHandle c fresh req d)) fun className => do
    recordEvent c (unhandledError req className)
    Prog.raise className

end Source

/-! ## A complete audit trail -/

/-- The status that the client sees. -/
def Downstream.status (d : Downstream ω) : Int :=
  match d.outcome with
  | .responds response => response.status
  | .raises _ => 500

/-- The rows hold every event once and in order, or one `http.error` for a failed request that has
recorded nothing. -/
def RowsFor (status : Int) : List (AuditEvent ω) → List (AuditEvent ω) → Prop
  | [], rows => if 400 ≤ status then ∃ row, row.action = "http.error" ∧ rows = [row] else rows = []
  | evt :: evts, rows => rows = (evt :: evts).map (withHttpStatus status)

/-- Everything recorded while the request was served is handed to the database, and is in the
table. -/
def Accounted (c : Conversion ω) (fresh : Str) (req : Request) (d : Downstream ω) (w : World ω) :
    Prop :=
  ∃ evts rows, (serve c fresh req d w).2.recorded = w.recorded ++ evts ∧
    (serve c fresh req d w).2.handed = w.handed ++ evts ∧
    (serve c fresh req d w).2.stored = w.stored ++ rows ∧ RowsFor d.status evts rows

/-- The world in which `handle` starts. -/
def inTenant (req : Request) (w : World ω) : World ω :=
  (setContext (fun ctx => { ctx with workspaceId := extractWorkspaceId req }) w).2

/-- The context in which the middleware runs, when it is through. -/
def finalVars (c : Conversion ω) (fresh : Str) (req : Request) (d : Downstream ω) (w : World ω) :
    ContextVars :=
  (handle c fresh req d (inTenant req w)).2.current

/-- The response is sent, and a background task of its own returns. -/
structure Response.Returns (response : Response ω) : Prop where
  sent : response.rest.sending = none
  returns : ∀ b, response.background = some b → b.raises = none

/-- There is a response, and nothing in front of the flush raises. -/
def Downstream.Completes (d : Downstream ω) : Prop :=
  ∃ response, d.outcome = .responds response ∧ response.Returns

/-- What is behind `call_next` records nothing behind the flush, and no exception of it is passed
on. -/
structure Rest.Quiet (c : Conversion ω) (rest : Rest ω) : Prop where
  records : recordCalls c rest.late = []
  passedOn : rest.passedOn = none

def Downstream.Quiet (c : Conversion ω) (d : Downstream ω) : Prop :=
  ∀ response, d.outcome = .responds response → response.rest.Quiet c

/-! ## What a request leaves behind -/

/-- The world in which `dispatch` calls what is downstream. -/
def entered (fresh : Str) (req : Request) (w : World ω) : World ω :=
  { w with
    current := { request := dispatchContext fresh req, events := some w.buffers.length }
    buffers := w.buffers ++ [[]] }

/-- The downstream's events are in the buffer, whether it returns or raises. -/
theorem callNext_adds (c : Conversion ω) (d : Downstream ω) {i : Nat} {w : World ω}
    (h : w.current.events = some i) :
    ∃ vars w', callNext c d w = (match d.outcome with
        | .responds response => .ok (response, vars)
        | .raises className => .error className, w') ∧
      vars.events = some i ∧ vars.request = contextAfter w.current.request d.actions ∧
      w'.current = w.current ∧ Adds i (recordedBy c w.current.request d.actions) w w' := by
  obtain ⟨w₁, hrun, hrequest, hadds⟩ := perform_adds c d.actions h
  refine ⟨w₁.current, { w₁ with current := w.current }, ?_, hadds.events.trans h, hrequest, rfl,
    ⟨rfl, hadds.buffer, hadds.stored, hadds.recorded, hadds.handed⟩⟩
  unfold callNext inTask Downstream.call
  cases hout : d.outcome with
  | responds response =>
    have hbody : (do
        let response ← (do
          perform c d.actions
          pure response : Web ω (Response ω))
        fun w => (.ok (response, w.current), w) : Web ω (Response ω × ContextVars)) w
          = (.ok (response, w₁.current), w₁) := Prog.bind_ok (Prog.bind_ok hrun _) _
    rw [hbody]
  | raises className =>
    have hbody : (do
        let response ← (do
          perform c d.actions
          Prog.raise className : Web ω (Response ω))
        fun w => (.ok (response, w.current), w) : Web ω (Response ω × ContextVars)) w
          = (.error className, w₁) := Prog.bind_error (Prog.bind_ok hrun _) _
    rw [hbody]

theorem statusCodeOf_status (response : Response ω) :
    statusCodeOf response.status = response.status := by
  have hge := response.status_ge
  unfold statusCodeOf
  rw [if_neg (by omega)]

theorem rowsFor_flushedRows (status : Int) (evts : List (AuditEvent ω)) (ctx : RequestContext)
    (req : Request) : RowsFor status evts (flushedRows evts ctx req status) := by
  cases evts with
  | nil =>
    unfold RowsFor flushedRows
    dsimp only
    split
    · exact ⟨_, rfl, rfl⟩
    · rfl
  | cons evt evts => rfl

/-- The flush hands over what is in the buffer, and every variable is reset. -/
theorem finalizeRequest_run {i : Nat} {evts : List (AuditEvent ω)} {w : World ω}
    (h : w.current.events = some i) (hbuffer : w.buffers[i]? = some evts) (req : Request)
    (response : Response ω) :
    ∃ w', finalizeRequest req response.status w = (.ok (), w') ∧ w'.current = .cleared ∧
      w'.recorded = w.recorded ∧ w'.handed = w.handed ++ evts ∧
      w'.stored = w.stored ++ flushedRows evts w.current.request req response.status := by
  obtain ⟨w', hrun, hcur, hrec, hhanded, hstored⟩ := flushAudit_run h hbuffer req response.status
  rw [statusCodeOf_status] at hstored
  refine ⟨{ w' with current := { w'.current with request := .cleared } }, ?_, ?_, hrec, hhanded,
    hstored⟩
  · unfold finalizeRequest Prog.finallyUpdate
    rw [hrun]
  · simp only [hcur]
    rfl

/-- The flush has been reached: `evts` are handed over, and `late` is recorded behind it. -/
structure Flushed (c : Conversion ω) (response : Response ω) (evts late : List (AuditEvent ω))
    (w : World ω) (r : Except Str Unit × World ω) : Prop where
  current : r.2.current = .cleared
  recorded : r.2.recorded = w.recorded ++ (evts ++ late)
  handed : r.2.handed = w.handed ++ evts
  rows : ∃ rows, r.2.stored = w.stored ++ rows ∧ RowsFor response.status evts rows
  late_eq_nil : late = [] ↔ recordCalls c response.rest.late = []
  ends : r.1 = match response.rest.passedOn with
    | none => .ok ()
    | some className => .error className

/-- The flush has not been reached: the buffer is left behind. -/
structure Abandoned (evts : List (AuditEvent ω)) (w : World ω) (r : Except Str Unit × World ω) :
    Prop where
  current : r.2.current ≠ .cleared
  recorded : r.2.recorded = w.recorded ++ evts
  handed : r.2.handed = w.handed
  stored : r.2.stored = w.stored
  ends : ∃ className, r.1 = .error className

/-- The list `i` holds what has been recorded since `w`, and nothing of it is handed over. -/
structure Holds (i : Nat) (evts : List (AuditEvent ω)) (w w' : World ω) : Prop where
  events : w'.current.events = some i
  buffer : w'.buffers[i]? = some evts
  recorded : w'.recorded = w.recorded ++ evts
  handed : w'.handed = w.handed
  stored : w'.stored = w.stored

theorem Holds.adds {i : Nat} {evts evts' : List (AuditEvent ω)} {w w₁ w₂ : World ω}
    (h : Holds i evts w w₁) (hadds : Adds i evts' w₁ w₂) : Holds i (evts ++ evts') w w₂ where
  events := hadds.events.trans h.events
  buffer := by rw [hadds.buffer, h.buffer, Option.map_some]
  recorded := by rw [hadds.recorded, h.recorded, List.append_assoc]
  handed := hadds.handed.trans h.handed
  stored := hadds.stored.trans h.stored

/-- A world that still holds its events has lost them when an exception ends it. -/
theorem Holds.abandoned {i : Nat} {evts : List (AuditEvent ω)} {w w' : World ω}
    (h : Holds i evts w w') (className : Str) :
    Abandoned evts w ((.error className, w') : Except Str Unit × World ω) where
  current := by
    intro hcleared
    have hevents := h.events
    rw [hcleared] at hevents
    cases hevents
  recorded := h.recorded
  handed := h.handed
  stored := h.stored
  ends := ⟨className, rfl⟩

/-- The background task of a response whose events are in the buffer. -/
theorem finalBackground_run (c : Conversion ω) {i : Nat} {evts : List (AuditEvent ω)}
    {w w₁ : World ω} (h : Holds i evts w w₁) (req : Request) (response : Response ω) :
    ((∀ b, response.background = some b → b.raises = none) ∧
      ∃ w₂ evts', finalBackground c req response w₁ = (.ok (), w₂) ∧ w₂.current = .cleared ∧
        w₂.recorded = w.recorded ++ evts' ∧ w₂.handed = w.handed ++ evts' ∧
        ∃ rows, w₂.stored = w.stored ++ rows ∧ RowsFor response.status evts' rows) ∨
    (¬(∀ b, response.background = some b → b.raises = none) ∧
      ∃ evts', Abandoned evts' w (finalBackground c req response w₁)) := by
  have hflush : ∀ {evts' : List (AuditEvent ω)} {w₂ : World ω}, Holds i evts' w w₂ →
      ∃ w₃, finalizeRequest req response.status w₂ = (.ok (), w₃) ∧ w₃.current = .cleared ∧
        w₃.recorded = w.recorded ++ evts' ∧ w₃.handed = w.handed ++ evts' ∧
        ∃ rows, w₃.stored = w.stored ++ rows ∧ RowsFor response.status evts' rows := by
    intro evts' w₂ h₂
    obtain ⟨w₃, hrun, hcleared, hrec, hhanded, hstored⟩ :=
      finalizeRequest_run h₂.events h₂.buffer req response
    rw [h₂.handed] at hhanded
    rw [h₂.stored] at hstored
    exact ⟨w₃, hrun, hcleared, hrec.trans h₂.recorded, hhanded, _, hstored,
      rowsFor_flushedRows _ _ _ _⟩
  cases hbg : response.background with
  | none =>
    obtain ⟨w₃, hrun, hends⟩ := hflush h
    have hfinal : finalBackground c req response w₁ = (.ok (), w₃) := by
      simpa only [finalBackground, hbg] using hrun
    refine Or.inl ⟨?_, w₃, evts, hfinal, hends⟩
    rintro b ⟨⟩
  | some prev =>
    obtain ⟨w₂, hprev, -, hadds⟩ := perform_adds c prev.actions h.events
    cases hraises : prev.raises with
    | none =>
      obtain ⟨w₃, hrun, hends⟩ := hflush (h.adds hadds)
      have hfinal : finalBackground c req response w₁ = (.ok (), w₃) := by
        simp only [finalBackground, hbg, BackgroundTask.run, hraises]
        exact (Prog.bind_ok (Prog.bind_ok hprev _) _).trans hrun
      refine Or.inl ⟨?_, w₃, _, hfinal, hends⟩
      rintro b ⟨⟩
      exact hraises
    | some className =>
      have hfinal : finalBackground c req response w₁ = (.error className, w₂) := by
        simp only [finalBackground, hbg, BackgroundTask.run, hraises]
        exact Prog.bind_error (Prog.bind_ok hprev _) _
      rw [hfinal]
      refine Or.inr ⟨fun hreturns => ?_, _, (h.adds hadds).abandoned className⟩
      have hnone := hreturns prev rfl
      rw [hraises] at hnone
      cases hnone

/-- A response is delivered: the flush is reached, or the events in the buffer are lost. -/
theorem deliver_run (c : Conversion ω) {i : Nat} {evts : List (AuditEvent ω)} {w w₁ : World ω}
    (h : Holds i evts w w₁) {vars : ContextVars} (hvars : vars.events = some i) (req : Request)
    (response : Response ω) :
    (response.Returns ∧ ∃ evts' late, Flushed c response evts' late w
        (deliver c response.rest vars (finalBackground c req response) w₁)) ∨
      (¬response.Returns ∧ ∃ evts', Abandoned evts' w
        (deliver c response.rest vars (finalBackground c req response) w₁)) := by
  obtain ⟨vars₂, w₂, hbeside, -, hvars₂, -, hadds⟩ :=
    resume_adds c hvars response.rest.beside w₁
  have h₂ := h.adds hadds
  cases hsending : response.rest.sending with
  | some className =>
    have hrun : deliver c response.rest vars (finalBackground c req response) w₁
        = (.error className, w₂) := by
      unfold deliver
      rw [Prog.bind_ok hbeside, hsending]
      rfl
    rw [hrun]
    refine Or.inr ⟨fun hreturns => ?_, _, h₂.abandoned className⟩
    have hnone := hreturns.sent
    rw [hsending] at hnone
    cases hnone
  | none =>
    have hsent : deliver c response.rest vars (finalBackground c req response) w₁
        = (do
          finalBackground c req response
          let _ ← resume vars₂ (perform c response.rest.late)
          raiseAny response.rest.passedOn : Web ω Unit) w₂ := by
      unfold deliver
      rw [Prog.bind_ok hbeside, hsending]
      rfl
    obtain ⟨hreturns, w₃, evts', hfinal, hcleared, hrec, hhanded, rows, hstored, hrows⟩ |
        ⟨hnot, evts', habandoned⟩ := finalBackground_run c h₂ req response
    · obtain ⟨vars₄, w₄, hlate, hcur₄, -, -, hadds₄⟩ :=
        resume_adds c hvars₂ response.rest.late w₃
      have hrun : deliver c response.rest vars (finalBackground c req response) w₁
          = raiseAny response.rest.passedOn w₄ := by
        rw [hsent, Prog.bind_ok hfinal, Prog.bind_ok hlate]
      refine Or.inl ⟨⟨hsending, hreturns⟩, evts', recordedBy c vars₂.request response.rest.late, ?_⟩
      have hend : raiseAny response.rest.passedOn w₄ = (match response.rest.passedOn with
          | none => .ok ()
          | some className => .error className, w₄) := by
        cases response.rest.passedOn with
        | none => rfl
        | some className => rfl
      rw [hrun, hend]
      refine ⟨hcur₄.trans hcleared, ?_, hadds₄.handed.trans hhanded,
        ⟨rows, hadds₄.stored.trans hstored, hrows⟩, recordedBy_eq_nil_iff, rfl⟩
      rw [hadds₄.recorded, hrec, List.append_assoc]
    · obtain ⟨className, hends⟩ := habandoned.ends
      have hrun : deliver c response.rest vars (finalBackground c req response) w₁
          = finalBackground c req response w₂ := by
        rw [hsent, Prog.bind_error (Prod.ext hends rfl), ← hends]
      rw [hrun]
      exact Or.inr ⟨fun hreturns => hnot hreturns.returns, evts', habandoned⟩

theorem dispatch_run (c : Conversion ω) (fresh : Str) (req : Request) (d : Downstream ω)
    (w : World ω) : dispatch c fresh req d w =
      (callNext c d >>= fun p => pure (p.1, p.2, finalBackground c req p.1))
        (entered fresh req w) := rfl

/-- What the downstream has recorded is in the buffer when `call_next` is through. -/
theorem callNext_holds (c : Conversion ω) (fresh : Str) (req : Request) (d : Downstream ω)
    (w : World ω) :
    ∃ vars w₁, callNext c d (entered fresh req w) = (match d.outcome with
        | .responds response => .ok (response, vars)
        | .raises className => .error className, w₁) ∧
      vars.events = some w.buffers.length ∧
      vars.request = contextAfter (dispatchContext fresh req) d.actions ∧
      w₁.current = (entered fresh req w).current ∧
      Holds w.buffers.length (recordedBy c (dispatchContext fresh req) d.actions) w w₁ := by
  obtain ⟨vars, w₁, hcall, hvars, hrequest, hcur, hadds⟩ :=
    callNext_adds c d (w := entered fresh req w) (i := w.buffers.length) rfl
  have hlist := hadds.buffer
  rw [show (entered fresh req w).buffers[w.buffers.length]? = some [] from
    List.getElem?_concat_length, Option.map_some, List.nil_append] at hlist
  refine ⟨vars, w₁, hcall, hvars, hrequest, hcur, ?_, hlist, hadds.recorded, hadds.handed,
    hadds.stored⟩
  rw [hcur]
  rfl

theorem handle_responds {c : Conversion ω} {fresh : Str} {req : Request} {d : Downstream ω}
    {w w₁ : World ω} {response : Response ω} {vars : ContextVars}
    (hcall : callNext c d (entered fresh req w) = (.ok (response, vars), w₁)) :
    handle c fresh req d w
      = deliver c response.rest vars (finalBackground c req response) w₁ :=
  Prog.bind_ok ((dispatch_run c fresh req d w).trans (Prog.bind_ok hcall _)) _

/-- **What the middleware does** to the audit state, whatever is downstream. -/
theorem handle_run (c : Conversion ω) (fresh : Str) (req : Request) (d : Downstream ω)
    (w : World ω) :
    (∃ response, d.outcome = .responds response ∧ response.Returns ∧ ∃ evts late,
      Flushed c response evts late w (handle c fresh req d w)) ∨
    (¬d.Completes ∧ ∃ evts, Abandoned evts w (handle c fresh req d w)) := by
  obtain ⟨vars, w₁, hcall, hvars, -, -, hholds⟩ := callNext_holds c fresh req d w
  cases hout : d.outcome with
  | raises className =>
    rw [hout] at hcall
    have hrun : handle c fresh req d w = (.error className, w₁) :=
      Prog.bind_error ((dispatch_run c fresh req d w).trans (Prog.bind_error hcall _)) _
    rw [hrun]
    refine Or.inr ⟨?_, _, hholds.abandoned className⟩
    rintro ⟨response, heq, -⟩
    rw [hout] at heq
    cases heq
  | responds response =>
    rw [hout] at hcall
    rw [handle_responds hcall]
    rcases deliver_run c hholds hvars req response with
      ⟨hreturns, evts, late, hflushed⟩ | ⟨hnot, habandoned⟩
    · exact Or.inl ⟨response, rfl, hreturns, evts, late, hflushed⟩
    · refine Or.inr ⟨?_, habandoned⟩
      rintro ⟨response', heq, hreturns⟩
      rw [hout] at heq
      cases heq
      exact hnot hreturns

/-! ## The trail as a whole -/

theorem serve_eq (c : Conversion ω) (fresh : Str) (req : Request) (d : Downstream ω)
    (w : World ω) : serve c fresh req d w
      = match (handle c fresh req d (inTenant req w)).1 with
        | .ok () => (.ok (), { (handle c fresh req d (inTenant req w)).2 with current := w.current })
        | .error className => (do
          recordEvent c (unhandledError req className)
          Prog.raise className : Web ω Unit)
            { (handle c fresh req d (inTenant req w)).2 with current := w.current } := by
  have htask : inTask (tenantHandle c fresh req d) w
      = ((handle c fresh req d (inTenant req w)).1,
        { (handle c fresh req d (inTenant req w)).2 with current := w.current }) := rfl
  unfold serve Prog.tryExcept
  rw [htask]
  cases (handle c fresh req d (inTenant req w)).1 with
  | ok u => rfl
  | error className => rfl

theorem serve_ok {c : Conversion ω} {fresh : Str} {req : Request} {d : Downstream ω} {w : World ω}
    (h : (handle c fresh req d (inTenant req w)).1 = .ok ()) : serve c fresh req d w
      = (.ok (), { (handle c fresh req d (inTenant req w)).2 with current := w.current }) := by
  rw [serve_eq, h]

/-- What is recorded of an unhandled exception can be printed. -/
theorem buildEvent_unhandledError (c : Conversion ω) (ctx : RequestContext) (req : Request)
    (className : Str) : ∃ evt, buildEvent c ctx (unhandledError req className) = some evt := by
  have hsome := isSome_stdMeta c (strDict [("path".toList, .str req.path),
    ("method".toList, .str req.method), ("exc_type".toList, .str className)])
      (some "error.internal".toList)
  have hconverts : converts c.text (strDict [("path".toList, .str req.path),
      ("method".toList, .str req.method), ("exc_type".toList, .str className)]) = true := by
    simp [strDict, converts, convertsEntries, Key.text?]
  rw [hconverts, Option.isSome_iff_exists] at hsome
  obtain ⟨m, hm⟩ := hsome
  exact ⟨_, congrArg (Option.map _) hm⟩

/-- The event of an unhandled exception is recorded, in a context whose buffer is not flushed. -/
theorem serve_error {c : Conversion ω} {fresh : Str} {req : Request} {d : Downstream ω}
    {w : World ω} {className : Str}
    (h : (handle c fresh req d (inTenant req w)).1 = .error className) :
    ∃ evt, (serve c fresh req d w).2.recorded
        = (handle c fresh req d (inTenant req w)).2.recorded ++ [evt] ∧
      (serve c fresh req d w).2.stored = (handle c fresh req d (inTenant req w)).2.stored ∧
      (serve c fresh req d w).2.handed = (handle c fresh req d (inTenant req w)).2.handed := by
  obtain ⟨evt, hevt⟩ := buildEvent_unhandledError c w.current.request req className
  refine ⟨evt, ?_⟩
  rw [serve_eq, h]
  have hrecord : recordEvent c (unhandledError req className)
      { (handle c fresh req d (inTenant req w)).2 with current := w.current }
      = (.ok (), { World.modifyBuffer
          { (handle c fresh req d (inTenant req w)).2 with current := w.current }
          (fun evts => evts ++ [evt]) with
        recorded := (handle c fresh req d (inTenant req w)).2.recorded ++ [evt] }) := by
    unfold recordEvent
    rw [hevt]
  dsimp only
  rw [Prog.bind_ok hrecord]
  obtain ⟨hstored, -, hhanded⟩ := modifyBuffer_tables
    { (handle c fresh req d (inTenant req w)).2 with current := w.current } fun evts => evts ++ [evt]
  exact ⟨rfl, hstored, hhanded⟩

/-- What is recorded is handed over exactly when nothing is recorded behind the flush. -/
theorem accounted_iff (c : Conversion ω) (fresh : Str) (req : Request) (d : Downstream ω)
    (w : World ω) : Accounted c fresh req d w ↔ d.Completes ∧ d.Quiet c := by
  rcases handle_run c fresh req d (inTenant req w) with
    ⟨response, hout, hreturns, evts, late, hflushed⟩ | ⟨hnot, evts, habandoned⟩
  · have hstatus : d.status = response.status := by rw [Downstream.status, hout]
    have hquiet : d.Quiet c ↔ response.rest.Quiet c := by
      refine ⟨fun h => h response hout, fun h response' heq => ?_⟩
      rw [hout] at heq
      cases heq
      exact h
    rw [hquiet, and_iff_right ⟨response, hout, hreturns⟩]
    -- nothing may come to the events that the flush has taken
    have hall : ∀ {evts' : List (AuditEvent ω)},
        (serve c fresh req d w).2.recorded = w.recorded ++ (evts ++ evts') →
        (serve c fresh req d w).2.handed = w.handed ++ evts → Accounted c fresh req d w →
        evts' = [] := by
      rintro evts' hrec hhanded ⟨evts₁, rows, hrec', hhanded', -, -⟩
      rw [hrec] at hrec'
      rw [hhanded] at hhanded'
      rw [← List.append_cancel_left hhanded'] at hrec'
      simpa using List.append_cancel_left hrec'
    have hrecorded : (handle c fresh req d (inTenant req w)).2.recorded
        = w.recorded ++ (evts ++ late) := hflushed.recorded
    have hhanded : (handle c fresh req d (inTenant req w)).2.handed = w.handed ++ evts :=
      hflushed.handed
    cases hpassed : response.rest.passedOn with
    | none =>
      have hok := hflushed.ends
      rw [hpassed] at hok
      have hserve := serve_ok hok
      constructor
      · intro hacc
        refine ⟨hflushed.late_eq_nil.mp (hall ?_ ?_ hacc), hpassed⟩
        · rw [hserve]
          exact hrecorded
        · rw [hserve]
          exact hhanded
      · intro hq
        obtain ⟨rows, hstored, hrows⟩ := hflushed.rows
        rw [hflushed.late_eq_nil.mpr hq.records, List.append_nil] at hrecorded
        rw [Accounted, hserve, hstatus]
        exact ⟨evts, rows, hrecorded, hhanded, hstored, hrows⟩
    | some className =>
      have herror := hflushed.ends
      rw [hpassed] at herror
      obtain ⟨evt, hrec, -, hhanded'⟩ := serve_error herror
      refine iff_of_false (fun hacc => ?_) fun hq => ?_
      · have hnil : late ++ [evt] = [] := by
          refine hall ?_ (hhanded'.trans hhanded) hacc
          rw [hrec, hrecorded, List.append_assoc, List.append_assoc]
        simp at hnil
      · have hnone := hq.passedOn
        rw [hpassed] at hnone
        cases hnone
  · refine iff_of_false ?_ fun h => hnot h.1
    rintro ⟨evts', rows, hrec', hhanded', -, -⟩
    obtain ⟨className, herror⟩ := habandoned.ends
    obtain ⟨evt, hrec, -, hhanded⟩ := serve_error herror
    have hkept : (handle c fresh req d (inTenant req w)).2.handed = w.handed := habandoned.handed
    have hrecorded : (handle c fresh req d (inTenant req w)).2.recorded = w.recorded ++ evts :=
      habandoned.recorded
    -- the event of the handler for unhandled exceptions is recorded and never handed over
    have hnil : evts' = [] := by
      rw [hhanded, hkept] at hhanded'
      simpa using hhanded'
    rw [hrec, hrecorded, hnil] at hrec'
    simp at hrec'

theorem finalVars_iff (c : Conversion ω) (fresh : Str) (req : Request) (d : Downstream ω)
    (w : World ω) : finalVars c fresh req d w = .cleared ↔ d.Completes := by
  rcases handle_run c fresh req d (inTenant req w) with
    ⟨response, hout, hreturns, evts, late, hflushed⟩ | ⟨hnot, evts, habandoned⟩
  · exact iff_of_true hflushed.current ⟨response, hout, hreturns⟩
  · exact iff_of_false habandoned.current hnot

/--
**No audit event is lost** and no context variable is left set exactly when the request gets a
response that can be sent, a background task of its own returns, and what is behind `call_next`
records nothing behind the flush and has no exception passed on.

The variables are reset, and what is in the buffer is stored, wherever the flush is reached; of any
other request the trail is incomplete and the context is left as it was.
-/
theorem audit_complete_iff (c : Conversion ω) (fresh : Str) (req : Request) (d : Downstream ω)
    (w : World ω) :
    ((Accounted c fresh req d w ∧ finalVars c fresh req d w = .cleared) ↔
        d.Completes ∧ d.Quiet c) ∧
      (Accounted c fresh req d w ↔ d.Completes ∧ d.Quiet c) ∧
      (finalVars c fresh req d w = .cleared ↔ d.Completes) := by
  have haccounted := accounted_iff c fresh req d w
  have hvars := finalVars_iff c fresh req d w
  refine ⟨?_, haccounted, hvars⟩
  rw [haccounted, hvars]
  exact and_iff_left_of_imp And.left

/-! ## A request that fails -/

def deleteGrant : Request :=
  { method := "DELETE".toList, path := "/admin/grants".toList, headers := [], query := []
    client := none }

/-- The handler records its event, and then an exception gets out of it. -/
def failing : Downstream Empty :=
  { actions := [.record { action := "admin.revoke_role" }], outcome := .raises "KeyError".toList }

def noEvents : World ω :=
  { current := .cleared, buffers := [], stored := [], recorded := [], handed := [] }

theorem audit_trail_lost :
    ¬∀ (fresh : Str) (req : Request) (d : Downstream Empty) (w : World Empty),
      Accounted (jsonConversion asciiWords) fresh req d w ∧
        finalVars (jsonConversion asciiWords) fresh req d w = .cleared := by
  intro h
  obtain ⟨⟨response, heq, -⟩, -⟩ :=
    (accounted_iff (jsonConversion asciiWords) [] deleteGrant failing noEvents).mp
      (h [] deleteGrant failing noEvents).1
  cases heq

end EnterpriseAssistant.Api
