import EnterpriseAssistant.Api.Lifecycle

/-!
# The columns of the audit trail

The bounds of `AuditEvent` of `app/modules/audit/models.py`, against the rows that a request leaves
to `flush_audit`.  The request id is sanitised on its way to the row; the address is not.

* `handle_stored` — the rows of a request that completes
* `rows_fit_iff` — the requests whose rows are within the bounds
-/

namespace EnterpriseAssistant.Api

open Py Core Audit Program

variable {ω : Type}

/-! ## The bounds -/

/-- The length of a value; `NULL` has none. -/
def width (v : Option Str) : Nat := (v.getD []).length

/-- The `String(n)` columns of `audit_events`. -/
structure RowFits (e : AuditEvent ω) : Prop where
  requestId : width e.requestId ≤ 128
  action : e.action.length ≤ 128
  scopeKey : width e.scopeKey ≤ 128
  resourceType : (e.resourceType.getD "").length ≤ 32
  status : e.status.length ≤ 16
  ip : width e.ip ≤ 64

/-- What a call of `record` gives to bounded columns. -/
structure ArgsFit (args : RecordArgs (Value ω)) : Prop where
  action : args.action.length ≤ 128
  scopeKey : width args.scopeKey ≤ 128
  resourceType : (args.resourceType.getD "").length ≤ 32
  status : args.status.length ≤ 16

/-- What the context gives to them. -/
structure ContextFits (ctx : RequestContext) : Prop where
  requestId : width ctx.requestId ≤ 128
  clientIp : width ctx.clientIp ≤ 64

instance (e : AuditEvent ω) : Decidable (RowFits e) :=
  decidable_of_iff
    (width e.requestId ≤ 128 ∧ e.action.length ≤ 128 ∧ width e.scopeKey ≤ 128 ∧
      (e.resourceType.getD "").length ≤ 32 ∧ e.status.length ≤ 16 ∧ width e.ip ≤ 64)
    ⟨fun ⟨h₁, h₂, h₃, h₄, h₅, h₆⟩ => ⟨h₁, h₂, h₃, h₄, h₅, h₆⟩,
      fun ⟨h₁, h₂, h₃, h₄, h₅, h₆⟩ => ⟨h₁, h₂, h₃, h₄, h₅, h₆⟩⟩

/-- What PostgreSQL keeps of the transaction: a value over its bound rolls all of it back. -/
def keptOf (rows : List (AuditEvent ω)) : List (AuditEvent ω) :=
  if ∀ row ∈ rows, RowFits row then rows else []

theorem keptOf_eq_iff {rows : List (AuditEvent ω)} :
    keptOf rows = rows ↔ ∀ row ∈ rows, RowFits row := by
  unfold keptOf
  split
  · next hfits => exact iff_of_true rfl hfits
  · next hnot =>
    refine iff_of_false (fun hnil => hnot ?_) hnot
    rw [← hnil]
    exact List.forall_mem_nil RowFits

theorem width_orNone (v : Option Str) : width (orNone v) = width v := by
  cases v with
  | none => rfl
  | some s =>
    cases s with
    | nil => rfl
    | cons c s => rfl

theorem rowFits_buildEvent {c : Conversion ω} {ctx : RequestContext} {args : RecordArgs (Value ω)}
    {evt : AuditEvent ω} (h : buildEvent c ctx args = some evt) :
    RowFits evt ↔ ContextFits ctx ∧ ArgsFit args := by
  obtain ⟨m, -, rfl⟩ := Option.map_eq_some_iff.mp h
  constructor
  · intro h
    have hip := h.ip
    rw [width_orNone] at hip
    exact ⟨⟨h.requestId, hip⟩, ⟨h.action, h.scopeKey, h.resourceType, h.status⟩⟩
  · rintro ⟨hctx, hargs⟩
    refine ⟨hctx.requestId, hargs.action, hargs.scopeKey, hargs.resourceType, hargs.status, ?_⟩
    rw [width_orNone]
    exact hctx.clientIp

theorem classify_length (statusCode : Int) : (classify statusCode).length ≤ 16 := by
  unfold classify
  split
  · decide
  · split
    · decide
    · decide

theorem rowFits_httpErrorEvent {ctx : RequestContext} {req : Request} {statusCode : Int} :
    RowFits (httpErrorEvent ctx req statusCode : AuditEvent ω) ↔ ContextFits ctx := by
  constructor
  · intro h
    have hip := h.ip
    rw [httpErrorEvent, width_orNone] at hip
    exact ⟨h.requestId, hip⟩
  · intro hctx
    refine ⟨hctx.requestId, ?_, Nat.zero_le _, Nat.zero_le _, classify_length statusCode, ?_⟩
    · show ("http.error" : String).length ≤ 128
      decide
    · rw [httpErrorEvent, width_orNone]
      exact hctx.clientIp

/-- The status of the response is in no bounded column. -/
theorem rowFits_withHttpStatus {statusCode : Int} {e : AuditEvent ω} :
    RowFits (withHttpStatus statusCode e) ↔ RowFits e :=
  ⟨fun h => ⟨h.requestId, h.action, h.scopeKey, h.resourceType, h.status, h.ip⟩,
    fun h => ⟨h.requestId, h.action, h.scopeKey, h.resourceType, h.status, h.ip⟩⟩

/-- The rows of a flush, from the events in the buffer. -/
theorem flushedRows_fit_iff {evts : List (AuditEvent ω)} {ctx : RequestContext} {req : Request}
    {statusCode : Int} :
    (∀ row ∈ flushedRows evts ctx req statusCode, RowFits row) ↔
      (∀ e ∈ evts, RowFits e) ∧ (evts = [] → 400 ≤ statusCode → ContextFits ctx) := by
  unfold flushedRows
  cases evts with
  | nil =>
    by_cases hstatus : 400 ≤ statusCode
    · simp [hstatus, rowFits_httpErrorEvent]
    · simp [hstatus]
  | cons evt evts => simp [rowFits_withHttpStatus]

/-! ## The address -/

/-- The addresses of `X-Forwarded-For`, without the blank ones. -/
def forwardedFor (req : Request) : List Str :=
  ((((req.header "X-Forwarded-For".toList).getD []).splitOn ',').map strip).filter
    fun p => !p.isEmpty

def realIpHeader (req : Request) : Str := strip ((req.header "X-Real-IP".toList).getD [])

/-- The address of the client, which it may have chosen itself, is within the bound. -/
structure AddressFits (req : Request) : Prop where
  forwarded : ∀ first rest, forwardedFor req = first :: rest → first.length ≤ 64
  realIp : forwardedFor req = [] → (realIpHeader req).length ≤ 64
  peer : forwardedFor req = [] → realIpHeader req = [] → width req.client ≤ 64

theorem getRealIp_eq (req : Request) :
    getRealIp req = (forwardedFor req).head?.or
      (if (realIpHeader req).isEmpty then req.client else some (realIpHeader req)) := rfl

theorem addressFits_iff {req : Request} : AddressFits req ↔ width (getRealIp req) ≤ 64 := by
  rw [getRealIp_eq]
  cases hxff : forwardedFor req with
  | cons first rest =>
    rw [List.head?_cons, Option.some_or, width, Option.getD_some]
    constructor
    · exact fun h => h.forwarded first rest hxff
    · intro h
      refine ⟨?_, fun hnil => ?_, fun hnil => ?_⟩
      · intro first' rest' heq
        rw [hxff] at heq
        rwa [← (List.cons.inj heq).1]
      · rw [hxff] at hnil
        cases hnil
      · rw [hxff] at hnil
        cases hnil
  | nil =>
    rw [List.head?_nil, Option.none_or]
    have hnone : ∀ first rest, forwardedFor req = first :: rest → first.length ≤ 64 := by
      intro first rest heq
      rw [hxff] at heq
      cases heq
    by_cases hxri : realIpHeader req = []
    · rw [if_pos (List.isEmpty_iff.mpr hxri)]
      refine ⟨fun h => h.peer hxff hxri, fun h => ⟨hnone, fun _ => ?_, fun _ _ => h⟩⟩
      rw [hxri]
      exact Nat.zero_le _
    · rw [if_neg (by simpa using hxri), width, Option.getD_some]
      exact ⟨fun h => h.realIp hxff, fun h => ⟨hnone, fun _ => h, fun _ hnil => absurd hnil hxri⟩⟩

/-- The request id that `dispatch` sets is within its bound, whatever the client has sent. -/
theorem sanitizeRequestId_length {fresh : Str} (hfresh : fresh.length = 32) (v : Option Str) :
    (sanitizeRequestId fresh v).length ≤ 128 := by
  have hmax : maxRidLen = 128 := rfl
  simp only [sanitizeRequestId]
  split
  · omega
  · next hsafe =>
    simp only [Bool.or_eq_true, decide_eq_true_eq, not_or] at hsafe
    omega

theorem contextFits_dispatch {fresh : Str} (hfresh : fresh.length = 32) {req : Request} :
    ContextFits (dispatchContext fresh req) ↔ AddressFits req := by
  rw [addressFits_iff]
  exact ⟨fun h => h.clientIp, fun h => ⟨sanitizeRequestId_length hfresh _, h⟩⟩

/-! ## What is recorded -/

/-- What a handler does: it records, and `get_current_user` sets the user. -/
inductive OfHandler : Action ω → Prop where
  | record (args : RecordArgs (Value ω)) : OfHandler (.record args)
  | setUserId (userId : Option Int) :
      OfHandler (.setContext fun ctx => { ctx with userId := userId })

theorem contextFits_setUserId {ctx : RequestContext} {userId : Option Int} :
    ContextFits { ctx with userId := userId } ↔ ContextFits ctx :=
  ⟨fun h => ⟨h.requestId, h.clientIp⟩, fun h => ⟨h.requestId, h.clientIp⟩⟩

theorem contextFits_contextAfter {actions : List (Action ω)} (h : ∀ a ∈ actions, OfHandler a)
    {ctx : RequestContext} : ContextFits (contextAfter ctx actions) ↔ ContextFits ctx := by
  induction actions generalizing ctx with
  | nil => rfl
  | cons a actions ih =>
    obtain ⟨ha, hactions⟩ := List.forall_mem_cons.mp h
    cases ha with
    | record args => exact ih hactions
    | setUserId userId => exact (ih hactions).trans contextFits_setUserId

theorem recordedBy_fit_iff {c : Conversion ω} {actions : List (Action ω)}
    (h : ∀ a ∈ actions, OfHandler a) {ctx : RequestContext} :
    (∀ e ∈ recordedBy c ctx actions, RowFits e) ↔
      (recordCalls c actions ≠ [] → ContextFits ctx) ∧
        ∀ args ∈ recordCalls c actions, ArgsFit args := by
  induction actions generalizing ctx with
  | nil => simp [recordedBy, recordCalls]
  | cons a actions ih =>
    obtain ⟨ha, hactions⟩ := List.forall_mem_cons.mp h
    cases ha with
    | record args =>
      rw [recordedBy, recordCalls, List.forall_mem_append, ih hactions]
      cases hevt : buildEvent c ctx args with
      | none =>
        have hnone : (c.stdMeta (args.meta.getD .none) args.errorCode).isSome = false := by
          simpa [buildEvent] using hevt
        simp [hnone]
      | some evt =>
        have hsome : (c.stdMeta (args.meta.getD .none) args.errorCode).isSome = true := by
          rw [← Option.isSome_map]
          exact Option.isSome_iff_exists.mpr ⟨evt, hevt⟩
        rw [if_pos hsome, Option.toList_some, List.forall_mem_singleton, List.forall_mem_cons,
          rowFits_buildEvent hevt]
        constructor
        · rintro ⟨⟨hctx, hargs⟩, -, hall⟩
          exact ⟨fun _ => hctx, hargs, hall⟩
        · rintro ⟨hctx, hargs, hall⟩
          have hctx := hctx (List.cons_ne_nil _ _)
          exact ⟨⟨hctx, hargs⟩, fun _ => hctx, hall⟩
    | setUserId userId =>
      rw [recordedBy, recordCalls, ih hactions, contextFits_setUserId]

/-! ## The rows of a request -/

/-- What is done behind `call_next` until the flush takes the events. -/
def Downstream.beside (d : Downstream ω) : List (Action ω) :=
  match d.outcome with
  | .responds response => response.rest.beside
  | .raises _ => []

/-- What the response's own background task does. -/
def Downstream.behind (d : Downstream ω) : List (Action ω) :=
  match d.outcome with
  | .responds response => (response.background.map BackgroundTask.actions).getD []
  | .raises _ => []

/-- The events of a request that the flush takes, in order. -/
def Downstream.events (c : Conversion ω) (ctx : RequestContext) (d : Downstream ω) :
    List (AuditEvent ω) :=
  recordedBy c ctx d.actions ++
    (recordedBy c (contextAfter ctx d.actions) d.beside ++ recordedBy c ctx d.behind)

theorem finalBackground_stored (c : Conversion ω) {i : Nat} {evts : List (AuditEvent ω)}
    {w : World ω} (h : w.current.events = some i) (hbuffer : w.buffers[i]? = some evts)
    (req : Request) (response : Response ω)
    (hreturns : ∀ b, response.background = some b → b.raises = none) :
    ∃ w', finalBackground c req response w = (.ok (), w') ∧ w'.stored = w.stored ++ flushedRows
      (evts ++ recordedBy c w.current.request
        ((response.background.map BackgroundTask.actions).getD []))
      (contextAfter w.current.request
        ((response.background.map BackgroundTask.actions).getD [])) req response.status := by
  cases hbg : response.background with
  | none =>
    obtain ⟨w', hrun, -, -, -, hstored⟩ := finalizeRequest_run h hbuffer req response
    refine ⟨w', by simpa only [finalBackground, hbg] using hrun, ?_⟩
    simpa [recordedBy, contextAfter] using hstored
  | some prev =>
    obtain ⟨w₁, hprev, hrequest, hadds⟩ := perform_adds c prev.actions h
    have hlist := hadds.buffer
    rw [hbuffer, Option.map_some] at hlist
    obtain ⟨w', hrun, -, -, -, hstored⟩ :=
      finalizeRequest_run (hadds.events.trans h) hlist req response
    rw [hadds.stored, hrequest] at hstored
    refine ⟨w', ?_, hstored⟩
    simp only [finalBackground, hbg, BackgroundTask.run, hreturns prev hbg]
    exact (Prog.bind_ok (Prog.bind_ok hprev _) _).trans hrun

theorem handle_stored (c : Conversion ω) {fresh : Str} {req : Request} {d : Downstream ω}
    (w : World ω) {response : Response ω} (hout : d.outcome = .responds response)
    (hreturns : response.Returns) :
    (handle c fresh req d w).2.stored = w.stored ++
      flushedRows (d.events c (dispatchContext fresh req))
        (contextAfter (dispatchContext fresh req) d.behind) req response.status := by
  obtain ⟨vars, w₁, hcall, hvars, hrequest, hcur, hholds⟩ := callNext_holds c fresh req d w
  rw [hout] at hcall
  obtain ⟨vars₂, w₂, hbeside, hcur₂, hvars₂, -, hadds⟩ :=
    resume_adds c hvars response.rest.beside w₁
  have hholds₂ := hholds.adds hadds
  have hctx : w₂.current.request = dispatchContext fresh req := by rw [hcur₂, hcur]; rfl
  obtain ⟨w₃, hfinal, hstored⟩ := finalBackground_stored c hholds₂.events hholds₂.buffer req
    response hreturns.returns
  obtain ⟨vars₄, w₄, hlate, -, -, -, hadds₄⟩ := resume_adds c hvars₂ response.rest.late w₃
  have hrun : (handle c fresh req d w).2 = w₄ := by
    rw [handle_responds hcall]
    unfold deliver
    rw [Prog.bind_ok hbeside, hreturns.sent]
    show ((do
      finalBackground c req response
      let _ ← resume vars₂ (perform c response.rest.late)
      raiseAny response.rest.passedOn : Web ω Unit) w₂).2 = w₄
    rw [Prog.bind_ok hfinal, Prog.bind_ok hlate]
    cases response.rest.passedOn with
    | none => rfl
    | some className => rfl
  rw [hrun, hadds₄.stored, hstored, hholds₂.stored, hctx, hrequest]
  simp only [Downstream.events, Downstream.beside, Downstream.behind, hout, List.append_assoc]

/-! ## Is the trail kept? -/

section Trail

variable (c : Conversion ω)

/-- Every row that `flush_audit` adds for the request is within the bounds. -/
def RowsFit (fresh : Str) (req : Request) (d : Downstream ω) (w : World ω) : Prop :=
  ∀ rows, (serve c fresh req d w).2.stored = w.stored ++ rows → ∀ row ∈ rows, RowFits row

/-- The database keeps every row that `flush_audit` adds for the request. -/
def TrailKept (fresh : Str) (req : Request) (d : Downstream ω) (w : World ω) : Prop :=
  ∀ rows, (serve c fresh req d w).2.stored = w.stored ++ rows → keptOf rows = rows

/-- All calls of `record` while the request is served that build an event for the flush. -/
def Downstream.calls (d : Downstream ω) : List (RecordArgs (Value ω)) :=
  recordCalls c d.actions ++ (recordCalls c d.beside ++ recordCalls c d.behind)

/-- The request gets to `flush_audit`, with something to store. -/
def Downstream.Flushes (d : Downstream ω) : Prop :=
  d.Completes ∧ (d.calls c ≠ [] ∨ 400 ≤ d.status)

end Trail

/-- The handlers keep to what handlers do. -/
structure Downstream.OfHandlers (d : Downstream ω) : Prop where
  actions : ∀ a ∈ d.actions, OfHandler a
  beside : ∀ a ∈ d.beside, OfHandler a
  behind : ∀ a ∈ d.behind, OfHandler a

theorem trailKept_iff_rowsFit {c : Conversion ω} {fresh : Str} {req : Request} {d : Downstream ω}
    {w : World ω} : TrailKept c fresh req d w ↔ RowsFit c fresh req d w :=
  forall₂_congr fun _ _ => keptOf_eq_iff

theorem events_fit_iff {c : Conversion ω} {d : Downstream ω} (hd : d.OfHandlers)
    {ctx : RequestContext} :
    (∀ e ∈ d.events c ctx, RowFits e) ↔
      (d.calls c ≠ [] → ContextFits ctx) ∧ ∀ args ∈ d.calls c, ArgsFit args := by
  have hsplit : d.calls c ≠ [] ↔ recordCalls c d.actions ≠ [] ∨ recordCalls c d.beside ≠ [] ∨
      recordCalls c d.behind ≠ [] := by
    simp only [Downstream.calls, ne_eq, List.append_eq_nil_iff, not_and_or]
  rw [hsplit, Downstream.events, Downstream.calls]
  simp only [List.forall_mem_append, recordedBy_fit_iff hd.actions, recordedBy_fit_iff hd.beside,
    recordedBy_fit_iff hd.behind, contextFits_contextAfter hd.actions]
  tauto

theorem events_eq_nil_iff {c : Conversion ω} {d : Downstream ω} {ctx : RequestContext} :
    d.events c ctx = [] ↔ d.calls c = [] := by
  simp only [Downstream.events, Downstream.calls, List.append_eq_nil_iff, recordedBy_eq_nil_iff]

/-- Serving a request stores what the middleware stores. -/
theorem stored_serve (c : Conversion ω) (fresh : Str) (req : Request) (d : Downstream ω)
    (w : World ω) : (serve c fresh req d w).2.stored
      = (handle c fresh req d (inTenant req w)).2.stored := by
  cases hres : (handle c fresh req d (inTenant req w)).1 with
  | ok u => rw [serve_ok hres]
  | error className =>
    obtain ⟨evt, -, hstored, -⟩ := serve_error hres
    exact hstored

theorem serve_stored {c : Conversion ω} {fresh : Str} {req : Request} {d : Downstream ω}
    (w : World ω) {response : Response ω} (hout : d.outcome = .responds response)
    (hreturns : response.Returns) :
    (serve c fresh req d w).2.stored = w.stored ++
      flushedRows (d.events c (dispatchContext fresh req))
        (contextAfter (dispatchContext fresh req) d.behind) req response.status :=
  (stored_serve c fresh req d w).trans (handle_stored c (inTenant req w) hout hreturns)

/-- A request that does not complete stores nothing. -/
theorem serve_stored_of_not {c : Conversion ω} {fresh : Str} {req : Request} {d : Downstream ω}
    (w : World ω) (hnot : ¬d.Completes) : (serve c fresh req d w).2.stored = w.stored := by
  rw [stored_serve]
  rcases handle_run c fresh req d (inTenant req w) with
    ⟨response, hout, hreturns, -⟩ | ⟨-, evts, habandoned⟩
  · exact absurd ⟨response, hout, hreturns⟩ hnot
  · exact habandoned.stored

/--
**A client cannot erase its own audit trail** exactly when the address that it gives, or that its
connection has, is within the bound of the column; the calls of `record` have to keep to the bounds
of theirs, and a request that has nothing to store has nothing to lose.
-/
theorem rows_fit_iff (c : Conversion ω) {fresh : Str} (hfresh : fresh.length = 32) (req : Request)
    {d : Downstream ω} (hd : d.OfHandlers) (w : World ω) :
    (RowsFit c fresh req d w ↔
        (d.Flushes c → AddressFits req ∧ ∀ args ∈ d.calls c, ArgsFit args)) ∧
      (TrailKept c fresh req d w ↔
        (d.Flushes c → AddressFits req ∧ ∀ args ∈ d.calls c, ArgsFit args)) := by
  rw [trailKept_iff_rowsFit, and_self]
  by_cases hcompletes : d.Completes
  · obtain ⟨response, hout, hreturns⟩ := hcompletes
    have hstatus : d.status = response.status := by rw [Downstream.status, hout]
    have hrows : RowsFit c fresh req d w ↔
        ∀ row ∈ flushedRows (d.events c (dispatchContext fresh req))
          (contextAfter (dispatchContext fresh req) d.behind) req response.status, RowFits row := by
      constructor
      · exact fun h => h _ (serve_stored w hout hreturns)
      · intro h rows hstored
        rw [serve_stored w hout hreturns] at hstored
        rwa [← List.append_cancel_left hstored]
    rw [hrows, flushedRows_fit_iff, events_fit_iff hd, events_eq_nil_iff,
      contextFits_contextAfter hd.behind, contextFits_dispatch hfresh, ← hstatus]
    constructor
    · rintro ⟨⟨haddress, hargs⟩, hempty⟩ ⟨-, hsome⟩
      refine ⟨?_, hargs⟩
      by_cases hnil : d.calls c = []
      · exact hempty hnil (hsome.resolve_left (fun hne => hne hnil))
      · exact haddress hnil
    · intro h
      have hflushes : d.calls c ≠ [] ∨ 400 ≤ d.status → d.Flushes c :=
        fun hsome => ⟨⟨response, hout, hreturns⟩, hsome⟩
      refine ⟨⟨fun hne => (h (hflushes (Or.inl hne))).1, fun args hargs => ?_⟩, fun _ hge => ?_⟩
      · exact (h (hflushes (Or.inl (List.ne_nil_of_mem hargs)))).2 args hargs
      · exact (h (hflushes (Or.inr hge))).1
  · refine iff_of_true (fun rows hstored => ?_) fun hflushes => absurd hflushes.1 hcompletes
    rw [serve_stored_of_not w hcompletes] at hstored
    have hnil : rows = [] := by simpa using hstored
    rw [hnil]
    exact List.forall_mem_nil RowFits

/-! ## A long address -/

/-- A request that names an address of 65 characters. -/
def longAddress : Request :=
  { method := "POST".toList, path := "/auth/login".toList
    headers := [("x-forwarded-for".toList, List.replicate 65 'a')], query := []
    client := some "10.0.0.1".toList }

/-- The login is denied, and recorded. -/
def denied : Downstream Empty :=
  { actions := [.record { action := "auth.login", status := "deny", httpStatus := some 401 }]
    outcome := .responds { status := 401, background := none, status_ge := by decide } }

theorem denied_ofHandlers : denied.OfHandlers := by
  refine ⟨fun a ha => ?_, List.forall_mem_nil _, List.forall_mem_nil _⟩
  rw [List.mem_singleton.mp ha]
  exact .record _

theorem longAddress_forwardedFor : forwardedFor longAddress = [List.replicate 65 'a'] := by
  decide +kernel

theorem not_addressFits_longAddress : ¬AddressFits longAddress := by
  intro h
  have hlong := h.forwarded _ _ longAddress_forwardedFor
  rw [List.length_replicate] at hlong
  omega

/-- What `uuid.uuid4().hex` may be. -/
def someHex : Str := List.replicate 32 '0'

theorem someHex_length : someHex.length = 32 := List.length_replicate

theorem long_address_erases_trail :
    ¬∀ (fresh : Str), fresh.length = 32 → ∀ (req : Request) (d : Downstream Empty), d.OfHandlers →
      ∀ w, RowsFit (jsonConversion asciiWords) fresh req d w := by
  intro h
  have hreturns : Response.Returns (ω := Empty)
      { status := 401, background := none, status_ge := by decide } :=
    ⟨rfl, fun b hb => by cases hb⟩
  have hrows := h someHex someHex_length longAddress denied denied_ofHandlers noEvents _
    (serve_stored noEvents rfl hreturns)
  rw [flushedRows_fit_iff, events_fit_iff denied_ofHandlers,
    contextFits_dispatch someHex_length] at hrows
  exact not_addressFits_longAddress (hrows.1.1 (List.cons_ne_nil _ _))

theorem rows_fit_iff_denied :
    (RowsFit (jsonConversion asciiWords) someHex longAddress denied noEvents ↔
        (denied.Flushes (jsonConversion asciiWords) → AddressFits longAddress ∧
          ∀ args ∈ denied.calls (jsonConversion asciiWords), ArgsFit args)) ∧
      (TrailKept (jsonConversion asciiWords) someHex longAddress denied noEvents ↔
        (denied.Flushes (jsonConversion asciiWords) → AddressFits longAddress ∧
          ∀ args ∈ denied.calls (jsonConversion asciiWords), ArgsFit args)) :=
  rows_fit_iff (jsonConversion asciiWords) someHex_length longAddress denied_ofHandlers noEvents

end EnterpriseAssistant.Api
