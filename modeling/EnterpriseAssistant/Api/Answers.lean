import EnterpriseAssistant.Api.AuditColumns
import EnterpriseAssistant.Api.ExceptionHandlers

/-!
# What the client is told

All of `install_exception_handlers` of `app/api/exception_handlers.py`, inside the middlewares of
`Api/Lifecycle.lean`.  A handler that raises itself ends in the one for unhandled errors, as any
other exception does.

* `httpException_answered_iff` — which HTTP exceptions are answered with their own status
* `one_request_id` — the id that the client, the error body and the audit trail have of a request
* `error_told_alike` — a handled error is stored as the client has been told of it
-/

namespace EnterpriseAssistant.Api

open Py Core Audit Program

variable {ω : Type}

/-! ## Exceptions -/

/-- What the libraries make of a value that is no JSON. -/
structure Runtime (ω : Type) extends Conversion ω where
  /-- the objects that pydantic takes for a string -/
  strKey : ω → Option Str
  /-- `str(v)`; `none` where it raises -/
  str : Value ω → Option Str
  /-- the class of the exception that building a response raises -/
  raised : BuildError → Str
  modelDump_eq : ∀ fields, modelDump fields = toPython (.model fields)
  str_str : ∀ s, str (.str s) = some s
  str_int : ∀ n, str (.int n) = if printableInt n then some (Py.str n) else none

/-- A `StarletteHTTPException`. -/
structure HTTPException (ω : Type) where
  statusCode : Int
  detail : Value ω

/-- An exception, by the handler that is installed for its class. -/
inductive Exc (ω : Type) where
  | appError (exc : AnyAppError ω)
  | validation (errors : List (Value ω))
  | http (exc : HTTPException ω)
  | other (className : Str)

/-- The status that its handler answers with. -/
def Exc.status : Exc ω → Int
  | .appError exc => exc.httpStatus
  | .validation _ => 422
  | .http exc => exc.statusCode
  | .other _ => 500

/-- `d.get(k)` -/
def dictGet (k : Str) (items : List (Key ω × Value ω)) : Option (Value ω) :=
  (items.find? fun e => match e.1 with
    | .str s => s == k
    | _ => false).map Prod.snd

/-- `resolve_message(code, default)` -/
def resolveMessageOr (code default : Str) : Str :=
  let c := strip code
  if c = [] then default
  else
    match errorMessages.lookup (String.ofList c) with
    | some msg => msg.toList
    | none => if default = [] then c else default

/-! ## The handlers -/

section Handlers

variable (rt : Runtime ω)

/-- What `http_exception_handler` makes of the detail. -/
structure Detail (ω : Type) where
  code : Str
  message : Value ω
  «meta» : Option (List (Key ω × Value ω))

/-- Of a detail that says nothing. -/
def Detail.default : Detail ω :=
  { code := "error.http".toList
    message := .str (resolveMessageOr "error.http".toList "http_error".toList), «meta» := none }

/-- `detail.get("meta")` as a `dict`. -/
def detailMeta : Option (Value ω) → Option (List (Key ω × Value ω))
  | none | some .none => none
  | some (.dict items) => some items
  | some v => some [(.str "value".toList, v)]

/-- `none` is what `str(detail.get("code"))` raises. -/
def detailOf : Value ω → Option (Detail ω)
  | .dict items =>
    match dictGet "code".toList items with
    | none => some .default
    | some code => (rt.str code).map fun code =>
      { code := code
        message := (dictGet "message".toList items).getD (.str (resolveMessageOr code code))
        «meta» := detailMeta (dictGet "meta".toList items) }
  | .str s =>
    if strip s = [] then some .default
    else
      some { code := strip s, message := .str (resolveMessageOr (strip s) (strip s))
             «meta» := none }
  | _ => some .default

/-- `detail_meta` -/
def Detail.metaValue (detail : Detail ω) : Value ω := (detail.meta.map .dict).getD .none

def httpExceptionHandler (state : Option Str) (fresh : Str) (r : Request) (exc : HTTPException ω) :
    Handled ω :=
  let rid := getRequestId state fresh r
  match detailOf rt exc.detail with
  | none => { recorded := none, response := .error .notPrintable }
  | some detail =>
    recordThen rt.toConversion
      { action := "http.http_exception"
        status := if exc.statusCode ∈ [401, 403, 429] then "deny" else "error"
        httpStatus := some exc.statusCode
        «meta» := some (strDict [("path".toList, .str r.path), ("method".toList, .str r.method),
          ("detail_meta".toList, detail.metaValue)])
        errorCode := some detail.code }
      (do
        let content ← buildError rt.toConversion rt.strKey detail.code detail.message rid detail.meta
        jsonResponse exc.statusCode rid content)

/-- `unhandled_error_handler`; its log line is left to `Core/JsonFormatter.lean`. -/
def unhandledErrorHandler (state : Option Str) (fresh : Str) (r : Request) (className : Str) :
    Handled ω :=
  let rid := getRequestId state fresh r
  recordThen rt.toConversion (unhandledError r className)
    (do
      let content ← buildError rt.toConversion rt.strKey "error.internal".toList
        (.str (resolveMessage "error.internal").toList) rid none
      jsonResponse 500 rid content)

/-- The code of the exception that its handler makes known. -/
def Exc.code : Exc ω → Option Str
  | .appError exc => some exc.code
  | .validation _ => some "error.validation_failed".toList
  | .http exc => (detailOf rt exc.detail).map Detail.code
  | .other _ => none

/-- The handler that the exception middleware finds for the class; it lets the others through. -/
def Exc.handled (state : Option Str) (fresh : Str) (r : Request) : Exc ω → Option (Handled ω)
  | .appError exc => some (appErrorHandler rt.toConversion rt.strKey state fresh r exc)
  | .validation errors =>
    some (validationErrorHandler rt.toConversion rt.strKey state fresh r errors)
  | .http exc => some (httpExceptionHandler rt state fresh r exc)
  | .other _ => none

end Handlers

/-! ## A request as the client sees it -/

/-- `HDR_RESPONSE_TIME_MS` -/
def hdrResponseTimeMs : Str := "X-Response-Time-Ms".toList

/-- `headers[name] = value` -/
def setHeader (name value : Str) : List (Str × Str) → List (Str × Str)
  | [] => [(name, value)]
  | h :: hs =>
    if h.1 = name then (name, value) :: hs.filter fun h => h.1 != name
    else h :: setHeader name value hs

/-- A response on its way to the client, its body where it is the body of an error. -/
structure Answer (ω : Type) where
  status : Int
  headers : List (Str × Str)
  content : Option (Value ω)

def JSONResponse.answer (resp : JSONResponse ω) : Answer ω where
  status := resp.status
  headers := [(lower hdrRequestId, resp.requestId)]
  content := some resp.content

/-- How the code behind the middlewares ends. -/
inductive Ending (ω : Type) where
  | responds (response : Response ω) (headers : List (Str × Str))
  | raises (exc : Exc ω) (status_ge : 100 ≤ exc.status)

/-- The router with its dependencies and its handlers. -/
structure Endpoint (ω : Type) where
  actions : List (Action ω)
  ending : Ending ω

def Exc.className : Exc ω → Str
  | .appError _ => "AppError".toList
  | .validation _ => "RequestValidationError".toList
  | .http _ => "HTTPException".toList
  | .other className => className

section Requests

variable (rt : Runtime ω) (fresh uuid : Str) (took : Nat) (req : Request)

/-- The id that `dispatch` gives the request. -/
def requestIdOf : Str := sanitizeRequestId fresh (req.header hdrRequestId)

/-- The handler for the class of what the endpoint raises; `uuid` is its own `uuid.uuid4().hex`. -/
def Exc.handledIn (exc : Exc ω) : Option (Handled ω) :=
  exc.handled rt (some (requestIdOf fresh req)) uuid req

/-- The endpoint inside the exception middleware. -/
def Endpoint.downstream (e : Endpoint ω) : Downstream ω :=
  match e.ending with
  | .responds response _ => { actions := e.actions, outcome := .responds response }
  | .raises exc status_ge =>
    match exc.handledIn rt fresh uuid req with
    | none => { actions := e.actions, outcome := .raises exc.className }
    | some handled =>
      { actions := e.actions ++ (handled.recorded.map .record).toList
        outcome := match handled.response with
          | .ok _ => .responds { status := exc.status, background := none, status_ge := status_ge }
          | .error err => .raises (rt.raised err) }

/-- What the client gets when an exception comes out of all of the middlewares. -/
def unhandledAnswer (className : Str) : Option (Answer ω) :=
  match (unhandledErrorHandler rt (some (requestIdOf fresh req)) uuid req className).response with
  | .ok resp => some resp.answer
  | .error _ => none

/-- `dispatch` sets the headers of a response that comes back from `call_next`, `took` milliseconds
later. -/
def Answer.stamped (a : Answer ω) : Answer ω :=
  { a with
    headers := setHeader (lower hdrResponseTimeMs) (str took)
      (setHeader (lower hdrRequestId) (requestIdOf fresh req) a.headers) }

/-- What the client gets. -/
def Endpoint.answer (e : Endpoint ω) : Option (Answer ω) :=
  match e.ending with
  | .responds response headers =>
    some (Answer.stamped fresh took req
      { status := response.status, headers := headers, content := none })
  | .raises exc _ =>
    match exc.handledIn rt fresh uuid req with
    | none => unhandledAnswer rt fresh uuid req exc.className
    | some handled =>
      match handled.response with
      | .ok resp => some (resp.answer.stamped fresh took req)
      | .error err => unhandledAnswer rt fresh uuid req (rt.raised err)

end Requests

/-- `v[k]` of the body -/
def item (k : String) : Value ω → Option (Value ω)
  | .dict items => dictGet k.toList items
  | _ => none

/-- A field of the `error` of a body. -/
def errorField (k : String) (content : Value ω) : Option (Value ω) :=
  (item "error" content).bind (item k)

/-! ## The id of a request -/

/-- An id that needs no escaping anywhere. -/
structure SafeId (rid : Str) : Prop where
  nonempty : rid ≠ []
  length : rid.length ≤ 128
  chars : rid.all safeRidChar = true

theorem safeId_sanitize {fresh : Str} (hfresh : SafeId fresh) (v : Option Str) :
    SafeId (sanitizeRequestId fresh v) := by
  simp only [sanitizeRequestId]
  split
  · exact hfresh
  · next hsafe =>
    simp only [Bool.or_eq_true, decide_eq_true_eq, not_or] at hsafe
    obtain ⟨⟨hempty, hlength⟩, hchars⟩ := hsafe
    exact ⟨by simpa using hempty, Nat.le_of_not_lt hlength, by simpa using hchars⟩

theorem filter_setHeader (name value : Str) (hs : List (Str × Str)) :
    ((setHeader name value hs).filter fun h => h.1 == name) = [(name, value)] := by
  induction hs with
  | nil => simp [setHeader]
  | cons h hs ih =>
    rw [setHeader]
    split
    · simp
    · next hne => simp [hne, ih]

theorem filter_setHeader_of_ne {name other : Str} (hne : other ≠ name) (value : Str)
    (hs : List (Str × Str)) :
    ((setHeader name value hs).filter fun h => h.1 == other) = hs.filter fun h => h.1 == other := by
  induction hs with
  | nil => simp [setHeader, Ne.symm hne]
  | cons h hs ih =>
    rw [setHeader]
    split
    · next heq =>
      have hrest : (hs.filter fun h => h.1 != name).filter (fun h => h.1 == other)
          = hs.filter fun h => h.1 == other := by
        rw [List.filter_filter]
        refine List.filter_congr fun h _ => ?_
        by_cases ho : h.1 = other
        · simp [ho, hne]
        · simp [ho]
      simp [heq, Ne.symm hne, hrest]
    · by_cases ho : h.1 = other
      · simp [ho, ih]
      · simp [ho, ih]

/-! ## What a response tells -/

/-- The response of an error, with its id and its code in the body. -/
structure Tells (code rid : Str) (st : Int) (resp : JSONResponse ω) : Prop where
  status : resp.status = st
  header : resp.requestId = rid
  json : dumpsOk resp.content = true
  requestId : errorField "request_id" resp.content = some (.str rid)
  code : errorField "code" resp.content = some (.str code)

section Told

variable {rt : Runtime ω}

/-- The two fields come back out of the body. -/
theorem errorField_response (i : ErrorInfo ω) :
    errorField "request_id" (rt.modelDump i.response) = some (.str i.requestId) ∧
      errorField "code" (rt.modelDump i.response) = some (.str i.code) := by
  rw [rt.modelDump_eq]
  exact ⟨rfl, rfl⟩

theorem tells_of_build {code rid : Str} {message : Value ω} {st : Int}
    {«meta» : Option (List (Key ω × Value ω))} {resp : JSONResponse ω}
    (h : (buildError rt.toConversion rt.strKey code message rid «meta» >>= jsonResponse st rid)
      = .ok resp) : Tells code rid st resp := by
  unfold buildError at h
  cases hv : ErrorInfo.validate rt.strKey code message rid «meta» with
  | error err =>
    rw [hv] at h
    cases h
  | ok i =>
    rw [hv] at h
    have hinfo : i.code = code ∧ i.requestId = rid := by
      cases «meta» with
      | none =>
        cases hv
        exact ⟨rfl, rfl⟩
      | some items =>
        rw [validate_some] at hv
        split at hv
        · cases hv
        · cases hv
          exact ⟨rfl, rfl⟩
    have hjson : jsonResponse st rid (rt.modelDump i.response) = .ok resp := h
    unfold jsonResponse at hjson
    split at hjson
    · next hok =>
      cases hjson
      obtain ⟨hid, hcode⟩ := @errorField_response ω rt i
      exact ⟨rfl, rfl, hok, hinfo.2 ▸ hid, hinfo.1 ▸ hcode⟩
    · cases hjson

variable {fresh uuid : Str} {req : Request}

/-- Handlers take the id that the middleware has left. -/
theorem getRequestId_handed (hfresh : SafeId fresh) :
    getRequestId (some (requestIdOf fresh req)) uuid req = requestIdOf fresh req := by
  have hne : (requestIdOf fresh req).isEmpty = false :=
    List.isEmpty_eq_false_iff.mpr (safeId_sanitize hfresh (req.header hdrRequestId)).nonempty
  simp [getRequestId, orNone, Option.filter, hne]

theorem toObjEntries_keys {text : ω → Option Str} {modelDump : List (Str × Value ω) → Value ω} :
    ∀ {fields entries : List (Str × Value ω)},
      toObjEntries text modelDump (fields.map fun e => (.str e.1, e.2)) = some entries →
      entries.map Prod.fst = fields.map Prod.fst
  | [], entries, h => by
    cases h
    rfl
  | e :: fields, entries, h => by
    simp only [List.map_cons, toObjEntries, Key.text?, Option.bind_some, Option.bind_eq_some_iff,
      Option.map_eq_some_iff] at h
    obtain ⟨y, -, rest, hrest, rfl⟩ := h
    simp [Key.text, toObjEntries_keys hrest]

/-- An entry that is added is found under its key, redacted. -/
theorem item_redacted {k : String} {w : WordClass} {d : List (Str × Value ω)}
    (hk : k.toList ∉ d.map Prod.fst) (hopen : sensitive (.str k.toList : Key ω) = false)
    (v : Value ω) :
    item k (redactObj w (strDict (setDefault k.toList v d))) = some (redactObj w v) := by
  rw [setDefault, if_neg hk, strDict, redactObj_dict, item, dictGet, List.map_append,
    List.map_append, List.find?_append]
  have hfirst : ((d.map fun e => (.str e.1, e.2)).map (redactEntry w)).find?
      (fun e => match e.1 with
        | .str s => s == k.toList
        | _ => false) = none := by
    rw [List.map_map, List.find?_eq_none, List.forall_mem_map]
    intro e he hkey
    refine hk (List.mem_map.mpr ⟨e, he, ?_⟩)
    simpa [redactEntry] using hkey
  rw [hfirst]
  simp [redactEntry, hopen]

/-- The code gets into the metadata where that has no entry for it. -/
theorem errorCode_stdMeta {c : Conversion ω} {fields : List (Str × Value ω)} {code : Str}
    {m : Value ω} (hfields : "error_code".toList ∉ fields.map Prod.fst)
    (h : c.stdMeta (strDict fields) (some code) = some m) :
    item "error_code" m = some (.str (redactStr c.words code)) := by
  simp only [Conversion.stdMeta, stdMeta, strDict, normalizeMeta, Option.map_map,
    Option.map_eq_some_iff] at h
  obtain ⟨entries, hentries, rfl⟩ := h
  have hnot : "error_code".toList ∉ (dictOf entries).map Prod.fst := by
    intro hmem
    obtain ⟨e, he, hkey⟩ := List.mem_map.mp hmem
    obtain ⟨a, b, rfl, -⟩ := mem_dictOf_iff.mp he
    rw [← toObjEntries_keys hentries, ← hkey] at hfields
    exact hfields (by simp)
  have hopen : sensitive (.str "error_code".toList : Key ω) = false := by
    show sensitiveKeys.contains (lower "error_code".toList) = false
    decide
  exact item_redacted hnot hopen (.str code)

/-- A handler that has answered has recorded the error, with the status and the code of its
answer. -/
structure Recorded (rt : Runtime ω) (handled : Handled ω) (rid : Str) (st : Int)
    (resp : JSONResponse ω) (args : RecordArgs (Value ω)) (code : Str) : Prop where
  recorded : handled.recorded = some args
  httpStatus : args.httpStatus = some st
  errorCode : args.errorCode = some code
  event : ∃ m, rt.stdMeta (args.meta.getD .none) (some code) = some m ∧
    item "error_code" m = some (.str (redactStr rt.words code))
  tells : Tells code rid st resp

theorem recorded_of_recordThen {args : RecordArgs (Value ω)} {code rid : Str} {message : Value ω}
    {st : Int} (fields : List (Str × Value ω)) {«meta» : Option (List (Key ω × Value ω))}
    {resp : JSONResponse ω} (hstatus : args.httpStatus = some st)
    (hcode : args.errorCode = some code) (hmeta : args.meta = some (strDict fields))
    (hfields : "error_code".toList ∉ fields.map Prod.fst)
    (h : (recordThen rt.toConversion args
      (buildError rt.toConversion rt.strKey code message rid «meta» >>= jsonResponse st rid)).response
        = .ok resp) :
    Recorded rt (recordThen rt.toConversion args
      (buildError rt.toConversion rt.strKey code message rid «meta» >>= jsonResponse st rid))
        rid st resp args code := by
  unfold recordThen at h
  split at h
  · next hsome =>
    obtain ⟨m, hm⟩ := Option.isSome_iff_exists.mp hsome
    rw [hcode] at hm
    refine ⟨rfl, hstatus, hcode, ⟨m, hm, ?_⟩, tells_of_build h⟩
    rw [hmeta, Option.getD_some] at hm
    exact errorCode_stdMeta hfields hm
  · cases h

/-- What a handler that answers has recorded. -/
theorem handled_recorded (hfresh : SafeId fresh) {exc : Exc ω} {handled : Handled ω}
    (h : exc.handledIn rt fresh uuid req = some handled) {resp : JSONResponse ω}
    (hresp : handled.response = .ok resp) :
    ∃ args code, exc.code rt = some code ∧
      Recorded rt handled (requestIdOf fresh req) exc.status resp args code := by
  have hrid := @getRequestId_handed fresh uuid req hfresh
  rw [← hrid]
  cases exc with
  | appError exc =>
    cases h
    exact ⟨_, _, rfl, recorded_of_recordThen _ rfl rfl rfl (by simp) hresp⟩
  | validation errors =>
    cases h
    exact ⟨_, _, rfl, recorded_of_recordThen _ rfl rfl rfl (by simp) hresp⟩
  | http exc =>
    simp only [Exc.handledIn, Exc.handled, httpExceptionHandler, Option.some.injEq] at h
    subst h
    cases hdetail : detailOf rt exc.detail with
    | none =>
      rw [hdetail] at hresp
      cases hresp
    | some detail =>
      simp only [hdetail] at hresp
      exact ⟨_, _, congrArg (Option.map _) hdetail,
        recorded_of_recordThen _ rfl rfl rfl (by simp) hresp⟩
  | other className => cases h

/-- The handler for unhandled errors always has an answer. -/
theorem unhandledAnswer_tells (hfresh : SafeId fresh) (className : Str) :
    ∃ resp, unhandledAnswer rt fresh uuid req className = some resp.answer ∧
      Tells "error.internal".toList (requestIdOf fresh req) 500 resp := by
  have hanswers : (unhandledErrorHandler rt (some (requestIdOf fresh req)) uuid req
      className).Answers 500 := by
    refine (recordThen_iff rt.modelDump_eq _ _ _ 500 _ _).mpr ⟨?_, rfl, rfl⟩
    simp [unhandledError, strDict, converts, convertsEntries, Key.text?]
  obtain ⟨resp, hresp, -⟩ := hanswers
  refine ⟨resp, by rw [unhandledAnswer, hresp], ?_⟩
  have hrecorded := recorded_of_recordThen [("path".toList, .str req.path),
    ("method".toList, .str req.method), ("exc_type".toList, .str className)] rfl rfl rfl (by simp)
    hresp
  exact getRequestId_handed hfresh ▸ hrecorded.tells

end Told

/-! ## What the rows tell -/

/-- Handlers record under the id that the middleware has set. -/
theorem requestId_recordedBy (c : Conversion ω) {actions : List (Action ω)}
    (h : ∀ a ∈ actions, OfHandler a) {ctx : RequestContext} :
    ∀ e ∈ recordedBy c ctx actions, e.requestId = ctx.requestId := by
  induction actions generalizing ctx with
  | nil => exact List.forall_mem_nil _
  | cons a actions ih =>
    obtain ⟨ha, hactions⟩ := List.forall_mem_cons.mp h
    cases ha with
    | record args =>
      rw [recordedBy, List.forall_mem_append]
      refine ⟨fun e he => ?_, ih hactions⟩
      obtain ⟨m, -, rfl⟩ := Option.map_eq_some_iff.mp (Option.mem_toList.mp he)
      rfl
    | setUserId userId => exact ih hactions

theorem requestId_contextAfter {actions : List (Action ω)} (h : ∀ a ∈ actions, OfHandler a)
    {ctx : RequestContext} : (contextAfter ctx actions).requestId = ctx.requestId := by
  induction actions generalizing ctx with
  | nil => rfl
  | cons a actions ih =>
    obtain ⟨ha, hactions⟩ := List.forall_mem_cons.mp h
    cases ha with
    | record args => exact ih hactions
    | setUserId userId => exact ih hactions

/-- The rows of a request are under its id. -/
theorem requestId_rows (c : Conversion ω) (fresh : Str) (req : Request) {d : Downstream ω}
    (hd : d.OfHandlers) (w : World ω) :
    ∃ rows, (serve c fresh req d w).2.stored = w.stored ++ rows ∧
      ∀ row ∈ rows, row.requestId = some (requestIdOf fresh req) := by
  by_cases hcompletes : d.Completes
  · obtain ⟨response, hout, hreturns⟩ := hcompletes
    refine ⟨_, serve_stored w hout hreturns, fun row hrow => ?_⟩
    unfold flushedRows at hrow
    split at hrow
    · split at hrow
      · rw [List.mem_singleton.mp hrow]
        exact requestId_contextAfter hd.behind
      · cases hrow
    · next hevents =>
      obtain ⟨evt, hevt, rfl⟩ := List.mem_map.mp hrow
      rw [← hevents, Downstream.events, List.mem_append, List.mem_append] at hevt
      rcases hevt with hevt | hevt | hevt
      · exact requestId_recordedBy c hd.actions evt hevt
      · exact (requestId_recordedBy c hd.beside evt hevt).trans (requestId_contextAfter hd.actions)
      · exact requestId_recordedBy c hd.behind evt hevt
  · refine ⟨[], ?_, List.forall_mem_nil _⟩
    rw [serve_stored_of_not w hcompletes, List.append_nil]

/-- The code of an endpoint keeps to what handlers do, also where it goes on behind its response. -/
structure Endpoint.OfHandlers (e : Endpoint ω) : Prop where
  actions : ∀ a ∈ e.actions, OfHandler a
  beside : ∀ response headers, e.ending = .responds response headers →
    ∀ a ∈ response.rest.beside, OfHandler a
  behind : ∀ response headers b, e.ending = .responds response headers →
    response.background = some b → ∀ a ∈ b.actions, OfHandler a

theorem ofHandlers_downstream {e : Endpoint ω} (he : e.OfHandlers) (rt : Runtime ω)
    (fresh uuid : Str) (req : Request) : (e.downstream rt fresh uuid req).OfHandlers := by
  unfold Endpoint.downstream
  split
  · next response headers hend =>
    refine ⟨he.actions, he.beside response headers hend, fun a ha => ?_⟩
    simp only [Downstream.behind] at ha
    cases hbg : response.background with
    | none => simp [hbg] at ha
    | some b => exact he.behind response headers b hend hbg a (by simpa [hbg] using ha)
  · split
    · exact ⟨he.actions, List.forall_mem_nil _, List.forall_mem_nil _⟩
    · next handled _ =>
      refine ⟨List.forall_mem_append.mpr ⟨he.actions, fun a ha => ?_⟩, ?_, ?_⟩
      · obtain ⟨args, -, rfl⟩ := Option.map_eq_some_iff.mp (Option.mem_toList.mp ha)
        exact .record args
      · cases handled.response with
        | ok resp => exact List.forall_mem_nil _
        | error err => exact List.forall_mem_nil _
      · cases handled.response with
        | ok resp => exact List.forall_mem_nil _
        | error err => exact List.forall_mem_nil _

/-! ## The whole request -/

/-- What the client gets carries the id, in the header and in the body of an error. -/
structure Answer.Carries (a : Answer ω) (rid : Str) : Prop where
  header : (a.headers.filter fun h => h.1 == lower hdrRequestId) = [(lower hdrRequestId, rid)]
  body : ∀ content, a.content = some content → errorField "request_id" content = some (.str rid)

section Answers

variable {rt : Runtime ω} {fresh uuid : Str} {took : Nat} {req : Request}

theorem Tells.carries {code : Str} {st : Int} {resp : JSONResponse ω}
    (h : Tells code (requestIdOf fresh req) st resp) :
    resp.answer.Carries (requestIdOf fresh req) where
  header := by simp [JSONResponse.answer, h.header]
  body content hcontent := by
    cases hcontent
    exact h.requestId

theorem carries_stamped {a : Answer ω}
    (h : ∀ content, a.content = some content →
      errorField "request_id" content = some (.str (requestIdOf fresh req))) :
    (a.stamped fresh took req).Carries (requestIdOf fresh req) where
  header := by
    rw [Answer.stamped, filter_setHeader_of_ne (by decide), filter_setHeader]
  body := h

/-- An exception that nothing answers is answered as an internal error. -/
theorem unhandled_carries (hfresh : SafeId fresh) (className : Str) :
    ∃ a content, unhandledAnswer rt fresh uuid req className = some a ∧
      a.Carries (requestIdOf fresh req) ∧ a.status = 500 ∧ a.content = some content ∧
        errorField "code" content = some (.str "error.internal".toList) := by
  obtain ⟨resp, hanswer, htells⟩ := @unhandledAnswer_tells ω rt fresh uuid req hfresh className
  exact ⟨resp.answer, resp.content, hanswer, htells.carries, htells.status, rfl, htells.code⟩

/-- The client gets an answer, with the id and with the status that the audit trail has. -/
theorem answer_carries (hfresh : SafeId fresh) (e : Endpoint ω) :
    ∃ a, e.answer rt fresh uuid took req = some a ∧ a.Carries (requestIdOf fresh req) ∧
      a.status = (e.downstream rt fresh uuid req).status := by
  have hunhandled : ∀ className, ∃ a, unhandledAnswer rt fresh uuid req className = some a ∧
      a.Carries (requestIdOf fresh req) ∧ a.status = 500 := fun className =>
    have ⟨a, _, hanswer, hcarries, hstatus, _⟩ := unhandled_carries hfresh className
    ⟨a, hanswer, hcarries, hstatus⟩
  unfold Endpoint.answer Endpoint.downstream
  cases e.ending with
  | responds response headers =>
    refine ⟨_, rfl, carries_stamped fun content hcontent => ?_, rfl⟩
    cases hcontent
  | raises exc status_ge =>
    cases hhandled : exc.handledIn rt fresh uuid req with
    | none =>
      simp only [hhandled]
      exact hunhandled exc.className
    | some handled =>
      cases hresp : handled.response with
      | error err =>
        simp only [hhandled, hresp]
        exact hunhandled (rt.raised err)
      | ok resp =>
        obtain ⟨args, code, -, hrecorded⟩ := handled_recorded hfresh hhandled hresp
        simp only [hhandled, hresp]
        exact ⟨_, rfl, carries_stamped hrecorded.tells.carries.body, hrecorded.tells.status⟩

end Answers

/--
**A request has one id.**

Whatever the endpoint does, the client gets an answer whose header has the id of the request, once;
an error body carries the same id, and so does every row that is stored of the request.  It is the
one that the client has sent or a new one, and no place has to escape it.
-/
theorem one_request_id (rt : Runtime ω) {fresh : Str} (hfresh : SafeId fresh) (uuid : Str)
    (took : Nat) (req : Request) (e : Endpoint ω) (he : e.OfHandlers) (w : World ω) :
    let rid := requestIdOf fresh req
    SafeId rid ∧ (rid = fresh ∨ rid = strip ((req.header hdrRequestId).getD [])) ∧
      (∃ a, e.answer rt fresh uuid took req = some a ∧ a.Carries rid ∧
        a.status = (e.downstream rt fresh uuid req).status) ∧
      ∃ rows, (serve rt.toConversion fresh req (e.downstream rt fresh uuid req) w).2.stored
          = w.stored ++ rows ∧ ∀ row ∈ rows, row.requestId = some rid := by
  refine ⟨safeId_sanitize hfresh _, ?_, answer_carries hfresh e,
    requestId_rows rt.toConversion fresh req (ofHandlers_downstream he rt fresh uuid req) w⟩
  simp only [requestIdOf, sanitizeRequestId]
  split
  · exact Or.inl rfl
  · exact Or.inr rfl

/-- A runtime without unknown objects. -/
def jsonRuntime : Runtime Empty where
  toConversion := jsonConversion asciiWords
  strKey o := nomatch o
  str
    | .str s => some s
    | .int n => if printableInt n then some (Py.str n) else none
    | _ => some []
  raised _ := "TypeError".toList
  modelDump_eq _ := rfl
  str_str _ := rfl
  str_int _ := rfl

/-- A request of a path that no route has, with an id of the client. -/
def unknownPath : Request :=
  { method := "GET".toList, path := "/nowhere".toList
    headers := [("x-request-id".toList, "web-7.1".toList)], query := [], client := none }

/-- What the router does with it. -/
def notFound : Endpoint Empty where
  actions := []
  ending := .raises (.http { statusCode := 404, detail := .str "Not Found".toList }) (by decide)

theorem safeId_someHex : SafeId someHex := by
  refine ⟨by decide, ?_, by decide⟩
  rw [someHex_length]
  decide

theorem one_request_id_unknownPath :
    ∃ a, notFound.answer jsonRuntime someHex [] 3 unknownPath = some a ∧
      a.Carries "web-7.1".toList ∧ a.status = 404 := by
  have he : notFound.OfHandlers := by
    refine ⟨List.forall_mem_nil _, fun response headers hend => ?_, fun response headers b hend => ?_⟩
    · cases hend
    · cases hend
  obtain ⟨-, -, ⟨a, hanswer, hcarries, hstatus⟩, -⟩ :=
    one_request_id jsonRuntime safeId_someHex [] 3 unknownPath notFound he noEvents
  have hrid : requestIdOf someHex unknownPath = "web-7.1".toList := by decide
  rw [hrid] at hcarries
  exact ⟨a, hanswer, hcarries, hstatus.trans rfl⟩

/-- The exception has a handler, and its response can be built. -/
def Exc.AnsweredBy (rt : Runtime ω) (fresh uuid : Str) (req : Request) (exc : Exc ω)
    (handled : Handled ω) : Prop :=
  exc.handledIn rt fresh uuid req = some handled ∧ ∃ resp, handled.response = .ok resp

theorem recordedBy_append (c : Conversion ω) (actions actions' : List (Action ω))
    (ctx : RequestContext) : recordedBy c ctx (actions ++ actions')
      = recordedBy c ctx actions ++ recordedBy c (contextAfter ctx actions) actions' := by
  induction actions generalizing ctx with
  | nil => rfl
  | cons a actions ih =>
    cases a with
    | record args => simp [recordedBy, contextAfter, ih]
    | setContext f => exact ih (f ctx)

/-- The endpoint has done `actions`, and a handler answers and records `args`. -/
def Downstream.answered (actions : List (Action ω)) (args : RecordArgs (Value ω)) {status : Int}
    (status_ge : 100 ≤ status) : Downstream ω where
  actions := actions ++ [.record args]
  outcome := .responds { status := status, background := none, status_ge := status_ge }

/-- The row of the handler is behind the rows of the endpoint. -/
theorem serve_answered {c : Conversion ω} (fresh : Str) (req : Request) (actions : List (Action ω))
    {args : RecordArgs (Value ω)} {status : Int} (status_ge : 100 ≤ status) {evt : AuditEvent ω}
    (hevt : buildEvent c (contextAfter (dispatchContext fresh req) actions) args = some evt)
    (w : World ω) : (serve c fresh req (.answered actions args status_ge) w).2.stored
      = w.stored ++ ((recordedBy c (dispatchContext fresh req) actions).map (withHttpStatus status)
        ++ [withHttpStatus status evt]) := by
  rw [serve_stored w rfl ⟨rfl, fun b hb => by cases hb⟩]
  have hevents : (Downstream.answered actions args status_ge).events c (dispatchContext fresh req)
      = recordedBy c (dispatchContext fresh req) actions ++ [evt] := by
    simp [Downstream.answered, Downstream.events, Downstream.beside, Downstream.behind,
      recordedBy_append, recordedBy, hevt]
  rw [hevents]
  cases recordedBy c (dispatchContext fresh req) actions with
  | nil => rfl
  | cons first rest => simp [flushedRows]

/-- What the trail has of an error: the status, and the code as it is redacted. -/
structure RowTells (words : WordClass) (code : Str) (st : Int) (row : AuditEvent ω) : Prop where
  httpStatus : row.httpStatus = some st
  errorCode : item "error_code" row.meta = some (.str (redactStr words code))

/--
**A handled error is told alike** to the client and to the audit trail: the last row of the request
has the status and the id of the answer and the code of its body, redacted, behind the rows of what
the endpoint has recorded.

Of an error without a handler, or whose handler cannot record or build its response, the client is
told `error.internal` and the trail nothing at all.
-/
theorem error_told_alike (rt : Runtime ω) {fresh : Str} (hfresh : SafeId fresh) (uuid : Str)
    (took : Nat) (req : Request) (e : Endpoint ω) (exc : Exc ω) (status_ge : 100 ≤ exc.status)
    (hraises : e.ending = .raises exc status_ge) (w : World ω) :
    ∃ a content, e.answer rt fresh uuid took req = some a ∧ a.content = some content ∧
      ((∃ handled code row, exc.AnsweredBy rt fresh uuid req handled ∧ a.status = exc.status ∧
        exc.code rt = some code ∧ errorField "code" content = some (.str code) ∧
        (serve rt.toConversion fresh req (e.downstream rt fresh uuid req) w).2.stored
          = w.stored ++ ((recordedBy rt.toConversion (dispatchContext fresh req) e.actions).map
            (withHttpStatus a.status) ++ [row]) ∧
        RowTells rt.words code a.status row) ∨
      ((∀ handled, ¬exc.AnsweredBy rt fresh uuid req handled) ∧ a.status = 500 ∧
        errorField "code" content = some (.str "error.internal".toList) ∧
        (serve rt.toConversion fresh req (e.downstream rt fresh uuid req) w).2.stored
          = w.stored)) := by
  have hlost : ∀ actions className, (serve rt.toConversion fresh req
      { actions := actions, outcome := .raises className } w).2.stored = w.stored := by
    refine fun actions className => serve_stored_of_not w ?_
    rintro ⟨response, heq, -⟩
    cases heq
  unfold Endpoint.answer Endpoint.downstream Exc.AnsweredBy
  rw [hraises]
  cases hhandled : exc.handledIn rt fresh uuid req with
  | none =>
    obtain ⟨a, content, hanswer, -, hstatus, hcontent, hcode⟩ :=
      @unhandled_carries ω rt fresh uuid req hfresh exc.className
    simp only [hhandled]
    refine ⟨a, content, hanswer, hcontent, Or.inr ⟨?_, hstatus, hcode, hlost _ _⟩⟩
    rintro handled ⟨heq, -⟩
    cases heq
  | some handled =>
    cases hresp : handled.response with
    | error err =>
      -- a row that the handler has recorded goes the way of all others: nothing is flushed
      obtain ⟨a, content, hanswer, -, hstatus, hcontent, hcode⟩ :=
        @unhandled_carries ω rt fresh uuid req hfresh (rt.raised err)
      simp only [hhandled, hresp]
      refine ⟨a, content, hanswer, hcontent, Or.inr ⟨?_, hstatus, hcode, hlost _ _⟩⟩
      rintro handled' ⟨heq, resp, hok⟩
      cases heq
      rw [hresp] at hok
      cases hok
    | ok resp =>
      obtain ⟨args, code, hown, hrecorded⟩ := handled_recorded hfresh hhandled hresp
      obtain ⟨m, hm, hitem⟩ := hrecorded.event
      have hstatus : (resp.answer.stamped fresh took req).status = exc.status :=
        hrecorded.tells.status
      have hevt : ∀ ctx, ∃ evt, buildEvent rt.toConversion ctx args = some evt ∧
          RowTells rt.words code exc.status (withHttpStatus exc.status evt) := by
        intro ctx
        refine ⟨_, by rw [buildEvent, hrecorded.errorCode, hm, Option.map_some], ⟨?_, ?_⟩⟩
        · simp [withHttpStatus, hrecorded.httpStatus]
        · exact hitem
      obtain ⟨evt, hbuild, htells⟩ := hevt (contextAfter (dispatchContext fresh req) e.actions)
      simp only [hhandled, hresp, hrecorded.recorded]
      refine ⟨_, resp.content, rfl, rfl, Or.inl ⟨handled, code, _, ⟨rfl, resp, hresp⟩, hstatus,
        hown, hrecorded.tells.code, ?_, hstatus ▸ htells⟩⟩
      rw [hstatus]
      exact serve_answered fresh req e.actions status_ge hbuild w

theorem error_told_alike_unknownPath :
    ∃ a content row, notFound.answer jsonRuntime someHex [] 3 unknownPath = some a ∧
      a.content = some content ∧ errorField "code" content = some (.str "Not Found".toList) ∧
      (serve jsonRuntime.toConversion someHex unknownPath
        (notFound.downstream jsonRuntime someHex [] unknownPath) noEvents).2.stored = [row] ∧
      RowTells asciiWords "Not Found".toList 404 row := by
  obtain ⟨a, content, hanswer, hcontent, hcases⟩ := error_told_alike jsonRuntime safeId_someHex [] 3
    unknownPath notFound _ (by decide) rfl noEvents
  have hanswered : Exc.AnsweredBy jsonRuntime someHex [] unknownPath
      (.http { statusCode := 404, detail := .str "Not Found".toList })
      (httpExceptionHandler jsonRuntime (some (requestIdOf someHex unknownPath)) [] unknownPath
        { statusCode := 404, detail := .str "Not Found".toList }) := ⟨rfl, _, rfl⟩
  rcases hcases with ⟨handled, code, row, -, hstatus, hown, hcode, hstored, hrow⟩ | ⟨hnot, -⟩
  · have hnotFound : Exc.code jsonRuntime
        (.http { statusCode := 404, detail := .str "Not Found".toList })
          = some "Not Found".toList := by decide
    rw [hnotFound] at hown
    cases hown
    rw [hstatus] at hrow
    exact ⟨a, content, row, hanswer, hcontent, hcode, hstored, hrow⟩
  · exact absurd hanswered (hnot _)

end EnterpriseAssistant.Api
