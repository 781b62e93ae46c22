import EnterpriseAssistant.Audit.Service
import EnterpriseAssistant.Api.Request

/-!
# The answers to errors

`_build_error`, `app_error_handler` and `validation_error_handler` of
`app/api/exception_handlers.py`: what is recorded, and the response.

A handler that cannot record does not get to its response.  The metadata goes through pydantic as it
is: `modelDump` is `model_dump` in Python mode, and `strKey` says which other objects pydantic takes
for a string where it wants one (`bytes`).

* `everywhere_toPython` — what is left of a value in the body
* `appError_answered` — the errors that handlers build themselves are answered
* `errors_answered_iff` — which errors are
* `validation_recorded` — the record of a rejection can be stored all the same
-/

namespace EnterpriseAssistant.Api

open Py Core Audit

variable {ω : Type}

/-! ## What `json.dumps` accepts -/

/-- `math.isfinite`, by the `repr`. -/
def finite (text : Str) : Bool :=
  text != "nan".toList && text != "inf".toList && text != "-inf".toList

/-- A key that becomes a string, with `allow_nan=False`. -/
def bodyKey : Key ω → Bool
  | .none | .bool _ | .str _ => true
  | .int n => printableInt n
  | .float text => finite text
  | .other _ => false

/-- A value that `json.dumps` goes into or prints, with `allow_nan=False`. -/
def jsonNode : Value ω → Bool
  | .none | .bool _ | .str _ | .list _ | .tuple _ => true
  | .int n => printableInt n
  | .float text => finite text
  | .dict items => items.all fun e => bodyKey e.1
  | .other _ | .set _ | .model _ | .dataclass _ => false

def dumpsOk (v : Value ω) : Bool := v.everywhere jsonNode

/-! ## The handlers -/

/-- An `AppError` with any metadata. -/
structure AnyAppError (ω : Type) where
  code : Str
  httpStatus : Int
  message : Option Str
  «meta» : Option (List (Key ω × Value ω))

structure ErrorInfo (ω : Type) where
  code : Str
  message : Value ω
  requestId : Str
  «meta» : Option (List (Str × Value ω))

inductive BuildError where
  /-- what `str` raises in `record` -/
  | notPrintable
  /-- the `ValidationError` of `ErrorInfo` -/
  | invalid
  /-- the `TypeError` or `ValueError` of `json.dumps` -/
  | notJson
deriving DecidableEq, Repr

structure JSONResponse (ω : Type) where
  status : Int
  content : Value ω
  /-- the header `X-Request-Id` -/
  requestId : Str

/-- What a handler passes to `record`, if it gets there, and the response, or what is raised. -/
structure Handled (ω : Type) where
  recorded : Option (RecordArgs (Value ω))
  response : Except BuildError (JSONResponse ω)

/-- `_get_request_id`; `state` is what the middleware has left, `fresh` is `uuid.uuid4().hex`. -/
def getRequestId (state : Option Str) (fresh : Str) (r : Request) : Str :=
  ((orNone state).or (orNone (r.header hdrRequestId))).getD fresh

section Source

variable (c : Conversion ω) (strKey : ω → Option Str)

/-- A key of a `dict[str, Any]`. -/
def keyText : Key ω → Option Str
  | .str s => some s
  | .other o => strKey o
  | .none | .bool _ | .int _ | .float _ => none

def entryText (e : Key ω × Value ω) : Option (Str × Value ω) :=
  (keyText strKey e.1).map fun k => (k, e.2)

/-- `ErrorInfo(code=.., message=.., request_id=.., meta=..)` -/
def ErrorInfo.validate (code : Str) (message : Value ω) (requestId : Str)
    («meta» : Option (List (Key ω × Value ω))) : Except BuildError (ErrorInfo ω) :=
  match «meta» with
  | none => .ok { code := code, message := message, requestId := requestId, «meta» := none }
  | some items =>
    match items.mapM (entryText strKey) with
    | none => .error .invalid
    | some entries =>
      .ok { code := code, message := message, requestId := requestId
            «meta» := some (dictOf entries) }

/-- The fields of `ErrorResponse`. -/
def ErrorInfo.response (i : ErrorInfo ω) : List (Str × Value ω) :=
  [("error".toList, .model [("code".toList, .str i.code), ("message".toList, i.message),
    ("request_id".toList, .str i.requestId),
    ("meta".toList, (i.meta.map strDict).getD .none)])]

/-- `_build_error` -/
def buildError (code : Str) (message : Value ω) (requestId : Str)
    («meta» : Option (List (Key ω × Value ω))) : Except BuildError (Value ω) :=
  (ErrorInfo.validate strKey code message requestId «meta»).map fun i => c.modelDump i.response

/-- `JSONResponse(status_code=.., content=.., headers={HDR_REQUEST_ID: rid})` -/
def jsonResponse (status : Int) (rid : Str) (content : Value ω) :
    Except BuildError (JSONResponse ω) :=
  if dumpsOk content then .ok { status := status, content := content, requestId := rid }
  else .error .notJson

/-- A handler: `record(..)`, and then its response. -/
def recordThen (args : RecordArgs (Value ω)) (response : Except BuildError (JSONResponse ω)) :
    Handled ω where
  recorded := some args
  response :=
    if (c.stdMeta (args.meta.getD .none) args.errorCode).isSome then response
    else .error .notPrintable

def appErrorStatus (st : Int) : String :=
  if 500 ≤ st then "error" else if st = 401 ∨ st = 403 ∨ st = 429 then "deny" else "error"

def appErrorHandler (state : Option Str) (fresh : Str) (r : Request) (exc : AnyAppError ω) :
    Handled ω :=
  let rid := getRequestId state fresh r
  recordThen c
    { action := "http.app_error", status := appErrorStatus exc.httpStatus
      httpStatus := some exc.httpStatus
      «meta» := some (strDict [("path".toList, .str r.path), ("method".toList, .str r.method)])
      errorCode := some exc.code }
    (do
      let content ← buildError c strKey exc.code ((exc.message.map .str).getD .none) rid exc.meta
      jsonResponse exc.httpStatus rid content)

/-- `errors` is what `exc.errors()` returns. -/
def validationErrorHandler (state : Option Str) (fresh : Str) (r : Request)
    (errors : List (Value ω)) : Handled ω :=
  let rid := getRequestId state fresh r
  recordThen c
    { action := "http.validation_failed", status := "deny", httpStatus := some 422
      «meta» := some (strDict [("path".toList, .str r.path), ("method".toList, .str r.method),
        ("errors".toList, .list errors)])
      errorCode := some "error.validation_failed".toList }
    (do
      let content ← buildError c strKey "error.validation_failed".toList
        (.str (resolveMessage "error.validation_failed").toList) rid
        (some [(.str "errors".toList, .list errors)])
      jsonResponse 422 rid content)

/-- The handler has returned a response with this status, and its content is JSON. -/
def Handled.Answers (h : Handled ω) (status : Int) : Prop :=
  ∃ resp, h.response = .ok resp ∧ resp.status = status ∧ dumpsOk resp.content = true

end Source

/-! ## What can be answered -/

/-- As `jsonNode`, and an instance of a model or of a dataclass, whose fields are entries then. -/
def openNode : Value ω → Bool
  | .model _ | .dataclass _ => true
  | v => jsonNode v

/--
No unknown object, no set, no key of another kind, no infinite float and no integer with too many
digits, at any depth.
-/
def answerable (v : Value ω) : Bool := v.everywhere openNode

/-- Every key is a text, and of the entries with one text the last is answerable. -/
def metaAnswerable (strKey : ω → Option Str) : Option (List (Key ω × Value ω)) → Bool
  | none => true
  | some items =>
    items.all (fun e => (keyText strKey e.1).isSome) &&
      allLast (fun e => answerable e.2) (items.filterMap (entryText strKey))

/-- **What is left of a value** in the body. -/
theorem everywhere_toPython (v : Value ω) : dumpsOk (toPython v) = answerable v := by
  unfold dumpsOk toPython answerable
  induction v using Value.induct with
  | list xs ih =>
    rw [takeApart, takeApartItems_eq, Value.everywhere_list, Value.everywhere_list, List.all_map]
    exact congrArg (true && ·) (all_congr_mem ih)
  | tuple xs ih =>
    rw [takeApart, takeApartItems_eq, Value.everywhere_tuple, Value.everywhere_tuple, List.all_map]
    exact congrArg (true && ·) (all_congr_mem ih)
  | set xs ih => simp [takeApart, jsonNode, openNode]
  | dict items ih =>
    rw [takeApart, takeApartEntries_eq, Value.everywhere_dict, Value.everywhere_dict, List.all_map]
    have hkeys : jsonNode (.dict (items.map fun e => (e.1, takeApart true e.2)))
        = openNode (.dict items) := by
      simp [jsonNode, openNode, Function.comp_def]
    rw [hkeys]
    exact congrArg (_ && ·) (all_congr_mem ih)
  | model fields ih | dataclass fields ih =>
    have hkeys : jsonNode (.dict (fields.map fun f => (.str f.1, takeApart true f.2))) = true := by
      simp [jsonNode, bodyKey]
    simp only [takeApart, if_true, takeApartFields_eq, Value.everywhere_dict,
      Value.everywhere_model, Value.everywhere_dataclass, List.all_map]
    rw [hkeys]
    exact congrArg (true && ·) (all_congr_mem ih)
  | _ => simp [takeApart, Value.everywhere, openNode]

@[simp] theorem answerable_str (s : Str) : answerable (.str s : Value ω) = true := rfl

@[simp] theorem answerable_list (xs : List (Value ω)) :
    answerable (.list xs) = xs.all answerable := by
  rw [answerable, Value.everywhere_list]
  rfl

@[simp] theorem answerable_model (fields : List (Str × Value ω)) :
    answerable (.model fields) = fields.all fun f => answerable f.2 := by
  rw [answerable, Value.everywhere_model]
  rfl

theorem answerable_strDict (d : List (Str × Value ω)) :
    answerable (strDict d) = d.all fun e => answerable e.2 := by
  rw [strDict, answerable, Value.everywhere_dict, List.all_map]
  simp [openNode, jsonNode, bodyKey, Function.comp_def, answerable]

/-- What is in the body comes from the message and the metadata. -/
theorem answerable_response (i : ErrorInfo ω) :
    answerable (.model i.response)
      = (answerable i.message && (i.meta.map strDict).all answerable) := by
  have hmeta : answerable ((i.meta.map strDict).getD .none)
      = (i.meta.map strDict).all answerable := by
    cases i.meta with
    | none => rfl
    | some d => rfl
  rw [← hmeta]
  simp [ErrorInfo.response]

theorem validate_some (strKey : ω → Option Str) (code : Str) (message : Value ω) (requestId : Str)
    (items : List (Key ω × Value ω)) :
    ErrorInfo.validate strKey code message requestId (some items)
      = match items.mapM (entryText strKey) with
        | none => .error .invalid
        | some entries =>
          .ok { code := code, message := message, requestId := requestId
                «meta» := some (dictOf entries) } := rfl

theorem mapM_entryText (strKey : ω → Option Str) (items : List (Key ω × Value ω)) :
    items.mapM (entryText strKey)
      = if items.all (fun e => (keyText strKey e.1).isSome) then
          some (items.filterMap (entryText strKey))
        else none := by
  induction items with
  | nil => rfl
  | cons e items ih =>
    rw [List.mapM_cons, ih, List.all_cons, List.filterMap_cons]
    cases hk : keyText strKey e.1 with
    | none => simp [entryText, hk]
    | some k =>
      simp only [entryText, hk, Option.map_some, Option.isSome_some, Bool.true_and]
      split
      · rfl
      · rfl

/-- What is answerable can be recorded. -/
theorem converts_of_answerable (text : ω → Option Str) {v : Value ω} (h : answerable v = true) :
    converts text v = true := by
  unfold answerable at h
  induction v using Value.induct with
  | list xs ih | tuple xs ih | set xs ih =>
    simp only [Value.everywhere_list, Value.everywhere_tuple, Value.everywhere_set,
      Bool.and_eq_true, List.all_eq_true] at h
    rw [converts, convertsItems_eq, List.all_eq_true]
    exact fun x hx => ih x hx (h.2 x hx)
  | dict items ih =>
    rw [Value.everywhere_dict, Bool.and_eq_true, List.all_eq_true] at h
    obtain ⟨hkeys, hvals⟩ := h
    simp only [openNode, jsonNode, List.all_eq_true] at hkeys
    rw [converts, convertsEntries_eq, List.all_eq_true]
    intro e he
    rw [Bool.and_eq_true]
    refine ⟨?_, ih e he (hvals e he)⟩
    have hkey := hkeys e he
    cases hk : e.1 with
    | int n =>
      rw [hk, bodyKey] at hkey
      simp [Key.text?, hkey]
    | other o =>
      rw [hk] at hkey
      cases hkey
    | _ => rfl
  | other o => simp [Value.everywhere, openNode, jsonNode] at h
  | _ => simp [converts]

section Answers

variable {c : Conversion ω} {strKey : ω → Option Str}
  (hdump : ∀ fields, c.modelDump fields = toPython (.model fields))

include hdump

/-- A valid `ErrorInfo` makes a response exactly when it is answerable. -/
theorem jsonResponse_iff (st : Int) (rid : Str) (i : ErrorInfo ω) :
    (∃ resp, jsonResponse st rid (c.modelDump i.response) = .ok resp ∧ resp.status = st ∧
      dumpsOk resp.content = true) ↔
    (answerable i.message && (i.meta.map strDict).all answerable) = true := by
  rw [← answerable_response, ← everywhere_toPython, ← hdump, jsonResponse]
  by_cases hok : dumpsOk (c.modelDump i.response) = true
  · rw [if_pos hok]
    exact iff_of_true ⟨_, rfl, rfl, hok⟩ hok
  · rw [if_neg hok]
    refine iff_of_false ?_ hok
    rintro ⟨resp, heq, -⟩
    cases heq

/-- **Building a response** succeeds for an answerable message and answerable metadata. -/
theorem build_iff (code : Str) (message : Value ω) (st : Int) (rid : Str)
    («meta» : Option (List (Key ω × Value ω))) :
    (∃ resp, (buildError c strKey code message rid «meta» >>= jsonResponse st rid) = .ok resp ∧
      resp.status = st ∧ dumpsOk resp.content = true) ↔
    answerable message = true ∧ metaAnswerable strKey «meta» = true := by
  cases «meta» with
  | none =>
    refine (jsonResponse_iff hdump st rid
      { code := code, message := message, requestId := rid, «meta» := none }).trans ?_
    simp [metaAnswerable]
  | some items =>
    rw [buildError, validate_some, metaAnswerable, mapM_entryText]
    cases items.all (fun e => (keyText strKey e.1).isSome) with
    | false =>
      refine iff_of_false ?_ (by simp)
      rintro ⟨resp, heq, -⟩
      cases heq
    | true =>
      rw [if_pos rfl, Bool.true_and]
      refine (jsonResponse_iff hdump st rid
        { code := code, message := message, requestId := rid
          «meta» := some (dictOf (items.filterMap (entryText strKey))) }).trans ?_
      rw [Bool.and_eq_true, Option.map_some, Option.all_some, answerable_strDict, all_dictOf]

/-- **A handler answers** where it can record, and build its response. -/
theorem recordThen_iff (args : RecordArgs (Value ω)) (code : Str) (message : Value ω) (st : Int)
    (rid : Str) («meta» : Option (List (Key ω × Value ω))) :
    (recordThen c args (buildError c strKey code message rid «meta» >>= jsonResponse st rid)).Answers
        st ↔
      converts c.text (args.meta.getD .none) = true ∧ answerable message = true ∧
        metaAnswerable strKey «meta» = true := by
  rw [← build_iff hdump code message st rid «meta»]
  unfold Handled.Answers recordThen
  dsimp only
  rw [isSome_stdMeta]
  cases converts c.text (args.meta.getD .none) with
  | true => simp
  | false => simp

variable (state : Option Str) (fresh : Str) (r : Request)

theorem validationErrorHandler_iff (errors : List (Value ω)) :
    (validationErrorHandler c strKey state fresh r errors).Answers 422 ↔
      ∀ x ∈ errors, answerable x = true := by
  refine (recordThen_iff hdump _ _ _ 422 _ _).trans ?_
  have hrecords : (∀ x ∈ errors, answerable x = true) → ∀ x ∈ errors, converts c.text x = true :=
    fun h x hx => converts_of_answerable c.text (h x hx)
  simpa [metaAnswerable, keyText, entryText, allLast, strDict, converts, convertsEntries, Key.text?,
    convertsItems_eq] using hrecords

theorem appErrorHandler_iff (exc : AnyAppError ω) :
    (appErrorHandler c strKey state fresh r exc).Answers exc.httpStatus ↔
      metaAnswerable strKey exc.meta = true := by
  refine (recordThen_iff hdump _ _ _ exc.httpStatus _ _).trans ?_
  have hmessage : answerable ((exc.message.map .str).getD .none : Value ω) = true := by
    cases exc.message with
    | none => rfl
    | some message => rfl
  simp [hmessage, strDict, converts, convertsEntries, Key.text?]

end Answers

/-! ## The errors of the handlers -/

/-- What handlers write into the metadata of an error. -/
def handlerMeta : MetaVal → Bool
  | .int n => printableInt n
  | .json _ => false
  | _ => true

def ofAppError (e : AppError) : AnyAppError ω where
  code := e.code.toList
  httpStatus := e.httpStatus
  message := some e.message.toList
  «meta» := e.meta.map fun m => m.map fun x => (.str x.1.toList, metaValue x.2)

theorem answerable_metaValue {v : MetaVal} (h : handlerMeta v = true) :
    answerable (metaValue v : Value ω) = true := by
  cases v with
  | strs ss => simp [metaValue]
  | json text => cases h
  | int n => exact h
  | _ => rfl

/-- **The errors that handlers build themselves** are answered, with their status. -/
theorem appError_answered {c : Conversion ω} {strKey : ω → Option Str}
    (hdump : ∀ fields, c.modelDump fields = toPython (.model fields)) (state : Option Str)
    (fresh : Str) (r : Request) {e : AppError} (h : ∀ x ∈ e.meta.getD [], handlerMeta x.2 = true) :
    (appErrorHandler c strKey state fresh r (ofAppError e)).Answers e.httpStatus := by
  refine (appErrorHandler_iff hdump state fresh r (ofAppError e)).mpr ?_
  cases hmeta : e.meta with
  | none => simp [ofAppError, hmeta, metaAnswerable]
  | some m =>
    simp only [ofAppError, hmeta, Option.map_some, metaAnswerable, Bool.and_eq_true]
    constructor
    · simp [keyText]
    · rw [allLast_eq_true_iff]
      intro a x b hx _
      have hmem : x ∈ a ++ x :: b := List.mem_append_right _ List.mem_cons_self
      rw [← hx] at hmem
      obtain ⟨y, hy, hxy⟩ := List.mem_filterMap.mp hmem
      obtain ⟨z, hz, rfl⟩ := List.mem_map.mp hy
      cases hxy
      exact answerable_metaValue (h z (by rw [hmeta]; exact hz))

/-! ## What is recorded -/

/-- No instance, and nothing that cannot be printed. -/
def recordable (text : ω → Option Str) : Value ω → Bool
  | .model _ | .dataclass _ => false
  | .int n => printableInt n
  | .other o => (text o).isSome
  | .dict items => items.all fun e => (e.1.text? text).isSome
  | _ => true

/-- `_to_obj` converts everything but the fields of instances. -/
theorem objOk_of_recordable {text : ω → Option Str} {v : Value ω}
    (h : v.everywhere (recordable text) = true) :
    converts text v = true ∧ objOk jsonKey text v = true := by
  induction v using Value.induct with
  | list xs ih | tuple xs ih | set xs ih =>
    simp only [Value.everywhere_list, Value.everywhere_tuple, Value.everywhere_set,
      Bool.and_eq_true, List.all_eq_true] at h
    rw [converts, convertsItems_eq, objOk, objOkItems_eq, List.all_eq_true, List.all_eq_true]
    exact ⟨fun x hx => (ih x hx (h.2 x hx)).1, fun x hx => (ih x hx (h.2 x hx)).2⟩
  | dict items ih =>
    rw [Value.everywhere_dict, Bool.and_eq_true, List.all_eq_true] at h
    obtain ⟨hkeys, hvals⟩ := h
    rw [recordable, List.all_eq_true] at hkeys
    rw [converts, convertsEntries_eq, objOk, List.all_eq_true]
    refine ⟨fun e he => ?_, ?_⟩
    · rw [Bool.and_eq_true]
      exact ⟨hkeys e he, (ih e he (hvals e he)).1⟩
    · have hall : ∀ e ∈ items, objOk jsonKey text e.2 = true := fun e he =>
        (ih e he (hvals e he)).2
      clear hkeys hvals ih
      induction items with
      | nil => rfl
      | cons e items ihitems =>
        obtain ⟨he, hitems⟩ := List.forall_mem_cons.mp hall
        simp [objOkEntries, he, ihitems hitems]
  | model fields _ => simp [recordable] at h
  | dataclass fields _ => simp [recordable] at h
  | int n => exact ⟨rfl, h⟩
  | other o => exact ⟨h, rfl⟩
  | _ => exact ⟨rfl, rfl⟩

/--
**The record of a rejection** can be stored, whatever raw input and exceptions are among the errors
that can be printed.
-/
theorem validation_recorded {c : Conversion ω} {strKey : ω → Option Str}
    (hdump : ∀ fields, c.modelDump fields = toPython (.model fields)) (state : Option Str)
    (fresh : Str) (r : Request) {errors : List (Value ω)}
    (h : ∀ x ∈ errors, x.everywhere (recordable c.text) = true) :
    ∃ evt, (validationErrorHandler c strKey state fresh r errors).recorded.bind
      (buildEvent c .cleared) = some evt ∧ storable jsonKey evt.meta = true := by
  have herrors : (Value.list errors).everywhere (recordable c.text) = true := by
    rw [Value.everywhere_list, Bool.and_eq_true, List.all_eq_true]
    exact ⟨rfl, h⟩
  have hmeta : Value.everywhere (recordable c.text) (strDict [("path".toList, .str r.path),
      ("method".toList, .str r.method), ("errors".toList, .list errors)]) = true := by
    rw [strDict, Value.everywhere_dict]
    simpa [recordable, Value.everywhere, Key.text?] using herrors
  obtain ⟨hconverts, hok⟩ := objOk_of_recordable hmeta
  obtain ⟨m, hm, hstored⟩ := stdMeta_storable c hdump hconverts hok
    (some "error.validation_failed".toList)
  exact ⟨_, congrArg (Option.map _) hm, hstored⟩

/-! ## Which errors are answered -/

/-- A login that is not sent as JSON. -/
def plainLogin : Request :=
  { method := "POST".toList, path := "/auth/login".toList
    headers := [("content-type".toList, "text/plain".toList)], query := [], client := none }

/-- The only object is the `bytes` of the body. -/
def bodyConversion : Conversion Unit where
  words := asciiWords
  text _ := some "b'hello'".toList
  modelDump fields := toPython (.model fields)

/-- The error of a body that is no JSON: its input is the `bytes`. -/
def bodyError : Value Unit :=
  .dict [(.str "type".toList, .str "model_attributes_type".toList),
    (.str "loc".toList, .tuple [.str "body".toList]),
    (.str "msg".toList,
      .str "Input should be a valid dictionary or object to extract fields from".toList),
    (.str "input".toList, .other ())]

end EnterpriseAssistant.Api
