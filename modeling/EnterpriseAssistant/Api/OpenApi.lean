import EnterpriseAssistant.Lib.SharedObjects
import EnterpriseAssistant.Api.Request

/-!
# The documentation of the routes

`custom_openapi` of `app/api/openapi.py`.  The schema that the library generates is a tree; the
responses of `common_error_responses` are one object each, which every operation holds that does not
document this status itself.  So they are held by their status here, and are in the state of the
loops.

* `document_document` — what is documented twice
* `documented_response` — every response of every operation
-/

namespace EnterpriseAssistant.Api.OpenApi

open Py SharedObjects

/-- A JSON value; what is no object is kept as its text. -/
inductive Json where
  | obj (fields : List (Str × Json))
  | other (text : Str)

abbrev Fields := List (Str × Json)

def Json.str (s : String) : Json := .other ('"' :: (s.toList ++ ['"']))

/-- `d.get(k)`, where that is a `dict`. -/
def objAt (k : Str) (fields : Fields) : Option Fields :=
  match fields.lookup k with
  | some (.obj inner) => some inner
  | _ => none

/-! ## Headers -/

/-- An entry of the header tables. -/
def headerDoc (description : String) (schema : Fields) : Json :=
  .obj [("description".toList, .str description), ("schema".toList, .obj schema)]

/-- The names of the headers. -/
structure HeaderNames where
  requestId : Str
  responseTimeMs : Str
  cacheControl : Str

variable (names : HeaderNames)

/-- `_COMMON_RESPONSE_HEADERS` -/
def commonResponseHeaders : Fields :=
  [(names.requestId, headerDoc "Request correlation id" [("type".toList, .str "string")]),
    (names.responseTimeMs, headerDoc "Server processing time in milliseconds"
      [("type".toList, .str "string")])]

/-- `_NO_STORE_HEADER` -/
def noStoreHeader : Fields :=
  [(names.cacheControl, headerDoc "Sensitive response, do not store"
    [("type".toList, .str "string"), ("example".toList, .str "no-store")])]

/-- What is set by default in the headers of a response. -/
def defaultHeaders (noStore : Bool) : Fields :=
  commonResponseHeaders names ++ if noStore then noStoreHeader names else []

/-- The body of the loop over `responses.items()`. -/
def document (noStore : Bool) : Json → Json
  | .obj fields =>
    let hdrs := (objAt "headers".toList fields).getD []
    .obj (assign "headers".toList (.obj (setAll (defaultHeaders names noStore) hdrs)) fields)
  | v => v

/-! ## The error responses -/

/-- `_err_resp` -/
def errResp (desc : String) : Json :=
  .obj [("description".toList, .str desc),
    ("content".toList, .obj [("application/json".toList, .obj
      [("schema".toList, .obj [("$ref".toList, .str "#/components/schemas/ErrorResponse")])])])]

/-- `common_error_responses` -/
def commonErrorResponses : Fields :=
  [("400".toList, errResp "Bad Request"), ("401".toList, errResp "Unauthorized"),
    ("403".toList, errResp "Forbidden"), ("404".toList, errResp "Not Found"),
    ("409".toList, errResp "Conflict"), ("422".toList, errResp "Validation Failed"),
    ("429".toList, errResp "Rate Limited"), ("500".toList, errResp "Internal Error")]

def errorInfoSchema : Json :=
  .obj [("title".toList, .str "ErrorInfo"), ("type".toList, .str "object"),
    ("properties".toList, .obj
      [("code".toList, .obj [("type".toList, .str "string")]), ("message".toList, .obj []),
        ("request_id".toList, .obj [("type".toList, .str "string")]),
        ("meta".toList, .obj [("type".toList, .str "object"),
          ("additionalProperties".toList, .other "true".toList)])]),
    ("required".toList, .other "[\"code\", \"message\", \"request_id\"]".toList)]

def errorResponseSchema : Json :=
  .obj [("title".toList, .str "ErrorResponse"), ("type".toList, .str "object"),
    ("properties".toList, .obj
      [("error".toList, .obj [("$ref".toList, .str "#/components/schemas/ErrorInfo")])]),
    ("required".toList, .other "[\"error\"]".toList)]

/-- `_ensure_error_response_schema`; `none` where these are no objects, which is never generated. -/
def ensureErrorResponseSchema (schema : Fields) : Option Fields :=
  match (schema.lookup "components".toList).getD (.obj []) with
  | .obj comps =>
    match (comps.lookup "schemas".toList).getD (.obj []) with
    | .obj schemas =>
      let schemas :=
        if (schemas.lookup "ErrorResponse".toList).isSome then schemas
        else assign "ErrorResponse".toList errorResponseSchema
          (assign "ErrorInfo".toList errorInfoSchema schemas)
      some (assign "components".toList
        (.obj (assign "schemas".toList (.obj schemas) comps)) schema)
    | _ => none
  | _ => none

/-! ## The loops -/

/-- An entry of `responses`: an object of its own, or the one for a status. -/
inductive Slot where
  | own (response : Json)
  | common (status : Str)

/-- An operation: its entries, but for the responses. -/
structure Operation where
  fields : Fields
  responses : List (Str × Slot)

inductive Entry where
  | operation (op : Operation)
  | other (v : Json)

inductive PathItem where
  | item (entries : List (Str × Entry))
  | other (v : Json)

/-- `_merge_responses(responses, common_error_responses)` -/
def mergeResponses (responses : Fields) : List (Str × Slot) :=
  setAll (commonErrorResponses.map fun e => (e.1, .common e.1))
    (responses.map fun e => (e.1, .own e.2))

/-- One response; the object for a status is changed where it is. -/
def visitResponse (noStore : Bool) : Str × Slot → Fields → (Str × Slot) × Fields
  | (status, .own response), common => ((status, .own (document names noStore response)), common)
  | (status, .common c), common => ((status, .common c), update c (document names noStore) common)

def visitOperation (noStore : Bool) (op : Fields) (common : Fields) : Operation × Fields :=
  let r := loop (visitResponse names noStore)
    (mergeResponses ((objAt "responses".toList op).getD [])) common
  ({ fields := op, responses := r.1 }, r.2)

def visitEntry (noStore : Bool) : Str × Json → Fields → (Str × Entry) × Fields
  | (method, .obj op), common =>
    let r := visitOperation names noStore op common
    ((method, .operation r.1), r.2)
  | (method, v), common => ((method, .other v), common)

def visitPath (noStorePaths : List Str) : Str × Json → Fields → (Str × PathItem) × Fields
  | (path, .obj item), common =>
    let r := loop (visitEntry names (noStorePaths.contains path)) item common
    ((path, .item r.1), r.2)
  | (path, v), common => ((path, .other v), common)

/-! ## The document -/

/-- What stands in a slot, with the objects as they are now. -/
def Slot.read (common : Fields) : Slot → Json
  | .own response => response
  | .common status => (common.lookup status).getD (.obj [])

def Entry.read (common : Fields) : Entry → Json
  | .operation op =>
    .obj (assign "responses".toList (.obj (op.responses.map fun e => (e.1, e.2.read common)))
      op.fields)
  | .other v => v

def PathItem.read (common : Fields) : PathItem → Json
  | .item entries => .obj (entries.map fun e => (e.1, e.2.read common))
  | .other v => v

/-- `custom_openapi`, from what `get_openapi` has generated. -/
def customOpenapi (noStorePaths : List Str) (generated : Fields) : Option Fields :=
  (ensureErrorResponseSchema generated).map fun schema =>
    match objAt "paths".toList schema with
    | none => schema
    | some paths =>
      let r := loop (visitPath names noStorePaths) paths commonErrorResponses
      assign "paths".toList (.obj (r.1.map fun e => (e.1, e.2.read r.2))) schema

/-! ## Documenting twice -/

@[simp] theorem objAt_assign_self (k : Str) (inner fields : Fields) :
    objAt k (assign k (.obj inner) fields) = some inner := by
  simp [objAt, lookup_assign]

theorem objAt_assign_of_ne {k k' : Str} (h : k ≠ k') (v : Json) (fields : Fields) :
    objAt k (assign k' v fields) = objAt k fields := by
  simp [objAt, lookup_assign, h]

/-- What the operations of both kinds set adds up. -/
theorem setAll_defaultHeaders (b b' : Bool) (hdrs : Fields) :
    setAll (defaultHeaders names b) (setAll (defaultHeaders names b') hdrs)
      = setAll (defaultHeaders names (b' || b)) hdrs := by
  cases b' with
  | true =>
    refine setAll_of_subset fun e he => mem_keys_setAll.mpr (Or.inl (List.mem_map_of_mem ?_))
    rcases List.mem_append.mp he with hcommon | hstore
    · exact List.mem_append_left _ hcommon
    · cases b with
      | true => exact List.mem_append_right _ hstore
      | false => cases hstore
  | false =>
    have hplain : defaultHeaders names false = commonResponseHeaders names := List.append_nil _
    rw [hplain, Bool.false_or, defaultHeaders, setAll_append, setAll_setAll, ← setAll_append]

/-- A response that two operations share is documented once, for both. -/
theorem document_document (b b' : Bool) (v : Json) :
    document names b (document names b' v) = document names (b' || b) v := by
  cases v with
  | obj fields =>
    simp only [document, objAt_assign_self, Option.getD_some, setAll_defaultHeaders, assign_assign]
  | other text => rfl

/-! ## What the loops leave -/

def Slot.documented (noStore : Bool) : Slot → Slot
  | .own response => .own (document names noStore response)
  | .common status => .common status

/-- The updates of the common objects that a loop makes, by their status. -/
def slotUpdates (noStore : Bool) (e : Str × Slot) : List (Str × Bool) :=
  match e.2 with
  | .own _ => []
  | .common status => [(status, noStore)]

/-- The responses that an operation has in the generated schema. -/
def responsesOf (op : Fields) : Fields := (objAt "responses".toList op).getD []

def entryUpdates (noStore : Bool) (e : Str × Json) : List (Str × Bool) :=
  match e.2 with
  | .obj op => (mergeResponses (responsesOf op)).flatMap (slotUpdates noStore)
  | .other _ => []

def pathUpdates (noStorePaths : List Str) (e : Str × Json) : List (Str × Bool) :=
  match e.2 with
  | .obj item => item.flatMap (entryUpdates (noStorePaths.contains e.1))
  | .other _ => []

theorem entryUpdates_obj (noStore : Bool) (method : Str) (op : Fields) :
    entryUpdates noStore (method, .obj op)
      = (mergeResponses (responsesOf op)).flatMap (slotUpdates noStore) := rfl

theorem pathUpdates_obj (noStorePaths : List Str) (path : Str) (item : Fields) :
    pathUpdates noStorePaths (path, .obj item)
      = item.flatMap (entryUpdates (noStorePaths.contains path)) := rfl

/-- The common responses at the end. -/
def finalCommon (noStorePaths : List Str) (paths : Fields) : Fields :=
  updateAll (document names) (paths.flatMap (pathUpdates noStorePaths)) commonErrorResponses

theorem visitResponse_eq (noStore : Bool) (e : Str × Slot) (common : Fields) :
    visitResponse names noStore e common
      = ((e.1, e.2.documented names noStore),
          updateAll (document names) (slotUpdates noStore e) common) := by
  obtain ⟨status, slot⟩ := e
  cases slot with
  | own response => rfl
  | common c => rfl

/-- The operation of the document. -/
def operationOf (noStore : Bool) (op : Fields) : Operation where
  fields := op
  responses := (mergeResponses (responsesOf op)).map fun e => (e.1, e.2.documented names noStore)

def entryOf (noStore : Bool) : Json → Entry
  | .obj op => .operation (operationOf names noStore op)
  | .other text => .other (.other text)

def pathItemOf (noStore : Bool) : Json → PathItem
  | .obj item => .item (item.map fun e => (e.1, entryOf names noStore e.2))
  | .other text => .other (.other text)

theorem visitEntry_eq (noStore : Bool) (e : Str × Json) (common : Fields) :
    visitEntry names noStore e common
      = ((e.1, entryOf names noStore e.2),
          updateAll (document names) (entryUpdates noStore e) common) := by
  obtain ⟨method, v⟩ := e
  cases v with
  | other text => rfl
  | obj op =>
    simp only [visitEntry, visitOperation, loop_eq (visitResponse_eq names noStore),
      foldl_updateAll]
    rfl

theorem visitPath_eq (noStorePaths : List Str) (e : Str × Json) (common : Fields) :
    visitPath names noStorePaths e common
      = ((e.1, pathItemOf names (noStorePaths.contains e.1) e.2),
          updateAll (document names) (pathUpdates noStorePaths e) common) := by
  obtain ⟨path, v⟩ := e
  cases v with
  | other text => rfl
  | obj item =>
    simp only [visitPath, loop_eq (visitEntry_eq names _), foldl_updateAll]
    rfl

/-- The document, all loops done. -/
theorem customOpenapi_eq (noStorePaths : List Str) {generated schema paths : Fields}
    (hschema : ensureErrorResponseSchema generated = some schema)
    (hpaths : objAt "paths".toList schema = some paths) :
    customOpenapi names noStorePaths generated = some (assign "paths".toList
      (.obj (paths.map fun e => (e.1, (pathItemOf names (noStorePaths.contains e.1) e.2).read
        (finalCommon names noStorePaths paths)))) schema) := by
  simp only [customOpenapi, hschema, Option.map_some, hpaths, loop_eq (visitPath_eq names _),
    foldl_updateAll, List.map_map]
  rfl

/-! ## The common responses at the end -/

/-- Some operation at one of these paths does not document this status itself. -/
def sharesNoStore (noStorePaths : List Str) (paths : Fields) (status : Str) : Bool :=
  paths.any fun e => noStorePaths.contains e.1 && match e.2 with
    | .other _ => false
    | .obj item => item.any fun e => match e.2 with
      | .other _ => false
      | .obj op => !((responsesOf op).map Prod.fst).contains status

theorem keys_commonErrorResponses {status : Str} {slot : Slot} {l : Fields} :
    (status, slot) ∈ l.map (fun e => (e.1, Slot.common e.1)) ↔
      slot = .common status ∧ status ∈ l.map Prod.fst := by
  simp only [List.mem_map, Prod.mk.injEq]
  constructor
  · rintro ⟨e, he, rfl, rfl⟩
    exact ⟨rfl, e, he, rfl⟩
  · rintro ⟨rfl, e, he, rfl⟩
    exact ⟨e, he, rfl, rfl⟩

/-- What an operation holds under a status. -/
theorem lookup_mergeResponses (responses : Fields) (status : Str) :
    (mergeResponses responses).lookup status = ((responses.lookup status).map Slot.own).or
      (if status ∈ commonErrorResponses.map Prod.fst then some (.common status) else none) := by
  have hcommon : (commonErrorResponses.map fun e => (e.1, Slot.common e.1)).lookup status
      = if status ∈ commonErrorResponses.map Prod.fst then some (.common status) else none := by
    rw [lookup_map fun k _ => Slot.common k]
    split
    next hmem =>
      obtain ⟨v, hv⟩ := Option.ne_none_iff_exists'.mp fun hnone =>
        lookup_eq_none_iff.mp hnone hmem
      rw [hv, Option.map_some]
    next hnot => rw [lookup_eq_none_iff.mpr hnot, Option.map_none]
  rw [mergeResponses, lookup_setAll, hcommon, lookup_map fun _ v => Slot.own v]

/-- What an operation changes: the common responses that it holds, each in its own way. -/
theorem mem_operationUpdates_iff {noStore b : Bool} {op : Fields} {status : Str} :
    (status, b) ∈ (mergeResponses (responsesOf op)).flatMap (slotUpdates noStore) ↔
      b = noStore ∧ status ∈ commonErrorResponses.map Prod.fst ∧
        status ∉ (responsesOf op).map Prod.fst := by
  have hnodup :
      ((commonErrorResponses.map fun e => (e.1, Slot.common e.1)).map Prod.fst).Nodup := by
    rw [List.map_map]
    decide
  have hkeys : (((responsesOf op).map fun e => (e.1, Slot.own e.2)).map Prod.fst)
      = (responsesOf op).map Prod.fst := by
    rw [List.map_map]
    rfl
  simp only [List.mem_flatMap, mergeResponses, mem_setAll_iff hnodup, hkeys]
  constructor
  · rintro ⟨⟨k, slot⟩, hmem | ⟨hmem, hnot⟩, hupdate⟩
    · obtain ⟨e, -, heq⟩ := List.mem_map.mp hmem
      cases heq
      cases hupdate
    · obtain ⟨rfl, hcommon⟩ := keys_commonErrorResponses.mp hmem
      obtain ⟨rfl, rfl⟩ : status = k ∧ b = noStore := by simpa [slotUpdates] using hupdate
      exact ⟨rfl, hcommon, hnot⟩
  · rintro ⟨rfl, hcommon, hnot⟩
    exact ⟨(status, .common status), Or.inr ⟨keys_commonErrorResponses.mpr ⟨rfl, hcommon⟩, hnot⟩,
      List.mem_singleton_self _⟩

/-- The operations of the schema, with whether they are at one of these paths. -/
theorem mem_updates_iff {noStorePaths : List Str} {paths : Fields} {status : Str} {b : Bool} :
    (status, b) ∈ paths.flatMap (pathUpdates noStorePaths) ↔
      status ∈ commonErrorResponses.map Prod.fst ∧ ∃ path item method op,
        (path, Json.obj item) ∈ paths ∧ (method, Json.obj op) ∈ item ∧
          noStorePaths.contains path = b ∧ status ∉ (responsesOf op).map Prod.fst := by
  constructor
  · intro h
    obtain ⟨⟨path, v⟩, hpath, hmem⟩ := List.mem_flatMap.mp h
    cases v with
    | other text => cases hmem
    | obj item =>
      rw [pathUpdates_obj] at hmem
      obtain ⟨⟨method, w⟩, hmethod, hmem⟩ := List.mem_flatMap.mp hmem
      cases w with
      | other text => cases hmem
      | obj op =>
        rw [entryUpdates_obj, mem_operationUpdates_iff] at hmem
        obtain ⟨rfl, hcommon, hnot⟩ := hmem
        exact ⟨hcommon, path, item, method, op, hpath, hmethod, rfl, hnot⟩
  · rintro ⟨hcommon, path, item, method, op, hpath, hmethod, rfl, hnot⟩
    refine List.mem_flatMap.mpr ⟨_, hpath, ?_⟩
    rw [pathUpdates_obj]
    refine List.mem_flatMap.mpr ⟨_, hmethod, ?_⟩
    rw [entryUpdates_obj, mem_operationUpdates_iff]
    exact ⟨rfl, hcommon, hnot⟩

theorem sharesNoStore_eq_true_iff {noStorePaths : List Str} {paths : Fields} {status : Str} :
    sharesNoStore noStorePaths paths status = true ↔ ∃ path item method op,
      (path, Json.obj item) ∈ paths ∧ (method, Json.obj op) ∈ item ∧
        noStorePaths.contains path = true ∧ status ∉ (responsesOf op).map Prod.fst := by
  simp only [sharesNoStore, List.any_eq_true, Bool.and_eq_true]
  constructor
  · rintro ⟨⟨path, v⟩, hpath, hcontains, hv⟩
    cases v with
    | other text => cases hv
    | obj item =>
      obtain ⟨⟨method, w⟩, hmethod, hw⟩ := List.any_eq_true.mp hv
      cases w with
      | other text => cases hw
      | obj op =>
        refine ⟨path, item, method, op, hpath, hmethod, hcontains, fun hmem => ?_⟩
        have hfree : (!((responsesOf op).map Prod.fst).contains status) = true := hw
        rw [List.contains_iff_mem.mpr hmem] at hfree
        cases hfree
  · rintro ⟨path, item, method, op, hpath, hmethod, hcontains, hnot⟩
    refine ⟨_, hpath, hcontains, List.any_eq_true.mpr ⟨_, hmethod, ?_⟩⟩
    show (!((responsesOf op).map Prod.fst).contains status) = true
    rw [Bool.not_eq_true', Bool.eq_false_iff]
    exact fun hmem => hnot (List.contains_iff_mem.mp hmem)

/-- A common response that some operation holds is documented for all that hold it. -/
theorem lookup_finalCommon {noStorePaths : List Str} {paths : Fields} {status path method : Str}
    {item op : Fields} (hpath : (path, Json.obj item) ∈ paths)
    (hmethod : (method, Json.obj op) ∈ item) (hnot : status ∉ (responsesOf op).map Prod.fst) :
    (finalCommon names noStorePaths paths).lookup status
      = (commonErrorResponses.lookup status).map
          (document names (sharesNoStore noStorePaths paths status)) := by
  rw [finalCommon, lookup_updateAll]
  by_cases hcommon : status ∈ commonErrorResponses.map Prod.fst
  swap
  · rw [lookup_eq_none_iff.mpr hcommon, Option.map_none, Option.map_none]
  have hheld : noStorePaths.contains path
      ∈ updatesOf status (paths.flatMap (pathUpdates noStorePaths)) :=
    mem_updatesOf.mpr (mem_updates_iff.mpr
      ⟨hcommon, path, item, method, op, hpath, hmethod, rfl, hnot⟩)
  -- the first operation documents the object, and each later one adds to what is told of it
  have hshared : ∀ b bs, updatesOf status (paths.flatMap (pathUpdates noStorePaths)) = b :: bs →
      bs.foldl (fun b b' => b || b') b = sharesNoStore noStorePaths paths status := by
    intro b bs heq
    rw [Bool.eq_iff_iff, foldl_or_eq_true_iff, ← heq, mem_updatesOf, mem_updates_iff,
      sharesNoStore_eq_true_iff, and_iff_right hcommon]
  congr 1
  funext v
  cases hupdates : updatesOf status (paths.flatMap (pathUpdates noStorePaths)) with
  | nil =>
    rw [hupdates] at hheld
    cases hheld
  | cons b bs =>
    rw [← hshared b bs hupdates]
    exact foldl_act (fun i j v => document_document names i j v) b bs v

/-! ## The document -/

/-- `schema["paths"][path][method]`, where it is an operation. -/
def operationAt (schema : Fields) (path method : Str) : Option Fields :=
  (objAt "paths".toList schema).bind fun paths => (objAt path paths).bind (objAt method)

theorem objAt_eq_some_iff {k : Str} {fields inner : Fields} :
    objAt k fields = some inner ↔ fields.lookup k = some (.obj inner) := by
  unfold objAt
  split
  next inner' heq => rw [heq, Option.some.injEq, Option.some.injEq, Json.obj.injEq]
  next hnot =>
    refine iff_of_false (by simp) fun heq => ?_
    exact hnot inner heq

/-- A loop over the entries of an object that leaves its keys and what is no object. -/
theorem objAt_map {f : Str → Json → Json} {g : Str → Fields → Fields}
    (hobj : ∀ k inner, f k (.obj inner) = .obj (g k inner))
    (hother : ∀ k text, f k (.other text) = .other text) (fields : Fields) (k : Str) :
    objAt k (fields.map fun e => (e.1, f e.1 e.2)) = (objAt k fields).map (g k) := by
  unfold objAt
  rw [lookup_map f]
  cases hv : fields.lookup k with
  | none => rfl
  | some v =>
    cases v with
    | obj inner => simp only [Option.map_some, hobj]
    | other text => simp only [Option.map_some, Option.map_none, hother]

/-- An operation in the document. -/
def documentedOperation (common : Fields) (noStore : Bool) (op : Fields) : Fields :=
  assign "responses".toList (.obj ((mergeResponses (responsesOf op)).map fun e =>
    (e.1, (e.2.documented names noStore).read common))) op

theorem read_entryOf (common : Fields) (noStore : Bool) (op : Fields) :
    (entryOf names noStore (.obj op)).read common
      = .obj (documentedOperation names common noStore op) := by
  simp only [entryOf, Entry.read, operationOf, documentedOperation, List.map_map]
  rfl

theorem read_pathItemOf (common : Fields) (noStore : Bool) (item : Fields) :
    (pathItemOf names noStore (.obj item)).read common
      = .obj (item.map fun e => (e.1, (entryOf names noStore e.2).read common)) := by
  simp only [pathItemOf, PathItem.read, List.map_map]
  rfl

theorem operationAt_customOpenapi (noStorePaths : List Str) {schema paths : Fields}
    (hpaths : objAt "paths".toList schema = some paths) (common : Fields) (path method : Str) :
    operationAt (assign "paths".toList (.obj (paths.map fun e =>
        (e.1, (pathItemOf names (noStorePaths.contains e.1) e.2).read common))) schema) path method
      = (operationAt schema path method).map
          (documentedOperation names common (noStorePaths.contains path)) := by
  have hitem := objAt_map (f := fun k v =>
      (pathItemOf names (noStorePaths.contains k) v).read common)
    (fun k => read_pathItemOf names common (noStorePaths.contains k)) (fun _ _ => rfl) paths path
  have hmethod := fun item => objAt_map (f := fun _ v =>
      (entryOf names (noStorePaths.contains path) v).read common)
    (fun _ => read_entryOf names common (noStorePaths.contains path)) (fun _ _ => rfl) item method
  simp only [operationAt, objAt_assign_self, hpaths, Option.bind_some]
  rw [hitem]
  cases objAt path paths with
  | none => rfl
  | some item => exact hmethod item

theorem objAt_paths_ensure {generated schema : Fields}
    (h : ensureErrorResponseSchema generated = some schema) :
    objAt "paths".toList schema = objAt "paths".toList generated := by
  unfold ensureErrorResponseSchema at h
  split at h
  · split at h
    · cases h
      exact objAt_assign_of_ne (by decide) _ _
    · cases h
  · cases h

/-- What a request may be told of, operation by operation. -/
theorem lookup_documentedOperation {noStorePaths : List Str} {paths item op : Fields}
    {path method : Str} (hpath : (path, Json.obj item) ∈ paths)
    (hmethod : (method, Json.obj op) ∈ item) (noStore : Bool) (status : Str) :
    (responsesOf (documentedOperation names (finalCommon names noStorePaths paths) noStore op)).lookup
        status
      = match (responsesOf op).lookup status with
        | some response => some (document names noStore response)
        | none => (commonErrorResponses.lookup status).map
            (document names (sharesNoStore noStorePaths paths status)) := by
  have hslots : responsesOf (documentedOperation names (finalCommon names noStorePaths paths)
      noStore op) = (mergeResponses (responsesOf op)).map fun e =>
        (e.1, (e.2.documented names noStore).read (finalCommon names noStorePaths paths)) := by
    rw [responsesOf, documentedOperation, objAt_assign_self, Option.getD_some]
  rw [hslots, lookup_map fun _ slot => (Slot.documented names noStore slot).read
    (finalCommon names noStorePaths paths), lookup_mergeResponses]
  cases hown : (responsesOf op).lookup status with
  | some response => rfl
  | none =>
    have hfinal : (finalCommon names noStorePaths paths).lookup status = _ :=
      lookup_finalCommon names hpath hmethod (lookup_eq_none_iff.mp hown)
    by_cases hcommon : status ∈ commonErrorResponses.map Prod.fst
    · obtain ⟨response, hresponse⟩ := Option.ne_none_iff_exists'.mp fun hnone =>
        lookup_eq_none_iff.mp hnone hcommon
      rw [hresponse, Option.map_some] at hfinal
      simp only [Option.map_none, Option.none_or, hcommon, if_true, Option.map_some, hresponse,
        Slot.documented, Slot.read, hfinal, Option.getD_some]
    · simp only [Option.map_none, Option.none_or, hcommon, if_false,
        lookup_eq_none_iff.mpr hcommon]

/--
**Every response of every operation**, as it is documented.

A response that the operation has documented itself gets the headers of its path.  One of the common
responses gets what any operation gives it that shares it: where a path of `NO_STORE_PATHS` leaves
this status to them, `no-store` is told of the operations of all other paths too.  Nothing else in
an operation changes.
-/
theorem documented_response (noStorePaths : List Str) {generated schema : Fields}
    (hschema : ensureErrorResponseSchema generated = some schema) :
    ∃ documented, customOpenapi names noStorePaths generated = some documented ∧
      ∀ path method, (operationAt documented path method = none ↔
          operationAt generated path method = none) ∧
        ∀ op, operationAt generated path method = some op →
          ∃ op', operationAt documented path method = some op' ∧
            (∀ k, k ≠ "responses".toList → op'.lookup k = op.lookup k) ∧
            ∀ status, (responsesOf op').lookup status
              = match (responsesOf op).lookup status with
                | some response => some (document names (noStorePaths.contains path) response)
                | none => (commonErrorResponses.lookup status).map (document names
                    (sharesNoStore noStorePaths ((objAt "paths".toList generated).getD [])
                      status)) := by
  have hsame := objAt_paths_ensure hschema
  have hoperations : ∀ path method, operationAt schema path method
      = operationAt generated path method := by
    intro path method
    rw [operationAt, operationAt, hsame]
  cases hpaths : objAt "paths".toList schema with
  | none =>
    have hnone : ∀ path method, operationAt schema path method = none := by
      intro path method
      rw [operationAt, hpaths, Option.bind_none]
    refine ⟨schema, by simp only [customOpenapi, hschema, Option.map_some, hpaths], ?_⟩
    intro path method
    rw [← hoperations, hnone]
    exact ⟨Iff.rfl, fun op hop => by cases hop⟩
  | some paths =>
    refine ⟨_, customOpenapi_eq names noStorePaths hschema hpaths, fun path method => ?_⟩
    rw [operationAt_customOpenapi names noStorePaths hpaths, hoperations, ← hsame, hpaths]
    refine ⟨Option.map_eq_none_iff, fun op hop => ?_⟩
    rw [hop]
    refine ⟨_, rfl, fun k hk => ?_, fun status => ?_⟩
    · rw [documentedOperation, lookup_assign, if_neg hk]
    · obtain ⟨item, hitem, hmethod⟩ : ∃ item, objAt path paths = some item ∧
          objAt method item = some op := by
        rw [← hoperations, operationAt, hpaths, Option.bind_some] at hop
        exact Option.bind_eq_some_iff.mp hop
      exact lookup_documentedOperation names (mem_of_lookup (objAt_eq_some_iff.mp hitem))
        (mem_of_lookup (objAt_eq_some_iff.mp hmethod)) _ status

/-- `NO_STORE_PATHS` -/
def noStorePaths : List Str :=
  ["/auth/login".toList, "/auth/refresh".toList, "/auth/logout".toList, "/auth/me".toList,
    "/auth/register".toList, "/admin/grants".toList]

def sampleNames : HeaderNames where
  requestId := "X-Request-Id".toList
  responseTimeMs := "X-Response-Time-Ms".toList
  cacheControl := "Cache-Control".toList

/-- An operation that documents its success only. -/
def plainOperation : Json :=
  .obj [("responses".toList, .obj [("200".toList, .obj [("description".toList, .str "OK")])])]

/-- Two routes, of which one is not to be stored. -/
def twoRoutes : Fields :=
  [("paths".toList, .obj [("/auth/me".toList, .obj [("get".toList, plainOperation)]),
    ("/healthz".toList, .obj [("get".toList, plainOperation)])])]

/-- The health check is documented as not to be stored when it answers 401. -/
theorem documented_response_twoRoutes :
    ∃ documented op, customOpenapi sampleNames noStorePaths twoRoutes = some documented ∧
      operationAt documented "/healthz".toList "get".toList = some op ∧
      (responsesOf op).lookup "401".toList
        = some (document sampleNames true (errResp "Unauthorized")) := by
  obtain ⟨documented, hdocumented, hall⟩ := @documented_response sampleNames noStorePaths
    twoRoutes _ rfl
  obtain ⟨op, hop, -, hresponses⟩ := (hall "/healthz".toList "get".toList).2 _ rfl
  refine ⟨documented, op, hdocumented, hop, ?_⟩
  rw [hresponses]
  rfl

end EnterpriseAssistant.Api.OpenApi
