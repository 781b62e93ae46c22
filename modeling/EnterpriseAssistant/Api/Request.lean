import EnterpriseAssistant.Lib.PyStr

/-!
# What the middlewares read out of a request

The workspace id of `app/api/middleware/tenant.py`, the address of `app/api/middleware/real_ip.py`
and the request id of `app/api/middleware/request_context.py`.
-/

namespace EnterpriseAssistant.Api

open Py

/-- A request as the server passes it on: header names in lower case, repeated names in order. -/
structure Request where
  method : Str
  path : Str
  headers : List (Str × Str)
  query : List (Str × Str)
  /-- the peer's address -/
  client : Option Str
deriving DecidableEq, Repr

/-- `request.headers.get(name)`: the first of that name. -/
def Request.header (r : Request) (name : Str) : Option Str :=
  (r.headers.find? fun h => h.1 == lower name).map fun h => h.2

/-- `request.query_params.get(name)`: the last of that name. -/
def Request.queryParam (r : Request) (name : Str) : Option Str :=
  (r.query.findRev? fun q => q.1 == name).map fun q => q.2

/-! ## The workspace id -/

def hdrWorkspaceId : Str := "X-Workspace-Id".toList

/-- `_to_int` -/
def toInt (v : Option Str) : Option Int := v.bind fun s => intLimited? (strip s)

/-- What is behind the digits of `(\d+)(?:/|$)`; `$` also matches in front of a final newline. -/
def endsSegment (rest : Str) : Bool := rest == [] || rest == ['\n'] || rest.head? == some '/'

/-- `group(1)` of a match of `pre(\d+)(?:/|$)` at the start of `s`. -/
def matchSegment (pre s : Str) : Option Str :=
  if pre.isPrefixOf s then
    let rest := s.drop pre.length
    let digits := rest.takeWhile fun c => (decimal? c).isSome
    if !digits.isEmpty && endsSegment (rest.drop digits.length) then some digits else none
  else none

/-- `re.search` for `pre(\d+)(?:/|$)`. -/
def searchSegment (pre s : Str) : Option Str := s.tails.findSome? (matchSegment pre)

/-- The id if it is one: `v if v > 0 else None`. -/
def positive (v : Option Int) : Option Int := v.filter fun n => 0 < n

/-- `_extract_from_path` -/
def extractFromPath (path : Str) : Option Int :=
  match searchSegment "/workspaces/".toList path with
  | some digits => positive (intLimited? digits)
  | none =>
    match searchSegment "/workspace/".toList path with
    | some digits => positive (intLimited? digits)
    | none => none

/-- `_extract_workspace_id` -/
def extractWorkspaceId (r : Request) : Option Int :=
  (positive (toInt (r.header hdrWorkspaceId))).or
    ((positive (toInt (r.queryParam "workspace_id".toList))).or (positive (extractFromPath r.path)))

theorem pos_of_positive {v : Option Int} {n : Int} (h : positive v = some n) : 0 < n := by
  simpa using (Option.filter_eq_some_iff.mp h).2

/-- A workspace id is never `0`, the value for none. -/
theorem extractWorkspaceId_pos {r : Request} {n : Int} (h : extractWorkspaceId r = some n) :
    0 < n := by
  rcases Option.or_eq_some_iff.mp h with h | ⟨-, h⟩
  · exact pos_of_positive h
  · rcases Option.or_eq_some_iff.mp h with h | ⟨-, h⟩
    · exact pos_of_positive h
    · exact pos_of_positive h

example : extractFromPath "/api/workspaces/12/assets".toList = some 12 := by decide +kernel

/-! ## The address -/

/-- `get_real_ip` -/
def getRealIp (r : Request) : Option Str :=
  let xff := (r.header "X-Forwarded-For".toList).getD []
  let parts := ((xff.splitOn ',').map strip).filter fun p => !p.isEmpty
  let xri := strip ((r.header "X-Real-IP".toList).getD [])
  parts.head?.or (if xri.isEmpty then r.client else some xri)

/-! ## The request id -/

def hdrRequestId : Str := "X-Request-Id".toList

/-- `_MAX_RID_LEN` -/
def maxRidLen : Nat := 128

/-- A character of `_RE_SAFE_RID`. -/
def safeRidChar (c : Char) : Bool := c.isAlphanum || c == '.' || c == '_' || c == '-'

/-- `_sanitize_request_id`; `fresh` is `uuid.uuid4().hex`. -/
def sanitizeRequestId (fresh : Str) (v : Option Str) : Str :=
  let rid := strip (v.getD [])
  if rid.isEmpty || maxRidLen < rid.length || !rid.all safeRidChar then fresh else rid

end EnterpriseAssistant.Api
