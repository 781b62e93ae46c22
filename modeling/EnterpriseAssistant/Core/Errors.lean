import EnterpriseAssistant.Lib.PyStr

/-!
# Errors

`app/core/errors.py` and `app/core/error_codes.py`: the business error that a handler raises, and
the tables that give a code its message and its HTTP status.
-/

namespace EnterpriseAssistant.Core

open Py

/-- The values under the keys of the `meta` of an error, an audit event or an asset. -/
inductive MetaVal where
  | str (s : Str)
  | int (n : Int)
  | bool (b : Bool)
  | strs (ss : List Str)
  /-- any other JSON value, by its text; the handlers themselves write none -/
  | json (text : Str)
deriving DecidableEq, Repr

/-- A `dict` with its keys in order. -/
abbrev Meta := List (String × MetaVal)

/-- `m[k] = v`. -/
def Meta.set (k : String) (v : MetaVal) : Meta → Meta
  | [] => [(k, v)]
  | (k', v') :: m => if k' = k then (k', v) :: m else (k', v') :: Meta.set k v m

/-- `m.update(patch)`. -/
def Meta.update (m patch : Meta) : Meta := patch.foldl (fun acc e => acc.set e.1 e.2) m

theorem Meta.lookup_set (k k' : String) (v : MetaVal) (m : Meta) :
    (m.set k v).lookup k' = if k' = k then some v else m.lookup k' := by
  induction m with
  | nil =>
    by_cases h : k' = k
    · simp [Meta.set, h]
    · simp [Meta.set, h]
  | cons e m ih =>
    obtain ⟨k₁, v₁⟩ := e
    by_cases h₁ : k₁ = k
    · subst h₁
      by_cases h : k' = k₁
      · simp [Meta.set, h]
      · simp [Meta.set, h, beq_false_of_ne h, List.lookup_cons]
    · by_cases h : k' = k₁
      · subst h
        simp [Meta.set, h₁]
      · rw [Meta.set, if_neg h₁, List.lookup_cons, ih, List.lookup_cons, beq_false_of_ne h]

/-- A patch leaves the other keys as they are. -/
theorem Meta.lookup_update_of_notMem {k : String} {patch : Meta} (h : k ∉ patch.map Prod.fst)
    (m : Meta) : (m.update patch).lookup k = m.lookup k := by
  unfold Meta.update
  induction patch generalizing m with
  | nil => rfl
  | cons e patch ih =>
    obtain ⟨hne, hrest⟩ := not_or.mp fun hor => h (List.mem_cons.mpr hor)
    rw [List.foldl_cons, ih hrest, Meta.lookup_set, if_neg hne]

/-- `ERROR_MESSAGES`. -/
def errorMessages : List (String × String) :=
  [("error.validation_failed", "validation_failed"),
    ("error.internal", "internal_error"),
    ("error.http", "http_error"),
    ("error.rate_limited", "rate_limited"),
    ("auth.bearer_required", "Missing bearer token"),
    ("auth.access_token_invalid", "Invalid access token"),
    ("auth.access_token_expired", "Token expired"),
    ("auth.user_inactive", "User disabled or not found"),
    ("auth.email_taken", "Email already exists"),
    ("auth.credentials_invalid", "Invalid credentials"),
    ("auth.refresh_token_invalid", "Invalid refresh token"),
    ("auth.refresh_token_expired", "Refresh expired"),
    ("rbac.forbidden", "forbidden"),
    ("rbac.role_required", "no_role"),
    ("rbac.permission_missing", "missing_perms"),
    ("admin.role_not_found", "role not found"),
    ("admin.user_not_found", "user not found"),
    ("storage.db_error", "db_error")]

/-- `ERROR_STATUS`. -/
def errorStatus : List (String × Int) :=
  [("error.validation_failed", 422),
    ("error.internal", 500),
    ("error.http", 400),
    ("error.rate_limited", 429),
    ("auth.bearer_required", 401),
    ("auth.access_token_invalid", 401),
    ("auth.access_token_expired", 401),
    ("auth.user_inactive", 401),
    ("auth.email_taken", 409),
    ("auth.credentials_invalid", 401),
    ("auth.refresh_token_invalid", 401),
    ("auth.refresh_token_expired", 401),
    ("rbac.forbidden", 403),
    ("rbac.role_required", 403),
    ("rbac.permission_missing", 403),
    ("admin.role_not_found", 404),
    ("admin.user_not_found", 404),
    ("storage.db_error", 500)]

structure AppError where
  code : String
  httpStatus : Int
  message : String
  «meta» : Option Meta
deriving DecidableEq, Repr

/-- `resolve_message(code, code)`. -/
def resolveMessage (code : String) : String :=
  let c := String.ofList (strip code.toList)
  if c = "" then code
  else
    match errorMessages.lookup c with
    | some msg => msg
    | none => if code = "" then c else code

/-- `err`. -/
def err (code : String) (httpStatus : Option Int := none) (message : Option String := none)
    («meta» : Option Meta := none) : AppError :=
  { code := code
    httpStatus := httpStatus.getD ((errorStatus.lookup code).getD 400)
    message := message.getD (resolveMessage code)
    «meta» := «meta» }

example : (err "rbac.role_required").httpStatus = 403 := by decide

end EnterpriseAssistant.Core
