import EnterpriseAssistant.Infra.Deps
import EnterpriseAssistant.Authn.Deps

/-!
# Registration

`register` of `app/modules/authn/routes.py`.  `hashPassword` is the argon2 hasher.
-/

namespace EnterpriseAssistant.Authn

open Py Core Auth Audit Infra Program SqlSession

structure RegisterReq where
  email : Str
  password : Str
  password_length : 8 ≤ password.length ∧ password.length ≤ 72

structure MeResp where
  id : Int
  email : Str
  isActive : Bool
  isSuperadmin : Bool
deriving DecidableEq, Repr

/-- `db.add(User(..))` with the flush and the refresh behind it. -/
def insertUser (email passwordHash : Str) (db : Database) : Except Exn (User × Database) :=
  if (userByEmail db.users email).isSome then .error .integrity
  else
    let user : User :=
      { id := freshId (db.users.map fun u => u.id), email := email, passwordHash := passwordHash
        isActive := true, isSuperadmin := false }
    .ok (user, { db with users := db.users ++ [user] })

/-- The body of the transaction of `register`. -/
def registerBody (hashPassword : Str → Str) (req : RegisterReq) : App User := do
  let found ← select fun db => userByEmail db.users req.email
  match found with
  | some _ => do
    record
      { action := "auth.register", status := "deny", httpStatus := some 409
        «meta» := some [("reason", .str "email_taken".toList), ("email", .str req.email)] }
    raiseErr "auth.email_taken"
  | none => execute (insertUser req.email (hashPassword req.password))

def register (hashPassword : Str → Str) (rule : BeginRule) (req : RegisterReq) : App MeResp := do
  let user ← begin rule (registerBody hashPassword req)
  record
    { action := "auth.register", actorUserId := some user.id
      «meta» := some [("user_id", .int user.id), ("email", .str user.email)] }
  pure { id := user.id, email := user.email, isActive := user.isActive
         isSuperadmin := user.isSuperadmin }

end EnterpriseAssistant.Authn
