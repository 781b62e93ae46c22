import EnterpriseAssistant.Lib.PyStr

/-!
# Users, roles, permissions and grants

The rows of `app/modules/auth/models.py`, without the columns that nothing reads.  Where a column is
unique, `scalar_one_or_none` is the first row that matches.
-/

namespace EnterpriseAssistant.Auth

open Py

structure User where
  id : Int
  email : Str
  passwordHash : Str
  isActive : Bool
  isSuperadmin : Bool
deriving DecidableEq, Repr

structure Role where
  id : Int
  name : Str
  description : Option Str
deriving DecidableEq, Repr

structure Permission where
  id : Int
  code : Str
  description : Option Str
deriving DecidableEq, Repr

structure RolePermission where
  roleId : Int
  permId : Int
deriving DecidableEq, Repr

structure UserRoleGrant where
  userId : Int
  roleId : Int
  scopeKey : Str
  createdBy : Option Int
deriving DecidableEq, Repr

/-! ## Selects on a unique column -/

/-- `select(User).where(User.email == email)`. -/
def userByEmail (users : List User) (email : Str) : Option User :=
  users.find? fun u => u.email == email

/-- `select(User).where(User.id == id)`. -/
def userById (users : List User) (id : Int) : Option User :=
  users.find? fun u => u.id == id

/-- `select(Role).where(Role.name == name)`. -/
def roleByName (roles : List Role) (name : Str) : Option Role :=
  roles.find? fun r => r.name == name

end EnterpriseAssistant.Auth
