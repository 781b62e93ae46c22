import EnterpriseAssistant.Lib.PyStr

/-!
# The request context

The five context variables of `app/core/request_context.py`, each `None` outside a request.
-/

namespace EnterpriseAssistant.Core

open Py

structure RequestContext where
  requestId : Option Str
  userId : Option Int
  clientIp : Option Str
  userAgent : Option Str
  workspaceId : Option Int
deriving DecidableEq, Repr

/-- Every variable has its default. -/
def RequestContext.cleared : RequestContext :=
  { requestId := none, userId := none, clientIp := none, userAgent := none, workspaceId := none }

end EnterpriseAssistant.Core
