import EnterpriseAssistant.Infra.App

/-!
# The session of a request

`get_db` of `app/infra/db/deps.py`.  What its first statement writes is a setting of the connection
and not of the database, so here only the session shows.
-/

namespace EnterpriseAssistant.Infra

open Py Core Program SqlSession

/-- The value of `app.tenant_id`: the workspace of the request, or of the context. -/
def tenantValue (stateWid ctxWid : Option Int) : Str :=
  match stateWid.or ctxWid with
  | some wid => str wid
  | none => "0".toList

/-- `get_db` around everything that depends on it. -/
def getDb {α : Type} (body : App α) : App α := do
  select fun _ => ()
  commit
  Prog.finallyUpdate body (State.onSession Session.rollback)

/-- The session in which the body runs is idle. -/
theorem getDb_run {α : Type} (body : App α) (s : AppState) :
    getDb body s =
      ((body (s.onSession fun x => { x with committed := x.view, transaction := none })).1,
        (body (s.onSession fun x => { x with committed := x.view, transaction := none })).2.onSession
          Session.rollback) := rfl

end EnterpriseAssistant.Infra
