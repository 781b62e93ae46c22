import EnterpriseAssistant.Lib.Serial
import EnterpriseAssistant.Admin.Accounting

/-!
# Grants and revocations in turn

The interleaved handlers against `grant_role` and `revoke_role` as programs, each on a session of
its own.  A handler reads rows that nobody changes until its last step, and that step is one block
with its commit; what it has read of the grants before does not matter.

* `inOnePiece_eq` — what the programs answer, and what they leave
* `grants_in_turn` — every run is the programs, one after the other
-/

namespace EnterpriseAssistant.Admin.Accounting

open Py Core Auth Infra Admin Program SqlSession Interleaving System

/-! ## The programs -/

/-- What the client gets from a program, and what it leaves in the database. -/
def told {δ : Type} (answer : δ → Answer) : Except Exn δ × AppState → Answer × Database
  | (.ok data, s) => (answer data, s.session.committed)
  | (.error (.app e), s) => (.error e, s.session.committed)
  | (.error _, s) => (.unhandled, s.session.committed)

/-- A request in one piece, on an idle session; `begin()` joins the transaction that the selects
have opened. -/
def inOnePiece (rest : Ambient) : Handler → Database → Answer × Database
  | .grant req me, db => told .granted (grantRole .join req me ⟨.idle db, rest⟩)
  | .revoke req me, db => told .revoked (revokeRole .join req me ⟨.idle db, rest⟩)
  -- no request begins further on
  | _, db => (.unhandled, db)

/-- **In one piece** the programs answer what the handlers would answer at once. -/
theorem inOnePiece_eq (rest : Ambient) (h : Handler) (db : Database) :
    inOnePiece rest h db = h.atOnce db := by
  cases h with
  | grant req me =>
    simp only [inOnePiece, Handler.atOnce, grantRole, Prog.bind_run, select_run, Session.idle_view]
    cases hrole : roleByName db.roles req.roleName with
    | none => rfl
    | some role =>
      simp only [Prog.bind_run, select_run, State.onSession_session, Session.seeing_view,
        Session.idle_view]
      cases htarget : userById db.users req.userId with
      | none => rfl
      | some target =>
        simp only [Prog.bind_run, select_run, State.onSession_session, Session.seeing_view,
          Session.idle_view]
        split
        · rfl
        · simp only [Prog.tryExcept, Prog.bind_run, begin, beginBlock, reduceCtorEq, and_false,
            if_false, execute, State.onSession_session, Session.seeing_view, Session.idle_view]
          cases insertGrant { userId := req.userId, roleId := role.id, scopeKey := req.scopeKey
                              createdBy := some me.id } db with
          | error e => rfl
          | ok r => rfl
  | revoke req me =>
    simp only [inOnePiece, Handler.atOnce, revokeRole, Prog.bind_run, select_run, Session.idle_view]
    cases hrole : roleByName db.roles req.roleName with
    | none => rfl
    | some role => rfl
  | _ => rfl

/-! ## The handlers -/

def Choice.counts : Choice → Bool
  | .go => true
  | .raises => false

theorem serial (rest : Ambient) :
    Serial grantSystem Handler.answered Choice.counts (inOnePiece rest) Known where
  finished db t h ch hdone := by
    cases h with
    | done answer => rfl
    | _ => cases hdone
  quiet db t h₀ h ch m hknown hm hquiet := by
    cases ch with
    | raises =>
      cases h with
      | done answer => cases hm
      | _ =>
        cases hm
        exact ⟨rfl, trivial⟩
    | go =>
      have hnone : m.thread.answered = none := hquiet.resolve_left (by simp [Choice.counts])
      rcases hknown.move (move_of_step hm) with ⟨-, hstep⟩ | ⟨answer, hdone, -⟩
      · exact hstep
      · rw [hdone] at hnone
        cases hnone
  last db t h₀ h ch m a hknown hm hcounts ha := by
    cases ch with
    | raises => cases hcounts
    | go =>
      rcases hknown.move (move_of_step hm) with ⟨hnone, -⟩ | ⟨answer, hdone, hwhole⟩
      · rw [hnone] at ha
        cases ha
      · rw [hdone] at ha ⊢
        cases ha
        exact ⟨(inOnePiece_eq rest h₀ db).trans hwhole, trivial⟩
  others db h₀ h h₁ hknown := by
    obtain ⟨gs, hgs⟩ := atOnce_frame db h₁
    rw [inOnePiece_eq, hgs]
    exact hknown.frame gs

/-! ## Every run -/

theorem bind_answered {o : Option Handler} {answer : Answer} :
    o.bind Handler.answered = some answer ↔ o = some (.done answer) := by
  constructor
  · intro h
    obtain ⟨th, rfl, hth⟩ := Option.bind_eq_some_iff.mp h
    cases th with
    | done answer' =>
      cases hth
      rfl
    | _ => cases hth
  · rintro rfl
    rfl

/--
**Grants and revocations are serial.**

However the selects and the blocks of the requests are interleaved, the requests that have not been
ended by an exception have been answered as `grant_role` and `revoke_role` answer when they run one
after the other, in the order in which the requests have ended, and the database is the one behind
the last.
-/
theorem grants_in_turn (rest : Ambient) (db : Database) (tasks : List Handler)
    (hfresh : ∀ h ∈ tasks, h.Fresh) (es : List (Event Choice Empty)) (c : GrantConfig)
    (hrun : grantSystem.exec (.start db tasks) es = some c) :
    let order := grantSystem.turns Handler.answered Choice.counts (.start db tasks) es
    let programs := inTurn (inOnePiece rest) tasks db order
    order.Nodup ∧
      (∀ t answer, c.threads[t]? = some (.done answer) → t ∈ order ∨ .run t .raises ∈ es) ∧
      programs.1.map Prod.fst = order ∧
      (∀ t answer, (t, answer) ∈ programs.1 → c.threads[t]? = some (.done answer)) ∧
      programs.2 = c.shared := by
  obtain ⟨hnodup, hturns, hfst, hanswers, hshared⟩ := (serial rest).run
    (fun h hh => (hfresh h hh).known db) (fun h hh => by cases hfresh h hh with | _ => rfl) hrun
  refine ⟨hnodup, fun t answer ht => ?_, hfst,
    fun t answer hmem => bind_answered.mp (hanswers _ hmem), hshared⟩
  rcases hturns t (by rw [bind_answered.mpr ht]; rfl) with hmem | ⟨ch, hch, hmem⟩
  · exact Or.inl hmem
  · cases ch with
    | go => cases hch
    | raises => exact Or.inr hmem

theorem grants_in_turn_twice : ∃ c,
    grantSystem.exec (.start viewerDb twiceAndBack) grantedTwice = some c ∧
      (inTurn (inOnePiece .empty) twiceAndBack viewerDb [0, 1, 2]).2 = c.shared := by
  obtain ⟨c, hrun⟩ : ∃ c, grantSystem.exec (.start viewerDb twiceAndBack) grantedTwice = some c :=
    ⟨_, rfl⟩
  have horder : grantSystem.turns Handler.answered Choice.counts (.start viewerDb twiceAndBack)
      grantedTwice = [0, 1, 2] := rfl
  have hserial := (grants_in_turn .empty viewerDb _ fresh_twiceAndBack grantedTwice c hrun).2.2.2.2
  rw [horder] at hserial
  exact ⟨c, hrun, hserial⟩

end EnterpriseAssistant.Admin.Accounting
