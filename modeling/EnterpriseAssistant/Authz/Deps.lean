import EnterpriseAssistant.Authn.Deps
import EnterpriseAssistant.Authz.Service

/-!
# Requiring permissions of the caller

`permission_required` of `app/modules/authz/deps.py`.
-/

namespace EnterpriseAssistant.Authz

open Py Core Auth Audit Infra Authn Program SqlSession

/-- The dependency for some codes, at the scope that the scope builder answers. -/
def permissionRequired (permCodes : List Str) (scopeKey : Str) (c : Caller) : App User := do
  let user ← getCurrentUser c
  requirePerms user scopeKey permCodes
  pure user

/-- The caller is this user, who has the permissions. -/
def Admits (permCodes : List Str) (scopeKey : Str) (c : Caller) (db : Database) (user : User) :
    Prop :=
  c.Is db user ∧ Permitted db user scopeKey permCodes

theorem keeps_requirePerms (user : User) (scopeKey : Str) (permCodes : List Str) (v : Database)
    (bs : List Bool) : Prog.Keeps (Reading v bs) (requirePerms user scopeKey permCodes) := by
  have hdeny : ∀ (args : RecordArgs Meta) (e : App Unit), Prog.Keeps (Reading v bs) e →
      Prog.Keeps (Reading v bs) (record args >>= fun _ => e) :=
    fun args e he => (keeps_record (fun _ _ hs => ⟨hs.view, hs.inTransaction, hs.begins⟩) args).bind
      fun _ => he
  unfold requirePerms
  split
  · exact Prog.keeps_pure ()
  · split
    · exact Prog.keeps_pure ()
    · refine (keeps_select_reading _).bind fun roleIds => ?_
      split
      · exact hdeny _ _ (Prog.keeps_raise _)
      · refine (keeps_select_reading _).bind fun held => ?_
        split
        · exact Prog.keeps_pure ()
        · exact hdeny _ _ (Prog.keeps_raise _)

/-- The dependency raises and nothing has begun, or it answers an admitted user and leaves the
session in the transaction of its selects. -/
theorem permissionRequired_cases (permCodes : List Str) (scopeKey : Str) (c : Caller)
    (s : AppState) :
    (∃ e s', permissionRequired permCodes scopeKey c s = (.error e, s') ∧
        s'.session.begins = s.session.begins ∧
        ∀ user, ¬Admits permCodes scopeKey c s.session.view user) ∨
      ∃ user s', permissionRequired permCodes scopeKey c s = (.ok user, s') ∧
        Admits permCodes scopeKey c s.session.view user ∧
        Reading s.session.view s.session.begins s' := by
  unfold permissionRequired
  rcases getCurrentUser_cases c s with ⟨e, s', heq, hbegins, hnot⟩ | ⟨user, s', heq, his, hses⟩
  · refine Or.inl ⟨e, s', Prog.bind_error heq _, hbegins, ?_⟩
    exact fun user h => hnot user h.1
  · have hreading : Reading s.session.view s.session.begins s' :=
      ⟨by rw [hses]; rfl, by rw [hses]; rfl, by rw [hses]; rfl⟩
    have hkept := keeps_requirePerms user scopeKey permCodes _ _ s' hreading
    have hok := requirePerms_ok_iff user scopeKey permCodes s'
    rw [hreading.view] at hok
    rw [Prog.bind_ok heq, Prog.bind_run]
    generalize requirePerms user scopeKey permCodes s' = r at hkept hok ⊢
    obtain ⟨res, s₁⟩ := r
    cases res with
    | ok u =>
      exact Or.inr ⟨user, s₁, rfl, ⟨his, hok.mp rfl⟩, hkept⟩
    | error e =>
      refine Or.inl ⟨e, s₁, rfl, hkept.begins, ?_⟩
      rintro user' ⟨his', hperm⟩
      obtain rfl := his.unique his'
      exact nomatch hok.mpr hperm

end EnterpriseAssistant.Authz
