import EnterpriseAssistant.Admin.Routes
import EnterpriseAssistant.Authn.Routes
import EnterpriseAssistant.Authz.SeedSync
import EnterpriseAssistant.Kb.Pipeline

/-!
# Where transactions begin

The eight operations that open a transaction with `begin()`, each entered as the application enters
it, and the calls of `begin()` they make.
-/

namespace EnterpriseAssistant.Infra

open Py Core Auth Audit Security Authn Authz Admin Kb Program SqlSession

/-- An operation with its input. -/
inductive Operation where
  | register (hashPassword : Str → Str) (req : RegisterReq)
  | grantRole (caller : Caller) (req : GrantRoleReq)
  | revokeRole (caller : Caller) (req : GrantRoleReq)
  | createAsset (args : CreateAssetArgs)
  | markUploaded (assetId : Int) (args : UploadArgs)
  | softDeleteAsset (assetId : Int)
  | runIngestion (guessType : Str → Option Str) (errorText : Exn → Str) (assetId now : Int)
  | syncAuthz

/-- The session after the operation, which has found the database as it is and an idle session. -/
def sessionAfter (db : Database) (amb : Ambient) (op : Operation) : Session Database :=
  let s : AppState := { session := .idle db, rest := amb }
  match op with
  | .register hashPassword req => (getDb (register hashPassword .refuse req) s).2.session
  | .grantRole c req => (grantRoleRequest .refuse c req s).2.session
  | .revokeRole c req => (revokeRoleRequest .refuse c req s).2.session
  | .createAsset args => (createAsset .refuse args s).2.session
  | .markUploaded assetId args => (markUploaded .refuse assetId args s).2.session
  | .softDeleteAsset assetId => (softDeleteAsset .refuse assetId s).2.session
  | .runIngestion guessType errorText assetId now =>
    (runIngestion .refuse guessType errorText assetId now s).2.session
  | .syncAuthz => (syncAuthz .refuse s).2.session

/-- Every `begin()` of the operation has found the session idle. -/
def Operation.BeginsIdle (db : Database) (amb : Ambient) (op : Operation) : Prop :=
  ∀ b ∈ (sessionAfter db amb op).begins, b = true

/-- The grant that the request asks for has yet to be inserted. -/
def GrantToInsert (db : Database) (req : GrantRoleReq) : Prop :=
  ∃ role, roleByName db.roles req.roleName = some role ∧
    (userById db.users req.userId).isSome ∧
      db.grants.any (sameGrant req.userId role.id req.scopeKey) = false

/-- `grant_role` has answered that the role is granted, and the row is committed. -/
def GrantCommitted (db : Database) (amb : Ambient) (c : Caller) (req : GrantRoleReq) : Prop :=
  ∃ role data s', roleByName db.roles req.roleName = some role ∧
    grantRoleRequest .refuse c req { session := .idle db, rest := amb } = (.ok data, s') ∧
      data.granted = true ∧
        s'.session.committed.grants.any (sameGrant req.userId role.id req.scopeKey) = true

/-- The operation reaches the commit that its callers rely on. -/
def Operation.ReachesCommit (db : Database) (amb : Ambient) : Operation → Prop
  | .grantRole c req =>
    (∃ me, Admits ["workspace.manage".toList] scopeGlobal c db me) → GrantToInsert db req →
      GrantCommitted db amb c req
  | _ => True

/-- No select of the operation is followed by a `begin()`. -/
def Operation.NoBeginAfterSelect (db : Database) : Operation → Prop
  | .register _ _ => True
  | .grantRole c req =>
    (∃ me, Admits ["workspace.manage".toList] scopeGlobal c db me) → ¬GrantToInsert db req
  | .revokeRole c req =>
    (∃ me, Admits ["workspace.manage".toList] scopeGlobal c db me) →
      roleByName db.roles req.roleName = none
  | .createAsset _ => True
  | .markUploaded assetId _ => ¬∃ a, LiveAsset db assetId a
  | .softDeleteAsset assetId => ¬∃ a, LiveAsset db assetId a
  | .runIngestion _ _ assetId _ =>
    ¬∃ a, LiveAsset db assetId a ∧ orNone a.storageKey ≠ none
  | .syncAuthz => True

/-! ## Operations that begin on an idle session -/

theorem began_of_record {α : Type} {args : RecordArgs Meta} {m : App α} {bs : List Bool}
    (hm : Prog.Keeps (Began bs) m) : Prog.Keeps (Began bs) (record args >>= fun _ => m) :=
  (keeps_record (fun _ _ hs => hs) args).bind fun _ => hm

theorem keeps_registerBody (hashPassword : Str → Str) (req : RegisterReq) (bs : List Bool) :
    Prog.Keeps (Began bs) (registerBody hashPassword req) := by
  refine (keeps_select bs _).bind fun found => ?_
  cases found with
  | none => exact keeps_execute bs _
  | some user => exact began_of_record (Prog.keeps_raise _)

theorem keeps_syncAuthzBody (bs : List Bool) : Prog.Keeps (Began bs) syncAuthzBody := by
  refine (Prog.Keeps.forEach (fun ⟨_, _⟩ => keeps_execute bs _) seedRoles).bind fun _ => ?_
  refine (Prog.Keeps.forEach (fun ⟨_, _⟩ => keeps_execute bs _) seedPermissions).bind fun _ => ?_
  refine (keeps_select bs _).bind fun roles => ?_
  refine (keeps_select bs _).bind fun permissions => ?_
  exact (keeps_select bs _).bind fun existing => keeps_execute bs _

theorem register_begins (hashPassword : Str → Str) (req : RegisterReq) (s : AppState) :
    (register hashPassword .refuse req s).2.session.begins
      = (!s.session.inTransaction) :: s.session.begins := by
  unfold register begin
  exact beginBlock_bind_begins .refuse .invalidRequest (keeps_registerBody hashPassword req)
    (fun _ _ => began_of_record (Prog.keeps_pure _)) s

theorem createAsset_begins (args : CreateAssetArgs) (s : AppState) :
    (createAsset .refuse args s).2.session.begins
      = (!s.session.inTransaction) :: s.session.begins := by
  unfold createAsset begin
  exact beginBlock_begins .refuse Exn.invalidRequest (fun bs => keeps_execute bs _) s

theorem syncAuthz_begins (s : AppState) :
    (syncAuthz .refuse s).2.session.begins
      = (!s.session.inTransaction) :: s.session.begins := by
  unfold syncAuthz begin
  exact beginBlock_begins .refuse Exn.invalidRequest keeps_syncAuthzBody s

/-! ## Operations that select before they begin -/

/-- `grant_role` on a session with an open transaction. -/
theorem grantRole_begins {v : Database} {bs : List Bool} {s : AppState} (hs : Reading v bs s)
    (req : GrantRoleReq) (me : User) :
    ((grantRole .refuse req me s).2.session.begins = bs ∧ ¬GrantToInsert v req) ∨
      ((grantRole .refuse req me s).2.session.begins = false :: bs ∧ GrantToInsert v req) := by
  have hbs := hs.begins
  obtain rfl := hs.view
  simp only [grantRole, Prog.bind_run, select_run]
  cases hrole : roleByName s.session.view.roles req.roleName with
  | none =>
    refine Or.inl ⟨hbs, ?_⟩
    rintro ⟨role, hsome, -⟩
    rw [hrole] at hsome
    cases hsome
  | some role =>
    simp only [Prog.bind_run, select_run, State.onSession_session, Session.seeing_view]
    cases htarget : userById s.session.view.users req.userId with
    | none =>
      refine Or.inl ⟨hbs, ?_⟩
      rintro ⟨role', -, hsome, -⟩
      rw [htarget] at hsome
      cases hsome
    | some target =>
      simp only [Prog.bind_run, select_run, State.onSession_session, Session.seeing_view]
      cases hfound : s.session.view.grants.any (sameGrant req.userId role.id req.scopeKey) with
      | true =>
        refine Or.inl ⟨hbs, ?_⟩
        rintro ⟨role', hsome, -, hnone⟩
        rw [hrole] at hsome
        cases hsome
        rw [hfound] at hnone
        cases hnone
      | false =>
        -- the session is in the transaction of the three selects, so `begin()` raises
        refine Or.inr ⟨?_, role, hrole, by rw [htarget]; rfl, hfound⟩
        rw [← hbs]
        rfl

/-- `revoke_role` on a session with an open transaction. -/
theorem revokeRole_begins {v : Database} {bs : List Bool} {s : AppState} (hs : Reading v bs s)
    (req : GrantRoleReq) (me : User) :
    ((revokeRole .refuse req me s).2.session.begins = bs ∧ roleByName v.roles req.roleName = none) ∨
      ((revokeRole .refuse req me s).2.session.begins = false :: bs ∧
        roleByName v.roles req.roleName ≠ none) := by
  have hbs := hs.begins
  obtain rfl := hs.view
  simp only [revokeRole, Prog.bind_run, select_run]
  cases hrole : roleByName s.session.view.roles req.roleName with
  | none => exact Or.inl ⟨hbs, rfl⟩
  | some role =>
    refine Or.inr ⟨?_, Option.some_ne_none role⟩
    rw [← hbs]
    rfl

/-- Behind the dependencies of an admin request: nobody is admitted and nothing begins, or the
handler runs in an open transaction. -/
theorem adminRequest_begins {α : Type} (c : Caller) (handler : User → App α) (db : Database)
    (amb : Ambient) :
    let s : AppState := { session := .idle db, rest := amb }
    ((getDb (adminUser c >>= handler) s).2.session.begins = [] ∧
        ∀ me, ¬Admits ["workspace.manage".toList] scopeGlobal c db me) ∨
      ∃ me s', Admits ["workspace.manage".toList] scopeGlobal c db me ∧ Reading db [] s' ∧
        (getDb (adminUser c >>= handler) s).2.session.begins
          = (handler me s').2.session.begins := by
  intro s
  rw [getDb_run]
  rcases permissionRequired_cases ["workspace.manage".toList] scopeGlobal c
    (s.onSession fun x => { x with committed := x.view, transaction := none }) with
    ⟨e, s', heq, hbegins, hnot⟩ | ⟨me, s', heq, hadmits, hreading⟩
  · refine Or.inl ⟨?_, hnot⟩
    rw [adminUser, Prog.bind_error heq]
    exact hbegins
  · refine Or.inr ⟨me, s', hadmits, hreading, ?_⟩
    rw [adminUser, Prog.bind_ok heq]
    rfl

/-- No asset is live when the select finds none, or a deleted one. -/
theorem not_liveAsset {db : Database} {assetId : Int}
    (h : ∀ a, assetById db assetId = some a → a.status = .deleted) :
    ¬∃ a, LiveAsset db assetId a := by
  rintro ⟨a, ha, hlive⟩
  exact hlive (h a ha)

theorem markUploaded_begins (db : Database) (amb : Ambient) (assetId : Int) (args : UploadArgs) :
    ((sessionAfter db amb (.markUploaded assetId args)).begins = [] ∧
        ¬∃ a, LiveAsset db assetId a) ∨
      ((sessionAfter db amb (.markUploaded assetId args)).begins = [false] ∧
        ∃ a, LiveAsset db assetId a) := by
  simp only [sessionAfter, markUploaded, Prog.bind_run, select_run, Session.idle_view]
  cases ha : assetById db assetId with
  | none => exact Or.inl ⟨rfl, not_liveAsset (by simp [ha])⟩
  | some a =>
    by_cases hdel : a.status = .deleted
    · simp only [if_pos hdel]
      exact Or.inl ⟨rfl, not_liveAsset (by simpa [ha] using hdel)⟩
    · simp only [if_neg hdel]
      exact Or.inr ⟨rfl, a, ha, hdel⟩

theorem softDeleteAsset_begins (db : Database) (amb : Ambient) (assetId : Int) :
    ((sessionAfter db amb (.softDeleteAsset assetId)).begins = [] ∧ ¬∃ a, LiveAsset db assetId a) ∨
      ((sessionAfter db amb (.softDeleteAsset assetId)).begins = [false] ∧
        ∃ a, LiveAsset db assetId a) := by
  simp only [sessionAfter, softDeleteAsset, Prog.bind_run, select_run, Session.idle_view]
  cases ha : assetById db assetId with
  | none => exact Or.inl ⟨rfl, not_liveAsset (by simp [ha])⟩
  | some a =>
    by_cases hdel : a.status = .deleted
    · simp only [if_pos hdel]
      exact Or.inl ⟨rfl, not_liveAsset (by simpa [ha] using hdel)⟩
    · simp only [if_neg hdel]
      exact Or.inr ⟨rfl, a, ha, hdel⟩

theorem runIngestion_begins (db : Database) (amb : Ambient) (guessType : Str → Option Str)
    (errorText : Exn → Str) (assetId now : Int) :
    ((sessionAfter db amb (.runIngestion guessType errorText assetId now)).begins = [] ∧
        ¬∃ a, LiveAsset db assetId a ∧ orNone a.storageKey ≠ none) ∨
      ((sessionAfter db amb (.runIngestion guessType errorText assetId now)).begins = [false] ∧
        ∃ a, LiveAsset db assetId a ∧ orNone a.storageKey ≠ none) := by
  simp only [sessionAfter, runIngestion, startIngestion, inSession, Prog.bind_run,
    Prog.update_run, Prog.finallyUpdate, select_run]
  have hview : ((State.onSession Session.rollback
      ({ session := .idle db, rest := amb } : AppState)).session).view = db := rfl
  rw [hview]
  cases ha : assetById db assetId with
  | none =>
    refine Or.inl ⟨rfl, ?_⟩
    rintro ⟨a, ⟨hsome, -⟩, -⟩
    rw [ha] at hsome
    cases hsome
  | some a =>
    have hsame : ∀ a', LiveAsset db assetId a' → a' = a := by
      rintro a' ⟨hsome, -⟩
      rw [ha] at hsome
      exact (Option.some.inj hsome).symm
    by_cases hdel : a.status = .deleted
    · simp only [if_pos hdel]
      refine Or.inl ⟨rfl, ?_⟩
      rintro ⟨a', hlive, -⟩
      obtain rfl := hsame a' hlive
      exact hlive.2 hdel
    · by_cases hkey : orNone a.storageKey = none
      · simp only [if_neg hdel, if_pos hkey]
        refine Or.inl ⟨rfl, ?_⟩
        rintro ⟨a', hlive, hkey'⟩
        obtain rfl := hsame a' hlive
        exact hkey' hkey
      · -- the first block is refused, and the exception leaves the function
        simp only [if_neg hdel, if_neg hkey]
        exact Or.inr ⟨rfl, a, ⟨ha, hdel⟩, hkey⟩

/-! ## All of them -/

/-- Of the calls of an operation, none is refused or the one it makes. -/
theorem all_idle_iff {bs : List Bool} {P : Prop} (h : (bs = [] ∧ ¬P) ∨ (bs = [false] ∧ P)) :
    (∀ b ∈ bs, b = true) ↔ ¬P := by
  rcases h with ⟨rfl, hP⟩ | ⟨rfl, hP⟩
  · simpa using hP
  · simpa using hP

theorem beginsIdle_of_begins {db : Database} {amb : Ambient} {op : Operation}
    (h : (sessionAfter db amb op).begins = [true]) : op.BeginsIdle db amb := by
  intro b hb
  rw [h] at hb
  exact List.mem_singleton.mp hb

/-- An admin request whose handler, once it runs, begins in the open transaction when `P`. -/
theorem adminRequest_idle_iff {α : Type} (c : Caller) {handler : User → App α} {db : Database}
    {P : Prop}
    (h : ∀ me s', Reading db [] s' → ((handler me s').2.session.begins = [] ∧ ¬P) ∨
      ((handler me s').2.session.begins = [false] ∧ P)) (amb : Ambient) :
    let s : AppState := { session := .idle db, rest := amb }
    (∀ b ∈ (getDb (adminUser c >>= handler) s).2.session.begins, b = true) ↔
      ((∃ me, Admits ["workspace.manage".toList] scopeGlobal c db me) → ¬P) := by
  intro s
  rcases adminRequest_begins c handler db amb with
    ⟨hbegins, hnot⟩ | ⟨me, s', hadmits, hreading, hbegins⟩
  · refine iff_of_true ?_ ?_
    · intro b hb
      rw [hbegins] at hb
      cases hb
    · rintro ⟨me, hme⟩
      exact absurd hme (hnot me)
  · have hcases := h me s' hreading
    rw [← hbegins] at hcases
    refine (all_idle_iff hcases).trans ?_
    exact ⟨fun hP _ => hP, fun hP => hP ⟨me, hadmits⟩⟩

/-- Of the eight operations three begin before their first select.  The other five begin, if at
all, in the transaction that their own selects have opened. -/
theorem beginsIdle_iff (db : Database) (amb : Ambient) (op : Operation) :
    op.BeginsIdle db amb ↔ op.NoBeginAfterSelect db := by
  cases op with
  | register hashPassword req =>
    refine iff_of_true (beginsIdle_of_begins ?_) trivial
    simp only [sessionAfter, getDb_run, State.onSession_session, Session.rollback, register_begins]
    rfl
  | grantRole c req =>
    exact adminRequest_idle_iff c (fun me _ hs => grantRole_begins hs req me) amb
  | revokeRole c req =>
    refine (adminRequest_idle_iff c (fun me _ hs => ?_) amb).trans (imp_congr_right fun _ => not_not)
    refine (revokeRole_begins hs req me).imp_left fun h => ⟨h.1, not_not.mpr h.2⟩
  | createAsset args =>
    refine iff_of_true (beginsIdle_of_begins ?_) trivial
    simp only [sessionAfter, createAsset_begins]
    rfl
  | markUploaded assetId args => exact all_idle_iff (markUploaded_begins db amb assetId args)
  | softDeleteAsset assetId => exact all_idle_iff (softDeleteAsset_begins db amb assetId)
  | runIngestion guessType errorText assetId now =>
    exact all_idle_iff (runIngestion_begins db amb guessType errorText assetId now)
  | syncAuthz =>
    refine iff_of_true (beginsIdle_of_begins ?_) trivial
    simp only [sessionAfter, syncAuthz_begins]
    rfl

/--
**Transaction discipline** holds of an operation exactly when none of its selects is followed by a
`begin()`.

In particular `grant_role` keeps it only for as long as it has nothing to insert.
-/
theorem begins_idle_iff (db : Database) (amb : Ambient) (op : Operation) :
    (op.BeginsIdle db amb ∧ op.ReachesCommit db amb) ↔ op.NoBeginAfterSelect db := by
  rw [beginsIdle_iff]
  refine and_iff_left_of_imp fun hnone => ?_
  cases op with
  | grantRole c req => exact fun hadmitted hinsert => absurd hinsert (hnone hadmitted)
  | _ => trivial

/-! ## An administrator who grants a role -/

def rootAccess : AccessClaims := createAccessToken "corp".toList superadmin.id 0 15 1000

def root : Caller :=
  { token := some rootAccess, signed := [rootAccess], jwtIssuer := "corp".toList, now := 1060
    redis := ∅ }

def editorReq : GrantRoleReq :=
  { paddedReq with scopeKey := "workspace:3".toList, scopeKey_length := by decide }

/-- The role and the user are there and the grant is not; the answer is `storage.db_error`. -/
theorem grant_fails : ∃ s', grantRoleRequest .refuse root editorReq corpState
    = (.error (.app (err "storage.db_error")), s') ∧
      s'.session.begins = [false] ∧ s'.session.committed.grants = [] :=
  ⟨_, rfl, rfl, rfl⟩

theorem begin_in_open_transaction :
    ¬∀ (db : Database) (amb : Ambient) (op : Operation),
      op.BeginsIdle db amb ∧ op.ReachesCommit db amb := by
  intro h
  obtain ⟨s', hrun, hbegins, -⟩ := grant_fails
  have hidle := (h corpDb corpState.rest (.grantRole root editorReq)).1 false
  have hafter : sessionAfter corpDb corpState.rest (.grantRole root editorReq) = s'.session :=
    congrArg (fun r => r.2.session) hrun
  rw [hafter, hbegins] at hidle
  exact nomatch hidle (List.mem_singleton.mpr rfl)

end EnterpriseAssistant.Infra
