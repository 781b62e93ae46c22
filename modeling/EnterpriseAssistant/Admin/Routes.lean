import EnterpriseAssistant.Infra.Deps
import EnterpriseAssistant.Authz.Deps

/-!
# Granting and revoking roles

`grant_role` and `revoke_role` of `app/modules/admin/routes.py`, behind their dependencies.  Both
take the string in `scope_key` as it is, while `require_perms` looks at the stripped one.

* `grant_takes_effect_iff`, `revoke_takes_effect_iff` — when the two sides agree on the scope
* `grants_agree_iff` — the two halves together
-/

namespace EnterpriseAssistant.Admin

open Py Core Auth Audit Infra Authn Authz Program SqlSession

/-! ## Requests and answers -/

structure GrantRoleReq where
  userId : Int
  roleName : Str
  scopeKey : Str
  roleName_length : 1 ≤ roleName.length ∧ roleName.length ≤ 64
  scopeKey_length : 1 ≤ scopeKey.length ∧ scopeKey.length ≤ 128

structure GrantRoleData where
  granted : Bool
  idempotent : Bool
deriving DecidableEq, Repr

structure RevokeRoleData where
  ok : Bool
  deleted : Int
  idempotent : Bool
deriving DecidableEq, Repr

/-! ## Statements -/

/-- The three columns of the unique constraint on `user_role_grants`. -/
def sameGrant (userId roleId : Int) (scopeKey : Str) (g : UserRoleGrant) : Bool :=
  g.userId == userId && g.roleId == roleId && g.scopeKey == scopeKey

/-- The rows that the foreign keys of a grant name. -/
def grantKeysExist (g : UserRoleGrant) (db : Database) : Bool :=
  (userById db.users g.userId).isSome && db.roles.any (fun r => r.id == g.roleId)
    && g.createdBy.all fun u => (userById db.users u).isSome

/-- `insert(UserRoleGrant).values(..).on_conflict_do_nothing(..)`: the row count. -/
def insertGrant (g : UserRoleGrant) (db : Database) : Except Exn (Int × Database) :=
  if db.grants.any (sameGrant g.userId g.roleId g.scopeKey) then .ok (0, db)
  else if grantKeysExist g db then .ok (1, { db with grants := db.grants ++ [g] })
  else .error .integrity

/-- `delete(UserRoleGrant).where(..)`: the row count. -/
def deleteGrants (userId roleId : Int) (scopeKey : Str) (db : Database) :
    Except Exn (Int × Database) :=
  .ok (db.grants.countP (sameGrant userId roleId scopeKey),
    { db with grants := db.grants.filter fun g => !sameGrant userId roleId scopeKey g })

/-! ## The handlers -/

/-- What the events of both handlers say about the request. -/
def grantMeta (first : Meta) (userId : Int) (roleName scopeKey : Str) (me : User) : Meta :=
  first ++ [("role_name", .str roleName), ("scope_key", .str scopeKey),
    ("target_user_id", .int userId), ("actor_user_id", .int me.id)]

def grantRole (rule : BeginRule) (req : GrantRoleReq) (me : User) : App GrantRoleData := do
  let note := fun first => some (grantMeta first req.userId req.roleName req.scopeKey me)
  let role ← select fun db => roleByName db.roles req.roleName
  match role with
  | none => do
    record
      { action := "admin.grant_role", status := "deny", httpStatus := some 404
        «meta» := note [("reason", .str "role_not_found".toList)]
        errorCode := some "admin.role_not_found".toList }
    raiseErr "admin.role_not_found"
  | some role => do
    let target ← select fun db => userById db.users req.userId
    match target with
    | none => do
      record
        { action := "admin.grant_role", status := "deny", httpStatus := some 404
          «meta» := note [("reason", .str "user_not_found".toList)]
          errorCode := some "admin.user_not_found".toList }
      raiseErr "admin.user_not_found"
    | some _ => do
      let found ← select fun db => db.grants.any (sameGrant req.userId role.id req.scopeKey)
      if found then do
        record { action := "admin.grant_role", «meta» := note [("idempotent", .bool true)] }
        pure { granted := true, idempotent := true }
      else
        -- `except Exception` also takes in what `begin()` raises
        Prog.tryExcept
          (do
            let rc ← begin rule (execute (insertGrant
              { userId := req.userId, roleId := role.id, scopeKey := req.scopeKey
                createdBy := some me.id }))
            record { action := "admin.grant_role", «meta» := note [("idempotent", .bool (rc == 0))] }
            pure { granted := true, idempotent := rc == 0 })
          fun _ => do
            record
              { action := "admin.grant_role", status := "error", httpStatus := some 500
                «meta» := note [], errorCode := some "storage.db_error".toList }
            raiseErr "storage.db_error"

/-- `revoke_role` takes the fields of the request from the query, with the same bounds. -/
def revokeRole (rule : BeginRule) (req : GrantRoleReq) (me : User) : App RevokeRoleData := do
  let note := fun first => some (grantMeta first req.userId req.roleName req.scopeKey me)
  let role ← select fun db => roleByName db.roles req.roleName
  match role with
  | none => do
    record { action := "admin.revoke_role", «meta» := note [("idempotent", .bool true)] }
    pure { ok := true, deleted := 0, idempotent := true }
  | some role => do
    let deleted ← begin rule (execute (deleteGrants req.userId role.id req.scopeKey))
    record
      { action := "admin.revoke_role"
        «meta» := note [("deleted", .int deleted), ("idempotent", .bool (deleted == 0))] }
    pure { ok := true, deleted := deleted, idempotent := deleted == 0 }

/-- `AdminUser`. -/
def adminUser : Caller → App User := permissionRequired ["workspace.manage".toList] scopeGlobal

/-- `POST /admin/grants` with its dependencies. -/
def grantRoleRequest (rule : BeginRule) (c : Caller) (req : GrantRoleReq) : App GrantRoleData :=
  getDb do
    let me ← adminUser c
    grantRole rule req me

/-- `DELETE /admin/grants` with its dependencies. -/
def revokeRoleRequest (rule : BeginRule) (c : Caller) (req : GrantRoleReq) : App RevokeRoleData :=
  getDb do
    let me ← adminUser c
    revokeRole rule req me

/-! ## What they commit -/

theorem sameGrant_iff {userId roleId : Int} {scopeKey : Str} {g : UserRoleGrant} :
    sameGrant userId roleId scopeKey g = true ↔
      g.userId = userId ∧ g.roleId = roleId ∧ g.scopeKey = scopeKey := by
  simp [sameGrant, and_assoc]

/-- The database after a grant: the row is there, and nothing else has changed. -/
def GrantedIn (db db' : Database) (userId roleId : Int) (scopeKey : Str) : Prop :=
  ∃ gs, db' = { db with grants := gs } ∧
    (∃ g ∈ gs, sameGrant userId roleId scopeKey g = true) ∧
    ∀ g, sameGrant userId roleId scopeKey g = false → (g ∈ gs ↔ g ∈ db.grants)

theorem insertGrant_spec {g : UserRoleGrant} {db db' : Database} {rc : Int}
    (h : insertGrant g db = .ok (rc, db')) : GrantedIn db db' g.userId g.roleId g.scopeKey := by
  have hself : sameGrant g.userId g.roleId g.scopeKey g = true := sameGrant_iff.mpr ⟨rfl, rfl, rfl⟩
  unfold insertGrant at h
  split at h
  · next hany =>
    cases h
    exact ⟨db.grants, rfl, List.any_eq_true.mp hany, fun _ _ => Iff.rfl⟩
  · split at h
    · cases h
      refine ⟨db.grants ++ [g], rfl, ⟨g, by simp, hself⟩, ?_⟩
      intro g' hg'
      have hne : g' ≠ g := by
        rintro rfl
        rw [hself] at hg'
        cases hg'
      simp [hne]
    · cases h

/-- **`grant_role`**: when it returns, the row of the role's id is there. -/
theorem grantRole_ok {rule : BeginRule} {req : GrantRoleReq} {me : User} {s s' : AppState}
    {data : GrantRoleData} (h : grantRole rule req me s = (.ok data, s')) :
    ∃ role, roleByName s.session.view.roles req.roleName = some role ∧ data.granted = true ∧
      GrantedIn s.session.view s'.session.view req.userId role.id req.scopeKey := by
  simp only [grantRole, Prog.bind_run, select_run] at h
  cases hrole : roleByName s.session.view.roles req.roleName with
  | none =>
    simp only [hrole] at h
    cases h
  | some role =>
    refine ⟨role, rfl, ?_⟩
    simp only [hrole, Prog.bind_run, select_run, State.onSession_session, Session.seeing_view] at h
    cases htarget : userById s.session.view.users req.userId with
    | none =>
      simp only [htarget] at h
      cases h
    | some target =>
      simp only [htarget, Prog.bind_run, select_run, State.onSession_session,
        Session.seeing_view] at h
      by_cases hfound : s.session.view.grants.any (sameGrant req.userId role.id req.scopeKey) = true
      · rw [if_pos hfound] at h
        cases h
        exact ⟨rfl, _, rfl, List.any_eq_true.mp hfound, fun _ _ => Iff.rfl⟩
      · rw [if_neg hfound] at h
        unfold Prog.tryExcept at h
        split at h
        · next a s₁ heq =>
          cases h
          rw [Prog.bind_run] at heq
          split at heq
          · next rc s₂ hblock =>
            cases heq
            obtain ⟨d, hd, hcommitted, htx, -⟩ := beginBlock_execute_ok hblock
            have hview : s₂.session.view = d := by
              simp only [Session.view, htx, hcommitted, Option.getD_none]
            have hspec := insertGrant_spec hd
            exact ⟨rfl, hview ▸ hspec⟩
          · cases heq
        · cases h

/-- **`revoke_role`**: when it returns, the rows of the role's id at that string are gone. -/
theorem revokeRole_ok {rule : BeginRule} {req : GrantRoleReq} {me : User} {s s' : AppState}
    {data : RevokeRoleData} (h : revokeRole rule req me s = (.ok data, s')) {role : Role}
    (hrole : roleByName s.session.view.roles req.roleName = some role) :
    s'.session.view = { s.session.view with
      grants := s.session.view.grants.filter
        fun g => !sameGrant req.userId role.id req.scopeKey g } := by
  simp only [revokeRole, Prog.bind_run, select_run, hrole] at h
  split at h
  · next rc s₁ hblock =>
    cases h
    obtain ⟨d, hd, hcommitted, htx, -⟩ := beginBlock_execute_ok hblock
    cases hd
    show s₁.session.view = _
    simp only [Session.view, htx, hcommitted, Option.getD_none]
    rfl
  · cases h

/-! ## Do the writers and the check agree? -/

/-- `require_perms` for the user on the string looks at this grant. -/
def LookedUp (userId : Int) (scopeKey : Str) (g : UserRoleGrant) : Prop :=
  g.userId = userId ∧ g.scopeKey ∈ scopesWithGlobal scopeKey

/-- The check on the string passes for everything that the role holds. -/
def GrantTakesEffect (userId roleId : Int) (scopeKey : Str) (s : AppState) : Prop :=
  ∀ user : User, user.id = userId → user.isSuperadmin = false → ∀ permCodes,
    (∀ code ∈ permCodes, Attached s.session.view roleId code) →
      (requirePerms user scopeKey permCodes s).1 = .ok ()

/-- The check on the string looks at no grant of the role but a global one. -/
def RevokeTakesEffect (userId roleId : Int) (scopeKey : Str) (s : AppState) : Prop :=
  ∀ g ∈ s.session.view.grants, g.roleId = roleId → g.scopeKey ≠ globalKey →
    ¬LookedUp userId scopeKey g

/-- A string that is not stripped is none of the keys that a check on it looks at. -/
theorem notMem_scopesWithGlobal {scopeKey : Str} (h : strip scopeKey ≠ scopeKey) :
    scopeKey ∉ scopesWithGlobal scopeKey := by
  rw [mem_scopesWithGlobal]
  rintro (hglobal | ⟨hself, -⟩)
  · rw [hglobal, strip_globalKey] at h
    exact h rfl
  · exact h hself.symm

/-- Coverage after a grant: by what covered before, or at the string itself. -/
theorem GrantedIn.covered_iff {db db' : Database} {userId roleId : Int} {scopeKey : Str}
    (h : GrantedIn db db' userId roleId scopeKey) (scopes : List Str) (code : Str) :
    Covered db' userId scopes code ↔
      Covered db userId scopes code ∨ (scopeKey ∈ scopes ∧ Attached db roleId code) := by
  obtain ⟨gs, rfl, ⟨g₀, hg₀, hsame₀⟩, hothers⟩ := h
  obtain ⟨hu₀, hr₀, hs₀⟩ := sameGrant_iff.mp hsame₀
  constructor
  · rintro ⟨g, hg, hu, hs, hatt⟩
    cases hsame : sameGrant userId roleId scopeKey g with
    | false => exact Or.inl ⟨g, (hothers g hsame).mp hg, hu, hs, hatt⟩
    | true =>
      obtain ⟨-, hr, hkey⟩ := sameGrant_iff.mp hsame
      exact Or.inr ⟨hkey ▸ hs, hr ▸ hatt⟩
  · rintro (⟨g, hg, hu, hs, hatt⟩ | ⟨hs, hatt⟩)
    · cases hsame : sameGrant userId roleId scopeKey g with
      | false => exact ⟨g, (hothers g hsame).mpr hg, hu, hs, hatt⟩
      | true =>
        obtain ⟨-, hr, hkey⟩ := sameGrant_iff.mp hsame
        exact ⟨g₀, hg₀, hu₀, (hs₀.trans hkey.symm) ▸ hs, (hr₀.trans hr.symm) ▸ hatt⟩
    · exact ⟨g₀, hg₀, hu₀, hs₀.symm ▸ hs, hr₀.symm ▸ hatt⟩

/-- A grant takes effect at a stripped string, or where it was not needed. -/
theorem grant_takes_effect_iff {rule : BeginRule} {req : GrantRoleReq} {me : User} {s s' : AppState}
    {data : GrantRoleData} (h : grantRole rule req me s = (.ok data, s')) {role : Role}
    (hrole : roleByName s.session.view.roles req.roleName = some role) :
    GrantTakesEffect req.userId role.id req.scopeKey s' ↔
      strip req.scopeKey = req.scopeKey ∨ ∀ code, Attached s.session.view role.id code →
        Covered s.session.view req.userId (scopesWithGlobal req.scopeKey) code := by
  obtain ⟨role', hrole', -, hgranted⟩ := grantRole_ok h
  rw [hrole] at hrole'
  cases hrole'
  have hcovered := hgranted.covered_iff (scopesWithGlobal req.scopeKey)
  have hattached : ∀ code, Attached s'.session.view role.id code ↔
      Attached s.session.view role.id code := by
    obtain ⟨gs, heq, -⟩ := hgranted
    intro code
    rw [heq]
    rfl
  constructor
  · intro heffect
    by_cases hstrip : strip req.scopeKey = req.scopeKey
    · exact Or.inl hstrip
    · refine Or.inr fun code hatt => ?_
      have hok := heffect ⟨req.userId, [], [], true, false⟩ rfl rfl [code] (by
        simpa using (hattached code).mpr hatt)
      rw [requirePerms_ok_iff] at hok
      rcases hok with hsuper | hall
      · cases hsuper
      · rcases (hcovered code).mp (hall code List.mem_cons_self) with hold | ⟨hmem, -⟩
        · exact hold
        · exact absurd hmem (notMem_scopesWithGlobal hstrip)
  · intro hcond user huser _ permCodes hcodes
    rw [requirePerms_ok_iff, Permitted, huser]
    refine Or.inr fun code hcode => (hcovered code).mpr ?_
    have hatt := (hattached code).mp (hcodes code hcode)
    rcases hcond with hstrip | hall
    · have hne : req.scopeKey ≠ [] := List.length_pos_iff.mp req.scopeKey_length.1
      exact Or.inr ⟨mem_scopesWithGlobal.mpr (Or.inr ⟨hstrip.symm, hne⟩), hatt⟩
    · exact Or.inl (hall code hatt)

/-- A revocation takes effect at a stripped string, or where the role is not granted at the
stripped one. -/
theorem revoke_takes_effect_iff {rule : BeginRule} {req : GrantRoleReq} {me : User}
    {s s' : AppState} {data : RevokeRoleData} (h : revokeRole rule req me s = (.ok data, s'))
    {role : Role} (hrole : roleByName s.session.view.roles req.roleName = some role) :
    RevokeTakesEffect req.userId role.id req.scopeKey s' ↔
      strip req.scopeKey = req.scopeKey ∨ strip req.scopeKey = [] ∨
        strip req.scopeKey = globalKey ∨
        ∀ g ∈ s.session.view.grants, sameGrant req.userId role.id (strip req.scopeKey) g = false := by
  have hmem : ∀ g, g ∈ s'.session.view.grants ↔
      g ∈ s.session.view.grants ∧ sameGrant req.userId role.id req.scopeKey g = false := by
    intro g
    rw [revokeRole_ok h hrole]
    simp [List.mem_filter]
  constructor
  · intro heffect
    by_contra hcond
    simp only [not_or, not_forall, Bool.not_eq_false] at hcond
    obtain ⟨hstrip, hnil, hglobal, g, hg, hsame⟩ := hcond
    obtain ⟨hu, hr, hkey⟩ := sameGrant_iff.mp hsame
    have hleft : sameGrant req.userId role.id req.scopeKey g = false := by
      rw [Bool.eq_false_iff, ne_eq, sameGrant_iff]
      rintro ⟨-, -, hkey'⟩
      exact hstrip (hkey.symm.trans hkey')
    refine heffect g ((hmem g).mpr ⟨hg, hleft⟩) hr (hkey ▸ hglobal) ⟨hu, ?_⟩
    exact mem_scopesWithGlobal.mpr (Or.inr ⟨hkey, hkey ▸ hnil⟩)
  · rintro hcond g hg hr hne ⟨hu, hlook⟩
    obtain ⟨hold, hleft⟩ := (hmem g).mp hg
    rcases mem_scopesWithGlobal.mp hlook with hglobal | ⟨hkey, hnil⟩
    · exact hne hglobal
    · have hsame : sameGrant req.userId role.id (strip req.scopeKey) g = true :=
        sameGrant_iff.mpr ⟨hu, hr, hkey⟩
      rcases hcond with hstrip | hempty | hglobal | hnone
      · rw [hstrip, hleft] at hsame
        cases hsame
      · exact hnil (hkey.trans hempty)
      · exact hne (hkey.trans hglobal)
      · rw [hnone g hold] at hsame
        cases hsame

/--
**Grant, check and revoke agree on the scope** at every string that carries no blanks around it,
and at others only by accident.
-/
theorem grants_agree_iff (rule : BeginRule) (req : GrantRoleReq) (me : User) (role : Role) :
    (∀ s s' data, roleByName s.session.view.roles req.roleName = some role →
      grantRole rule req me s = (.ok data, s') → data.granted = true →
      (GrantTakesEffect req.userId role.id req.scopeKey s' ↔
        strip req.scopeKey = req.scopeKey ∨ ∀ code, Attached s.session.view role.id code →
          Covered s.session.view req.userId (scopesWithGlobal req.scopeKey) code)) ∧
      ∀ s s' data, roleByName s.session.view.roles req.roleName = some role →
        revokeRole rule req me s = (.ok data, s') →
        (RevokeTakesEffect req.userId role.id req.scopeKey s' ↔
          strip req.scopeKey = req.scopeKey ∨ strip req.scopeKey = [] ∨
            strip req.scopeKey = globalKey ∨
            ∀ g ∈ s.session.view.grants,
              sameGrant req.userId role.id (strip req.scopeKey) g = false) :=
  ⟨fun _ _ _ hrole h _ => grant_takes_effect_iff h hrole,
    fun _ _ _ hrole h => revoke_takes_effect_iff h hrole⟩

/-! ## A database with one role -/

def superadmin : User :=
  { member with id := 1, email := "root@corp.example".toList, isSuperadmin := true }

def editor : Role := { id := 3, name := "editor".toList, description := none }

def corpDb : Database :=
  { users := [superadmin, member]
    roles := [editor]
    permissions := [{ id := 5, code := "doc.read".toList, description := none }]
    rolePermissions := [{ roleId := 3, permId := 5 }]
    grants := [], workspaces := [], projects := [], assets := [], jobs := [] }

def corpState : AppState :=
  { session := .idle corpDb, rest := { ctx := .cleared, audit := some [], words := asciiWords } }

/-- The scope key as it may come out of a form: with a blank behind it. -/
def paddedReq : GrantRoleReq :=
  { userId := 7, roleName := "editor".toList, scopeKey := "workspace:3 ".toList
    roleName_length := by decide, scopeKey_length := by decide }

/-- The grant has been stored under that string. -/
def paddedState : AppState :=
  { session := .idle { corpDb with
      grants := [{ userId := 7, roleId := 3, scopeKey := paddedReq.scopeKey, createdBy := some 1 }] }
    rest := corpState.rest }

/-- However `begin()` behaves, the grant is answered, and the check on the same string denies. -/
theorem paddedGrant_run (rule : BeginRule) : ∃ s', grantRole rule paddedReq superadmin paddedState
    = (.ok { granted := true, idempotent := true }, s') ∧
      (requirePerms member paddedReq.scopeKey ["doc.read".toList] s').1
        = .error (roleRequired paddedReq.scopeKey) :=
  ⟨_, rfl, rfl⟩

theorem grants_agree_iff_padded : ∃ s' data,
    grantRole .refuse paddedReq superadmin paddedState = (.ok data, s') ∧
      (GrantTakesEffect 7 3 paddedReq.scopeKey s' ↔
        strip paddedReq.scopeKey = paddedReq.scopeKey ∨
          ∀ code, Attached paddedState.session.view 3 code →
            Covered paddedState.session.view 7 (scopesWithGlobal paddedReq.scopeKey) code) := by
  obtain ⟨s', hs', -⟩ := paddedGrant_run .refuse
  exact ⟨s', _, hs',
    (grants_agree_iff .refuse paddedReq superadmin editor).1 paddedState s' _ rfl hs' rfl⟩

theorem padded_grant_without_effect :
    ¬∀ (rule : BeginRule) (req : GrantRoleReq) (me : User) (role : Role) (s s' : AppState)
      (data : GrantRoleData), roleByName s.session.view.roles req.roleName = some role →
      grantRole rule req me s = (.ok data, s') → data.granted = true →
      GrantTakesEffect req.userId role.id req.scopeKey s' := by
  intro h
  obtain ⟨s', hs', hdenied⟩ := paddedGrant_run .refuse
  have heffect := h .refuse paddedReq superadmin editor paddedState s' _ rfl hs' rfl
  have hattached : ∀ code ∈ ["doc.read".toList], Attached s'.session.view 3 code := by
    obtain ⟨-, -, -, gs, heq, -⟩ := grantRole_ok hs'
    rw [heq]
    rintro code hcode
    obtain rfl := List.mem_singleton.mp hcode
    exact ⟨_, List.mem_cons_self, rfl, _, List.mem_cons_self, rfl, rfl⟩
  have hok := heffect member rfl rfl _ hattached
  rw [hdenied] at hok
  cases hok

end EnterpriseAssistant.Admin
