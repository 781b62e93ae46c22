import EnterpriseAssistant.Infra.App
import EnterpriseAssistant.Authz.ScopeKeys

/-!
# Permission checks

`require_perms` of `app/modules/authz/service.py`.

* `requirePerms_ok_iff` — the check passes exactly when every code is covered by a grant at the
  scope or at the global one
* `scopes_isolated` — a role granted at one scope says nothing at another
-/

namespace EnterpriseAssistant.Authz

open Py Core Auth Audit Infra Program SqlSession

/-! ## The check -/

/-- `select(UserRoleGrant.role_id)` of a user at some scopes. -/
def grantedRoleIds (db : Database) (userId : Int) (scopes : List Str) : List Int :=
  (db.grants.filter fun g => g.userId == userId && scopes.contains g.scopeKey).map fun g => g.roleId

/-- `select(Permission.code)` joined with the pairs of some roles. -/
def heldCodes (db : Database) (roleIds : List Int) (permCodes : List Str) : List Str :=
  db.permissions.flatMap fun p =>
    (db.rolePermissions.filter fun rp =>
      rp.permId == p.id && roleIds.contains rp.roleId && permCodes.contains p.code).map fun _ => p.code

/-- The codes that are not held, in the given order. -/
def missingCodes (held permCodes : List Str) : List Str :=
  permCodes.filter fun p => !held.contains p

def requirePerms (user : User) (scopeKey : Str) (permCodes : List Str) : App Unit :=
  if user.isSuperadmin then pure ()
  else if permCodes = [] then pure ()
  else do
    let roleIds ← select fun db => grantedRoleIds db user.id (scopesWithGlobal scopeKey)
    if roleIds = [] then do
      record
        { action := "rbac.role_required", status := "deny", httpStatus := some 403
          «meta» := some [("scope_key", .str scopeKey), ("user_id", .int user.id)]
          errorCode := some "rbac.role_required".toList }
      raiseErr "rbac.role_required" none none (some [("scope_key", .str scopeKey)])
    else do
      let held ← select fun db => heldCodes db roleIds permCodes
      if missingCodes held permCodes = [] then pure ()
      else do
        record
          { action := "rbac.permission_missing", status := "deny", httpStatus := some 403
            «meta» := some [("scope_key", .str scopeKey),
              ("missing", .strs (missingCodes held permCodes)), ("user_id", .int user.id)]
            errorCode := some "rbac.permission_missing".toList }
        raiseErr "rbac.permission_missing" none none
          (some [("scope_key", .str scopeKey), ("missing", .strs (missingCodes held permCodes))])

/-! ## What is looked up -/

/-- The permission with this code is one of the role's. -/
def Attached (db : Database) (roleId : Int) (code : Str) : Prop :=
  ∃ p ∈ db.permissions, p.code = code ∧
    ∃ rp ∈ db.rolePermissions, rp.roleId = roleId ∧ rp.permId = p.id

/-- The roles, permissions and pairs of one database in another. -/
structure SameRoles (db db' : Database) : Prop where
  roles : db'.roles = db.roles
  permissions : db'.permissions = db.permissions
  rolePermissions : db'.rolePermissions = db.rolePermissions

theorem SameRoles.attached_iff {db db' : Database} (h : SameRoles db db') (roleId : Int)
    (code : Str) : Attached db' roleId code ↔ Attached db roleId code := by
  simp only [Attached, h.permissions, h.rolePermissions]

/-- A grant of the user at one of the scopes has a role with this permission. -/
def Covered (db : Database) (userId : Int) (scopes : List Str) (code : Str) : Prop :=
  ∃ g ∈ db.grants, g.userId = userId ∧ g.scopeKey ∈ scopes ∧ Attached db g.roleId code

/-- What `require_perms` lets pass. -/
def Permitted (db : Database) (user : User) (scopeKey : Str) (permCodes : List Str) : Prop :=
  user.isSuperadmin = true ∨ ∀ code ∈ permCodes, Covered db user.id (scopesWithGlobal scopeKey) code

theorem mem_grantedRoleIds {db : Database} {userId : Int} {scopes : List Str} {r : Int} :
    r ∈ grantedRoleIds db userId scopes ↔
      ∃ g ∈ db.grants, g.userId = userId ∧ g.scopeKey ∈ scopes ∧ g.roleId = r := by
  simp only [grantedRoleIds, List.mem_map, List.mem_filter, Bool.and_eq_true, beq_iff_eq,
    List.contains_iff_mem]
  constructor
  · rintro ⟨g, ⟨hg, hu, hs⟩, hr⟩
    exact ⟨g, hg, hu, hs, hr⟩
  · rintro ⟨g, hg, hu, hs, hr⟩
    exact ⟨g, ⟨hg, hu, hs⟩, hr⟩

theorem mem_heldCodes {db : Database} {roleIds : List Int} {permCodes : List Str} {code : Str} :
    code ∈ heldCodes db roleIds permCodes ↔
      code ∈ permCodes ∧ ∃ r ∈ roleIds, Attached db r code := by
  simp only [heldCodes, List.mem_flatMap, List.mem_map, List.mem_filter, Bool.and_eq_true,
    beq_iff_eq, List.contains_iff_mem]
  constructor
  · rintro ⟨p, hp, rp, ⟨hrp, ⟨hperm, hrole⟩, hcode⟩, rfl⟩
    exact ⟨hcode, rp.roleId, hrole, p, hp, rfl, rp, hrp, rfl, hperm⟩
  · rintro ⟨hcode, r, hr, p, hp, rfl, rp, hrp, rfl, hperm⟩
    exact ⟨p, hp, rp, ⟨hrp, ⟨hperm, hr⟩, hcode⟩, rfl⟩

/-- What the two selects together find is what is covered. -/
theorem mem_heldCodes_granted {db : Database} {userId : Int} {scopes permCodes : List Str}
    {code : Str} :
    code ∈ heldCodes db (grantedRoleIds db userId scopes) permCodes ↔
      code ∈ permCodes ∧ Covered db userId scopes code := by
  rw [mem_heldCodes]
  refine and_congr_right fun _ => ?_
  constructor
  · rintro ⟨r, hr, hatt⟩
    obtain ⟨g, hg, hu, hs, rfl⟩ := mem_grantedRoleIds.mp hr
    exact ⟨g, hg, hu, hs, hatt⟩
  · rintro ⟨g, hg, hu, hs, hatt⟩
    exact ⟨g.roleId, mem_grantedRoleIds.mpr ⟨g, hg, hu, hs, rfl⟩, hatt⟩

theorem missingCodes_eq_nil {held permCodes : List Str} :
    missingCodes held permCodes = [] ↔ ∀ code ∈ permCodes, code ∈ held := by
  simp [missingCodes, List.filter_eq_nil_iff]

/-! ## What the check answers -/

/-- Without a role at the scopes nothing is covered. -/
theorem not_covered_of_no_role {db : Database} {userId : Int} {scopes : List Str}
    (h : grantedRoleIds db userId scopes = []) (code : Str) : ¬Covered db userId scopes code := by
  rintro ⟨g, hg, hu, hs, -⟩
  have hmem := mem_grantedRoleIds.mpr ⟨g, hg, hu, hs, rfl⟩
  rw [h] at hmem
  cases hmem

/-- **`require_perms` passes exactly what is permitted.** -/
theorem requirePerms_ok_iff (user : User) (scopeKey : Str) (permCodes : List Str) (s : AppState) :
    (requirePerms user scopeKey permCodes s).1 = .ok () ↔
      Permitted s.session.view user scopeKey permCodes := by
  unfold requirePerms Permitted
  split
  · next hsuper => simp [hsuper]
  · next hsuper =>
    split
    · next hnil => simp [hnil]
    · next hcons =>
      simp only [hsuper, Bool.false_eq_true, false_or, Prog.bind_run, select_run]
      split
      · next hroles =>
        refine iff_of_false ?_ ?_
        · simp [Prog.bind_run, record, raiseErr]
        · intro hall
          obtain ⟨code, hcode⟩ := List.exists_mem_of_ne_nil _ hcons
          exact not_covered_of_no_role hroles code (hall code hcode)
      · have hiff : missingCodes (heldCodes s.session.view (grantedRoleIds s.session.view user.id
            (scopesWithGlobal scopeKey)) permCodes) permCodes = [] ↔
            ∀ code ∈ permCodes, Covered s.session.view user.id (scopesWithGlobal scopeKey) code := by
          rw [missingCodes_eq_nil]
          exact forall₂_congr fun code hcode => by
            rw [mem_heldCodes_granted, and_iff_right hcode]
        simp only [Prog.bind_run, select_run, State.onSession_session, Session.seeing_view]
        split
        · next hmissing => exact iff_of_true rfl (hiff.mp hmissing)
        · next hmissing =>
          refine iff_of_false ?_ (fun hall => hmissing (hiff.mpr hall))
          simp [Prog.bind_run, record, raiseErr]

/-- The error of a user who has no role at the scope. -/
def roleRequired (scopeKey : Str) : Exn :=
  .app (err "rbac.role_required" none none (some [("scope_key", .str scopeKey)]))

theorem requirePerms_no_role {user : User} {scopeKey : Str} {permCodes : List Str} {s : AppState}
    (hsuper : user.isSuperadmin = false) (hcodes : permCodes ≠ [])
    (hroles : grantedRoleIds s.session.view user.id (scopesWithGlobal scopeKey) = []) :
    (requirePerms user scopeKey permCodes s).1 = .error (roleRequired scopeKey) := by
  unfold requirePerms
  rw [hsuper, if_neg Bool.false_ne_true, if_neg hcodes, Prog.bind_run, select_run]
  simp only [hroles, if_true]
  rfl

/-! ## Scopes do not leak -/

/-- The user has been granted one role, at one scope. -/
def OnlyGrant (db : Database) (userId roleId : Int) (scopeKey : Str) : Prop :=
  (∃ g ∈ db.grants, g.userId = userId) ∧
    ∀ g ∈ db.grants, g.userId = userId → g.roleId = roleId ∧ g.scopeKey = scopeKey

theorem OnlyGrant.covered_iff {db : Database} {userId roleId : Int} {scopeKey : Str}
    (h : OnlyGrant db userId roleId scopeKey) {scopes : List Str} (hscope : scopeKey ∈ scopes)
    (code : Str) : Covered db userId scopes code ↔ Attached db roleId code := by
  constructor
  · rintro ⟨g, hg, hu, -, hatt⟩
    rwa [(h.2 g hg hu).1] at hatt
  · intro hatt
    obtain ⟨g, hg, hu⟩ := h.1
    obtain ⟨hrole, hkey⟩ := h.2 g hg hu
    exact ⟨g, hg, hu, hkey ▸ hscope, hrole ▸ hatt⟩

theorem OnlyGrant.no_role {db : Database} {userId roleId : Int} {scopeKey : Str}
    (h : OnlyGrant db userId roleId scopeKey) {scopes : List Str} (hscope : scopeKey ∉ scopes) :
    grantedRoleIds db userId scopes = [] := by
  rw [List.eq_nil_iff_forall_not_mem]
  intro r hr
  obtain ⟨g, hg, hu, hs, -⟩ := mem_grantedRoleIds.mp hr
  exact hscope ((h.2 g hg hu).2 ▸ hs)

/--
**Scope isolation.**

A role granted at one scope gives nothing at any other, and granted at the global scope it gives
at every scope exactly what the role holds.
-/
theorem scopes_isolated {d : ScopeDescriptor} (hd : d ≠ .global) (d' : ScopeDescriptor)
    {user : User} (hsuper : user.isSuperadmin = false) {permCodes : List Str}
    (hcodes : permCodes ≠ []) :
    ∃ k k' kGlobal, d.build = .ok k ∧ d'.build = .ok k' ∧
      ScopeDescriptor.global.build = .ok kGlobal ∧
      ∀ (s : AppState) (roleId : Int),
        (OnlyGrant s.session.view user.id roleId k → d' ≠ d →
          (requirePerms user k' permCodes s).1 = .error (roleRequired k')) ∧
        (OnlyGrant s.session.view user.id roleId kGlobal →
          ((requirePerms user k' permCodes s).1 = .ok () ↔
            ∀ code ∈ permCodes, Attached s.session.view roleId code)) := by
  refine ⟨d.key, d'.key, globalKey, d.build_eq, d'.build_eq, rfl, ?_⟩
  intro s roleId
  constructor
  · intro honly hne
    refine requirePerms_no_role hsuper hcodes (honly.no_role ?_)
    rw [d'.mem_scopesWithGlobal_key]
    rintro (h | h)
    · have hkeys : d.key = ScopeDescriptor.global.key := h
      exact hd (ScopeDescriptor.key_injective hkeys)
    · exact hne (ScopeDescriptor.key_injective h).symm
  · intro honly
    have hscope : globalKey ∈ scopesWithGlobal d'.key :=
      d'.mem_scopesWithGlobal_key.mpr (Or.inl rfl)
    rw [requirePerms_ok_iff, Permitted, hsuper]
    simp only [Bool.false_eq_true, false_or, honly.covered_iff hscope]

def member : User :=
  { id := 7, email := "member@corp.example".toList, passwordHash := [], isActive := true
    isSuperadmin := false }

/-- A role that permits to read documents is granted to the member, at one scope. -/
def readerAt (scopeKey : Str) : AppState where
  session := .idle
    { users := [member], roles := [{ id := 4, name := "reader".toList, description := none }]
      permissions := [{ id := 9, code := "doc.read".toList, description := none }]
      rolePermissions := [{ roleId := 4, permId := 9 }]
      grants := [{ userId := 7, roleId := 4, scopeKey := scopeKey, createdBy := none }]
      workspaces := [3], projects := [3], assets := [], jobs := [] }
  rest := .empty

theorem onlyGrant_readerAt (scopeKey : Str) :
    OnlyGrant (readerAt scopeKey).session.view member.id 4 scopeKey := by
  refine ⟨⟨_, List.mem_cons_self, rfl⟩, fun g hg _ => ?_⟩
  cases List.mem_singleton.mp hg
  exact ⟨rfl, rfl⟩

/-- In workspace 3 the role gives nothing for project 3, globally it does. -/
theorem scopes_isolated_workspace_project :
    (requirePerms member "project:3".toList ["doc.read".toList]
        (readerAt "workspace:3".toList)).1 = .error (roleRequired "project:3".toList) ∧
      (requirePerms member "project:3".toList ["doc.read".toList] (readerAt globalKey)).1
        = .ok () := by
  have hworkspace : ScopeDescriptor.workspace 3 ≠ .global := fun h => ScopeDescriptor.noConfusion h
  have hne : ScopeDescriptor.project 3 ≠ .workspace 3 := fun h => ScopeDescriptor.noConfusion h
  have hmember : member.isSuperadmin = false := rfl
  obtain ⟨k, k', kGlobal, hk, hk', hglobal, hall⟩ :=
    scopes_isolated hworkspace (.project 3) hmember
      (List.cons_ne_nil "doc.read".toList [])
  obtain rfl : k = "workspace:3".toList := (Except.ok.inj hk).symm
  obtain rfl : k' = "project:3".toList := (Except.ok.inj hk').symm
  obtain rfl : kGlobal = globalKey := (Except.ok.inj hglobal).symm
  refine ⟨(hall _ 4).1 (onlyGrant_readerAt _) hne,
    ((hall _ 4).2 (onlyGrant_readerAt _)).mpr fun code hcode => ?_⟩
  cases List.mem_singleton.mp hcode
  exact ⟨_, List.mem_cons_self, rfl, _, List.mem_cons_self, rfl, rfl⟩

end EnterpriseAssistant.Authz
