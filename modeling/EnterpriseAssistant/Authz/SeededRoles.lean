import EnterpriseAssistant.Authz.Seeded
import EnterpriseAssistant.Authz.Decision

/-!
# What the seeded roles permit

`sync_authz` and `require_perms` together: what a grant of a role is worth once the seed is there.

* `attached_seeded_iff` — a role permits what the seed gives it and what it permitted before
* `seeding_decides` — which checks pass behind a seeding
-/

namespace EnterpriseAssistant.Authz

open Py Core Auth Infra Program SqlSession

/-- `DEFAULT_ROLE_PERMS` gives the role of this name the permission of this code. -/
def SeedGives (name code : Str) : Prop := ∃ x ∈ defaultRolePerms, x.1 = name ∧ code ∈ x.2

instance (name code : Str) : Decidable (SeedGives name code) :=
  inferInstanceAs (Decidable (∃ x ∈ defaultRolePerms, x.1 = name ∧ code ∈ x.2))

/-- The foreign key of the pairs on the permissions. -/
def PairsRefer (db : Database) : Prop :=
  ∀ rp ∈ db.rolePermissions, ∃ p ∈ db.permissions, p.id = rp.permId

instance (db : Database) : Decidable (PairsRefer db) :=
  inferInstanceAs (Decidable (∀ rp ∈ db.rolePermissions, ∃ p ∈ db.permissions, p.id = rp.permId))

/-! ## One role -/

section Roles

variable {db db' : Database}

/-- A pair from before permits what it has permitted. -/
theorem Seeded.attached_of_old (h : Seeded db db') (hrefer : PairsRefer db) {rp : RolePermission}
    (hrp : rp ∈ db.rolePermissions) {p : Permission} (hp : p ∈ db'.permissions)
    (hid : rp.permId = p.id) : Attached db rp.roleId p.code := by
  obtain ⟨p₀, hp₀, hid₀⟩ := hrefer rp hrp
  obtain ⟨p', hp', hid', hcode'⟩ := h.permissionsKept p₀ hp₀
  have hsame : p' = p :=
    List.inj_on_of_nodup_map h.constraints.permissionIds hp' hp (hid'.trans (hid₀.trans hid))
  exact ⟨p₀, hp₀, hcode'.symm.trans (congrArg Permission.code hsame), rp, hrp, rfl, hid₀.symm⟩

/-- An added pair permits what the seed gives its role. -/
theorem Seeded.gives_of_added (h : Seeded db db') {rp : RolePermission}
    (hpair : DefaultPair db'.roles db'.permissions rp) {r : Role} (hr : r ∈ db'.roles)
    (hrole : rp.roleId = r.id) {p : Permission} (hp : p ∈ db'.permissions)
    (hid : rp.permId = p.id) : SeedGives r.name p.code := by
  obtain ⟨x, hx, code, hcode, role, hmem, permission, hmem', hname, hpc, rfl⟩ := hpair
  have hr' : role = r := List.inj_on_of_nodup_map h.constraints.roleIds hmem hr hrole
  have hp' : permission = p :=
    List.inj_on_of_nodup_map h.constraints.permissionIds hmem' hp hid
  exact ⟨x, hx, hname.symm.trans (congrArg Role.name hr'), hp' ▸ hpc ▸ hcode⟩

/-- **A role permits what the seed gives it, and what it permitted before.** -/
theorem attached_seeded_iff (h : Seeded db db') (hrefer : PairsRefer db) {r : Role}
    (hr : r ∈ db'.roles) (code : Str) :
    Attached db' r.id code ↔ SeedGives r.name code ∨ Attached db r.id code := by
  obtain ⟨added, hpairs, hadded⟩ := h.pairs
  constructor
  · rintro ⟨p, hp, rfl, rp, hrp, hrole, hid⟩
    rw [hpairs] at hrp
    rcases List.mem_append.mp hrp with hold | hnew
    · exact Or.inr (hrole ▸ h.attached_of_old hrefer hold hp hid)
    · exact Or.inl (h.gives_of_added (hadded rp hnew).2 hr hrole hp hid)
  · rintro (⟨x, hx, hname, hcode⟩ | ⟨p, hp, hcode, rp, hrp, hrole, hid⟩)
    · obtain ⟨r', hr', p, hp, hname', hpc, hmem⟩ := h.defaultPairs x hx code hcode
      have hsame : r' = r :=
        List.inj_on_of_nodup_map h.constraints.roleNames hr' hr (hname'.trans hname)
      exact ⟨p, hp, hpc, _, hmem, congrArg Role.id hsame, rfl⟩
    · obtain ⟨p', hp', hid', hcode'⟩ := h.permissionsKept p hp
      refine ⟨p', hp', hcode'.trans hcode, rp, ?_, hrole, hid.trans hid'.symm⟩
      rw [hpairs]
      exact List.mem_append_left _ hrp

end Roles

/-! ## A check -/

/-- A grant of the user that counts at the scope, with its role. -/
def GrantedRole (db : Database) (userId : Int) (scopeKey : Str) (r : Role) : Prop :=
  r ∈ db.roles ∧ ∃ g ∈ db.grants, g.userId = userId ∧ CountsAt scopeKey g.scopeKey ∧ g.roleId = r.id

/--
**What a check decides behind a seeding.**  However the grants have changed since, as long as each
is for a role that exists: a user passes exactly when every code is one that the seed gives a role
of theirs at the scope or at the global one, or one that the role had before the seeding.
-/
theorem seeding_decides (rule : BeginRule) (rest : Ambient) {db : Database} (h : Constraints db)
    (hrefer : PairsRefer db) :
    ∃ db', Syncs rule rest db db' ∧ ∀ s : AppState, SameRoles db' s.session.view →
      (∀ g ∈ s.session.view.grants, ∃ r ∈ s.session.view.roles, r.id = g.roleId) →
      ∀ (user : User) (scopeKey : Str) (permCodes : List Str),
        (requirePerms user scopeKey permCodes s).1 = .ok () ↔
          user.isSuperadmin = true ∨ permCodes = [] ∨ ∀ code ∈ permCodes, ∃ r,
            GrantedRole s.session.view user.id scopeKey r ∧
              (SeedGives r.name code ∨ Attached db r.id code) := by
  refine ⟨synced db, syncAuthz_run rule rest h, fun s hsame hgrants user scopeKey permCodes => ?_⟩
  have hallowed : ∀ code, Allowed s.session.view user.id scopeKey code ↔ ∃ r,
      GrantedRole s.session.view user.id scopeKey r ∧
        (SeedGives r.name code ∨ Attached db r.id code) := by
    intro code
    constructor
    · rintro ⟨g, hg, huser, hcounts, hattached⟩
      -- the grant is for a role of the seeding, and nothing has touched the pairs since
      obtain ⟨r, hr, hid⟩ := hgrants g hg
      rw [← hid, hsame.attached_iff, attached_seeded_iff (seeded_synced h) hrefer
        (hsame.roles ▸ hr)] at hattached
      exact ⟨r, ⟨hr, g, hg, huser, hcounts, hid.symm⟩, hattached⟩
    · rintro ⟨r, ⟨hr, g, hg, huser, hcounts, hid⟩, hpermits⟩
      refine ⟨g, hg, huser, hcounts, ?_⟩
      rw [hid, hsame.attached_iff, attached_seeded_iff (seeded_synced h) hrefer (hsame.roles ▸ hr)]
      exact hpermits
  rw [requirePerms_eq]
  have hpasses : Passes s.session.view user scopeKey permCodes ↔ user.isSuperadmin = true ∨
      permCodes = [] ∨ ∀ code ∈ permCodes, ∃ r, GrantedRole s.session.view user.id scopeKey r ∧
        (SeedGives r.name code ∨ Attached db r.id code) := by
    simp only [Passes, hallowed]
  rw [← hpasses]
  by_cases hpass : Passes s.session.view user scopeKey permCodes
  · simp [hpass]
  · by_cases hrole : HasRole s.session.view user.id scopeKey
    · simp [hpass, hrole]
    · simp [hpass, hrole]

/-- The permission that is not seeded is still the one of the roles that had it. -/
theorem seeding_decides_customised :
    ∃ db', Syncs .refuse .empty customised db' ∧
      ∀ s : AppState, SameRoles db' s.session.view →
        (∀ g ∈ s.session.view.grants, ∃ r ∈ s.session.view.roles, r.id = g.roleId) →
        ((requirePerms reader globalKey ["report.read".toList] s).1 = .ok () ↔
          ∃ r, GrantedRole s.session.view reader.id globalKey r ∧
            Attached customised r.id "report.read".toList) := by
  have hnone : ∀ name, ¬SeedGives name "report.read".toList := by
    have hall : ∀ x ∈ defaultRolePerms, "report.read".toList ∉ x.2 := by decide
    rintro name ⟨x, hx, -, hcode⟩
    exact hall x hx hcode
  obtain ⟨db', hsyncs, hdecides⟩ := @seeding_decides .refuse .empty
    customised ⟨by decide, by decide, by decide, by decide, by decide⟩ (by decide)
  refine ⟨db', hsyncs, fun s hsame hgrants => ?_⟩
  have hsuper : reader.isSuperadmin = false := rfl
  rw [hdecides s hsame hgrants]
  simp only [hsuper, Bool.false_eq_true, reduceCtorEq, false_or, List.mem_singleton, forall_eq,
    hnone]

end EnterpriseAssistant.Authz
