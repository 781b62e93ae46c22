import EnterpriseAssistant.Authz.Service

/-!
# What a permission check decides

`require_perms` against the role relation: a code is allowed when a grant of the user, at the scope
of the check or at the global one, has a role with the permission of this code.

* `requirePerms_eq` — the outcome of the check, as a function of that relation
* `requirePerms_decides` — when it passes, and which error it raises otherwise
-/

namespace EnterpriseAssistant.Authz

open Py Core Auth Audit Infra Program SqlSession

/-! ## The relation -/

/-- A grant with the key `k` counts for a check at `scopeKey`. -/
def CountsAt (scopeKey k : Str) : Prop := k = globalKey ∨ (k = strip scopeKey ∧ k ≠ [])

instance (scopeKey k : Str) : Decidable (CountsAt scopeKey k) := inferInstanceAs (Decidable (_ ∨ _))

/-- The user has a role, whatever it permits. -/
def HasRole (db : Database) (userId : Int) (scopeKey : Str) : Prop :=
  ∃ g ∈ db.grants, g.userId = userId ∧ CountsAt scopeKey g.scopeKey

instance (db : Database) (roleId : Int) (code : Str) : Decidable (Attached db roleId code) :=
  inferInstanceAs (Decidable (∃ p ∈ db.permissions, p.code = code ∧
    ∃ rp ∈ db.rolePermissions, rp.roleId = roleId ∧ rp.permId = p.id))

/-- The user has a role with the permission of this code. -/
def Allowed (db : Database) (userId : Int) (scopeKey code : Str) : Prop :=
  ∃ g ∈ db.grants, g.userId = userId ∧ CountsAt scopeKey g.scopeKey ∧ Attached db g.roleId code

instance (db : Database) (userId : Int) (scopeKey : Str) : Decidable (HasRole db userId scopeKey) :=
  inferInstanceAs (Decidable (∃ g ∈ db.grants, g.userId = userId ∧ CountsAt scopeKey g.scopeKey))

instance (db : Database) (userId : Int) (scopeKey code : Str) :
    Decidable (Allowed db userId scopeKey code) :=
  inferInstanceAs (Decidable (∃ g ∈ db.grants, g.userId = userId ∧ CountsAt scopeKey g.scopeKey ∧
    Attached db g.roleId code))

/-- What the check lets pass. -/
def Passes (db : Database) (user : User) (scopeKey : Str) (permCodes : List Str) : Prop :=
  user.isSuperadmin = true ∨ permCodes = [] ∨ ∀ code ∈ permCodes, Allowed db user.id scopeKey code

instance (db : Database) (user : User) (scopeKey : Str) (permCodes : List Str) :
    Decidable (Passes db user scopeKey permCodes) := inferInstanceAs (Decidable (_ ∨ _ ∨ _))

/-- The codes that are not allowed, as they were asked for. -/
def refusedCodes (db : Database) (userId : Int) (scopeKey : Str) (permCodes : List Str) :
    List Str :=
  permCodes.filter fun code => !decide (Allowed db userId scopeKey code)

theorem covered_scopesWithGlobal {db : Database} {userId : Int} {scopeKey code : Str} :
    Covered db userId (scopesWithGlobal scopeKey) code ↔ Allowed db userId scopeKey code := by
  simp only [Covered, Allowed, CountsAt, mem_scopesWithGlobal]

theorem grantedRoleIds_eq_nil_iff {db : Database} {userId : Int} {scopeKey : Str} :
    grantedRoleIds db userId (scopesWithGlobal scopeKey) = [] ↔ ¬HasRole db userId scopeKey := by
  rw [List.eq_nil_iff_forall_not_mem]
  constructor
  · rintro hnone ⟨g, hg, hu, hk⟩
    exact hnone g.roleId (mem_grantedRoleIds.mpr ⟨g, hg, hu, mem_scopesWithGlobal.mpr hk, rfl⟩)
  · intro hnone r hr
    obtain ⟨g, hg, hu, hk, -⟩ := mem_grantedRoleIds.mp hr
    exact hnone ⟨g, hg, hu, mem_scopesWithGlobal.mp hk⟩

theorem Allowed.hasRole {db : Database} {userId : Int} {scopeKey code : Str}
    (h : Allowed db userId scopeKey code) : HasRole db userId scopeKey := by
  obtain ⟨g, hg, hu, hk, -⟩ := h
  exact ⟨g, hg, hu, hk⟩

/-- The difference of the codes asked for and the codes found is what is not allowed. -/
theorem missingCodes_held (db : Database) (userId : Int) (scopeKey : Str) (permCodes : List Str) :
    missingCodes (heldCodes db (grantedRoleIds db userId (scopesWithGlobal scopeKey)) permCodes)
      permCodes = refusedCodes db userId scopeKey permCodes := by
  unfold missingCodes refusedCodes
  refine List.filter_congr fun code hcode => ?_
  rw [Bool.not_inj_iff, Bool.eq_iff_iff, List.contains_iff_mem, mem_heldCodes_granted,
    decide_eq_true_eq, covered_scopesWithGlobal, and_iff_right hcode]

theorem refusedCodes_eq_nil_iff {db : Database} {userId : Int} {scopeKey : Str}
    {permCodes : List Str} :
    refusedCodes db userId scopeKey permCodes = [] ↔
      ∀ code ∈ permCodes, Allowed db userId scopeKey code := by
  simp [refusedCodes, List.filter_eq_nil_iff]

/-! ## The outcome -/

/-- The error of a user whose roles lack some of the codes. -/
def permissionMissing (scopeKey : Str) (missing : List Str) : Exn :=
  .app (err "rbac.permission_missing" none none
    (some [("scope_key", .str scopeKey), ("missing", .strs missing)]))

theorem roleRequired_ne_permissionMissing (scopeKey : Str) (missing : List Str) :
    roleRequired scopeKey ≠ permissionMissing scopeKey missing := by
  intro h
  have hcode : "rbac.role_required" = "rbac.permission_missing" :=
    congrArg AppError.code (Exn.app.inj h)
  exact absurd hcode (by decide)

theorem permissionMissing_inj {scopeKey : Str} {missing missing' : List Str} :
    permissionMissing scopeKey missing = permissionMissing scopeKey missing' ↔
      missing = missing' := by
  constructor
  · intro h
    have hmeta := congrArg AppError.meta (Exn.app.inj h)
    simpa [err] using hmeta
  · intro h
    rw [h]

theorem requirePerms_eq (user : User) (scopeKey : Str) (permCodes : List Str) (s : AppState) :
    (requirePerms user scopeKey permCodes s).1 =
      if Passes s.session.view user scopeKey permCodes then .ok ()
      else if HasRole s.session.view user.id scopeKey then
        .error (permissionMissing scopeKey
          (refusedCodes s.session.view user.id scopeKey permCodes))
      else .error (roleRequired scopeKey) := by
  unfold requirePerms
  split
  · next hsuper =>
    have hpass : Passes s.session.view user scopeKey permCodes := Or.inl hsuper
    rw [if_pos hpass]
    rfl
  · next hsuper =>
    split
    · next hnil =>
      have hpass : Passes s.session.view user scopeKey permCodes := Or.inr (Or.inl hnil)
      rw [if_pos hpass]
      rfl
    · next hcons =>
      have hpasses : Passes s.session.view user scopeKey permCodes ↔
          ∀ code ∈ permCodes, Allowed s.session.view user.id scopeKey code := by
        rw [Passes, or_iff_right hsuper, or_iff_right hcons]
      simp only [Prog.bind_run, select_run]
      split
      · next hroles =>
        -- without a role nothing is allowed, and there is a code to ask for
        have hnone := grantedRoleIds_eq_nil_iff.mp hroles
        have hnot : ¬Passes s.session.view user scopeKey permCodes := by
          rw [hpasses]
          intro hall
          obtain ⟨code, hcode⟩ := List.exists_mem_of_ne_nil _ hcons
          exact hnone (hall code hcode).hasRole
        rw [if_neg hnot, if_neg hnone]
        rfl
      · next hroles =>
        have hrole : HasRole s.session.view user.id scopeKey := by
          by_contra hnone
          exact hroles (grantedRoleIds_eq_nil_iff.mpr hnone)
        rw [if_pos hrole]
        simp only [Prog.bind_run, select_run, State.onSession_session, Session.seeing_view,
          missingCodes_held]
        split
        · next hmissing =>
          rw [if_pos (hpasses.mpr (refusedCodes_eq_nil_iff.mp hmissing))]
          rfl
        · next hmissing =>
          have hnot : ¬Passes s.session.view user scopeKey permCodes := by
            rw [hpasses, ← refusedCodes_eq_nil_iff]
            exact hmissing
          rw [if_neg hnot]
          rfl

/--
**What `require_perms` decides.**

It passes exactly the superadmins, the empty lists, and those who are allowed every code; somebody
without a role is told so, and anybody else which codes are missing.
-/
theorem requirePerms_decides (user : User) (scopeKey : Str) (permCodes : List Str) (s : AppState) :
    ((requirePerms user scopeKey permCodes s).1 = .ok () ↔
        user.isSuperadmin = true ∨ permCodes = [] ∨
          ∀ code ∈ permCodes, Allowed s.session.view user.id scopeKey code) ∧
      ((requirePerms user scopeKey permCodes s).1 = .error (roleRequired scopeKey) ↔
        ¬Passes s.session.view user scopeKey permCodes ∧
          ¬HasRole s.session.view user.id scopeKey) ∧
      ∀ missing,
        ((requirePerms user scopeKey permCodes s).1
            = .error (permissionMissing scopeKey missing) ↔
          ¬Passes s.session.view user scopeKey permCodes ∧
            HasRole s.session.view user.id scopeKey ∧
            missing = refusedCodes s.session.view user.id scopeKey permCodes) := by
  rw [requirePerms_eq]
  by_cases hpass : Passes s.session.view user scopeKey permCodes
  · refine ⟨?_, ?_, fun missing => ?_⟩
    · rw [if_pos hpass]
      exact iff_of_true rfl hpass
    · simp [hpass]
    · simp [hpass]
  · refine ⟨?_, ?_, fun missing => ?_⟩
    · rw [if_neg hpass]
      refine iff_of_false ?_ hpass
      split
      · simp
      · simp
    · by_cases hrole : HasRole s.session.view user.id scopeKey
      · simp [hpass, hrole, (roleRequired_ne_permissionMissing scopeKey _).symm]
      · simp [hpass, hrole]
    · by_cases hrole : HasRole s.session.view user.id scopeKey
      · rw [if_neg hpass, if_pos hrole, Except.error.injEq, permissionMissing_inj,
          and_iff_right hpass, and_iff_right hrole]
        exact eq_comm
      · simp [hpass, hrole, roleRequired_ne_permissionMissing]

/-! ## A grant at the empty key -/

def reader : User :=
  { id := 7, email := "reader@corp.example".toList, passwordHash := [], isActive := true
    isSuperadmin := false }

/-- The reader has a role that permits reading, under the empty key. -/
def blankGrant : AppState :=
  { session := .idle
      { users := [reader], roles := [], permissions := [⟨5, "doc.read".toList, none⟩]
        rolePermissions := [⟨3, 5⟩]
        grants := [{ userId := 7, roleId := 3, scopeKey := [], createdBy := none }]
        workspaces := [], projects := [], assets := [], jobs := [] }
    rest := .empty }

/-- A blank scope is no scope: a grant that is stored under it is not found. -/
theorem blank_scope_not_looked_up :
    ¬∀ (user : User) (scopeKey : Str) (permCodes : List Str) (s : AppState),
      (requirePerms user scopeKey permCodes s).1 = .ok () ↔
        user.isSuperadmin = true ∨ permCodes = [] ∨
          ∀ code ∈ permCodes, ∃ g ∈ s.session.view.grants, g.userId = user.id ∧
            (g.scopeKey = strip scopeKey ∨ g.scopeKey = globalKey) ∧
            Attached s.session.view g.roleId code := by
  intro h
  have hread := (h reader [] ["doc.read".toList] blankGrant).mpr (Or.inr (Or.inr (by decide)))
  have hrefused : (requirePerms reader [] ["doc.read".toList] blankGrant).1
      = .error (roleRequired []) := rfl
  rw [hrefused] at hread
  cases hread

end EnterpriseAssistant.Authz
