import EnterpriseAssistant.Admin.Accounting

/-!
# Where grants come from

The three handlers of `app/modules/admin/routes.py` with their dependencies, interleaved statement
by statement over one database, while other users register.  The permission of a caller is checked
in selects of its own, before the handler makes its first; a grant that is revoked in between does
not stop it.

* `mem_listGrants_iff` — what is listed
* `step_ascribed` — what one step adds, and for whom
* `grants_descend` — every grant descends from an administrator of the beginning
-/

namespace EnterpriseAssistant.Admin.Authority

open Py Core Auth Infra Admin Accounting Authz Interleaving System
open Authn (activeUser)

/-! ## Listing -/

/-- A row of the answer; its `created_at` is not modelled. -/
structure GrantRow where
  userId : Int
  roleName : Str
  scopeKey : Str
  createdBy : Option Int
deriving DecidableEq, Repr

def grantRow (g : UserRoleGrant) (r : Role) : GrantRow :=
  { userId := g.userId, roleName := r.name, scopeKey := g.scopeKey, createdBy := g.createdBy }

/-- The filters of `list_grants`. -/
def listed (userId : Option Int) (scopeKey : Option Str) (g : UserRoleGrant) : Bool :=
  userId.all (fun u => g.userId == u) && scopeKey.all fun k => g.scopeKey == k

/-- `select(..).join(Role, ..)` with its filters, and the loop over the rows. -/
def listGrants (db : Database) (userId : Option Int) (scopeKey : Option Str) : List GrantRow :=
  (db.grants.filter (listed userId scopeKey)).flatMap fun g =>
    (db.roles.filter fun r => r.id == g.roleId).map (grantRow g)

/-! ## Requests -/

inductive Ask where
  | grant (req : GrantRoleReq)
  | revoke (req : GrantRoleReq)
  | list (userId : Option Int) (scopeKey : Option Str)

/-- A request to `/admin/grants`, at its next statement. -/
inductive AdminRequest where
  /-- `get_current_user` has accepted a token of this user, and selects the user -/
  | caller (userId : Int) (ask : Ask)
  /-- the first select of `require_perms` -/
  | roles (me : User) (ask : Ask)
  /-- the second select of `require_perms` -/
  | codes (me : User) (roleIds : List Int) (ask : Ask)
  /-- in `grant_role` or in `revoke_role` -/
  | handling (me : User) (h : Handler)
  /-- in `list_grants`, before its select -/
  | listing (me : User) (userId : Option Int) (scopeKey : Option Str)
  | listed (me : User) (rows : List GrantRow)
  /-- the request has been refused before the handler, or a statement has raised -/
  | failed (e : Option AppError)

/-- A request that has just come in. -/
inductive AdminRequest.Fresh : AdminRequest → Prop where
  | caller (userId : Int) (ask : Ask) : Fresh (.caller userId ask)

def adminCodes : List Str := ["workspace.manage".toList]

/-- The handler behind its dependencies. -/
def Ask.enter (me : User) : Ask → AdminRequest
  | .grant req => .handling me (.grant req me)
  | .revoke req => .handling me (.revoke req me)
  | .list userId scopeKey => .listing me userId scopeKey

def callerStep (db : Database) (userId : Int) (ask : Ask) : AdminRequest :=
  match activeUser db.users userId with
  | none => .failed (some (err "auth.user_inactive"))
  | some me => if me.isSuperadmin then ask.enter me else .roles me ask

def rolesStep (db : Database) (me : User) (ask : Ask) : AdminRequest :=
  let roleIds := grantedRoleIds db me.id (scopesWithGlobal scopeGlobal)
  if roleIds = [] then
    .failed (some (err "rbac.role_required" none none (some [("scope_key", .str scopeGlobal)])))
  else .codes me roleIds ask

def codesStep (db : Database) (me : User) (roleIds : List Int) (ask : Ask) : AdminRequest :=
  let missing := missingCodes (heldCodes db roleIds adminCodes) adminCodes
  if missing = [] then ask.enter me
  else .failed (some (err "rbac.permission_missing" none none
    (some [("scope_key", .str scopeGlobal), ("missing", .strs missing)])))

/-- The grants that are there after a step are observed. -/
abbrev AdminMove := Move Database AdminRequest (List UserRoleGrant)

def stay (db : Database) (r : AdminRequest) : AdminMove :=
  { shared := db, thread := r, obs := [db.grants] }

/-- A step of the handler, in its thread. -/
def handlingMove (me : User) (m : GrantMove) : AdminMove :=
  { shared := m.shared, thread := .handling me m.thread, obs := [m.shared.grants] }

/-- A user who registers is no superadmin, and has an id of its own. -/
def register (db : Database) (user : User) : Option Database :=
  if user.isSuperadmin || (userById db.users user.id).isSome then none
  else some { db with users := db.users ++ [user] }

def adminSystem : System Database AdminRequest Choice User (List UserRoleGrant) where
  step db t r ch :=
    match r, ch with
    | .handling me h, ch => (grantSystem.step db t h ch).map (handlingMove me)
    | .listed _ _, _ => none
    | .failed _, _ => none
    | _, .raises => some (stay db (.failed none))
    | .caller userId ask, .go => some (stay db (callerStep db userId ask))
    | .roles me ask, .go => some (stay db (rolesStep db me ask))
    | .codes me roleIds ask, .go => some (stay db (codesStep db me roleIds ask))
    | .listing me userId scopeKey, .go =>
      some (stay db (.listed me (listGrants db userId scopeKey)))
  env := register

theorem register_spec {db db' : Database} {user : User} (h : register db user = some db') :
    user.isSuperadmin = false ∧ db' = { db with users := db.users ++ [user] } := by
  unfold register at h
  split at h
  · cases h
  next hplain =>
    rw [Bool.or_eq_true, not_or, Bool.not_eq_true] at hplain
    exact ⟨hplain.1, (Option.some.inj h).symm⟩

abbrev AdminConfig := Config Database AdminRequest (List UserRoleGrant)

/-! ## What is listed -/

/-- **`list_grants` lists** the grants that match, each under the name of its role. -/
theorem mem_listGrants_iff {db : Database} {userId : Option Int} {scopeKey : Option Str}
    {row : GrantRow} : row ∈ listGrants db userId scopeKey ↔
      ∃ g ∈ db.grants, listed userId scopeKey g = true ∧
        ∃ r ∈ db.roles, r.id = g.roleId ∧ row = grantRow g r := by
  simp only [listGrants, List.mem_flatMap, List.mem_filter, List.mem_map, beq_iff_eq]
  constructor
  · rintro ⟨g, ⟨hg, hlisted⟩, r, ⟨hr, hid⟩, rfl⟩
    exact ⟨g, hg, hlisted, r, hr, hid, rfl⟩
  · rintro ⟨g, hg, hlisted, r, hr, hid, rfl⟩
    exact ⟨g, ⟨hg, hlisted⟩, r, ⟨hr, hid⟩, rfl⟩

/-! ## Descent -/

/-- The grant makes its user an administrator. -/
def AdminGrant (db : Database) (g : UserRoleGrant) : Prop :=
  g.scopeKey = scopeGlobal ∧ Attached db g.roleId "workspace.manage".toList

/--
The users whose administration goes back to the beginning: superadmins and administrators there, and
those who have been made administrators by such a user.
-/
inductive Rooted (db : Database) (past : List (List UserRoleGrant)) : Int → Prop where
  | superadmin {u : User} (hu : u ∈ db.users) (hsuper : u.isSuperadmin = true) :
    Rooted db past u.id
  | initial {g : UserRoleGrant} (hg : g ∈ db.grants) (hadmin : AdminGrant db g) :
    Rooted db past g.userId
  | granted {gs : List UserRoleGrant} {g : UserRoleGrant} {v : Int} (hgs : gs ∈ past) (hg : g ∈ gs)
    (hadmin : AdminGrant db g) (hby : g.createdBy = some v) (hv : Rooted db past v) :
    Rooted db past g.userId

theorem Rooted.mono {db : Database} {past past' : List (List UserRoleGrant)} {u : Int}
    (h : Rooted db past u) (hsub : ∀ gs ∈ past, gs ∈ past') : Rooted db past' u := by
  induction h with
  | superadmin hu hsuper => exact .superadmin hu hsuper
  | initial hg hadmin => exact .initial hg hadmin
  | granted hgs hg hadmin hby _ ih => exact .granted (hsub _ hgs) hg hadmin hby ih

/-- Without an administrator at first there is never one. -/
theorem Rooted.base {db : Database} {past : List (List UserRoleGrant)} {u : Int}
    (h : Rooted db past u) :
    (∃ u ∈ db.users, u.isSuperadmin = true) ∨ ∃ g ∈ db.grants, AdminGrant db g := by
  induction h with
  | superadmin hu hsuper => exact Or.inl ⟨_, hu, hsuper⟩
  | initial hg hadmin => exact Or.inr ⟨_, hg, hadmin⟩
  | granted _ _ _ _ _ ih => exact ih

/-- The grant was there at first, or it was made by a rooted user. -/
def Ascribed (db : Database) (past : List (List UserRoleGrant)) (g : UserRoleGrant) : Prop :=
  g ∈ db.grants ∨ ∃ v, g.createdBy = some v ∧ Rooted db past v

theorem Ascribed.mono {db : Database} {past past' : List (List UserRoleGrant)} {g : UserRoleGrant}
    (h : Ascribed db past g) (hsub : ∀ gs ∈ past, gs ∈ past') : Ascribed db past' g :=
  h.imp_right fun ⟨v, hby, hv⟩ => ⟨v, hby, hv.mono hsub⟩

/-- Who has an administrator's grant that is ascribed is rooted. -/
theorem Ascribed.rooted {db : Database} {past : List (List UserRoleGrant)} {g : UserRoleGrant}
    (h : Ascribed db past g) (hpast : g ∈ db.grants ∨ ∃ gs ∈ past, g ∈ gs)
    (hadmin : AdminGrant db g) : Rooted db past g.userId := by
  rcases h with hg | ⟨v, hby, hv⟩
  · exact .initial hg hadmin
  · rcases hpast with hg | ⟨gs, hgs, hg⟩
    · exact .initial hg hadmin
    · exact .granted hgs hg hadmin hby hv

/-! ## What a step of a handler does -/

/-- The handler acts for this user. -/
def By (me : User) : Handler → Prop
  | .grant _ me' | .grantUser _ me' _ | .grantExists _ me' _ | .grantInsert _ me' _
  | .revoke _ me' | .revokeDelete _ me' _ => me' = me
  | .done _ => True

/-- What a step of a handler does for its user. -/
structure Acts (db : Database) (me : User) (m : GrantMove) : Prop where
  by_me : By me m.thread
  same : SameRoles db m.shared
  users : m.shared.users = db.users
  rows : ∀ g ∈ m.shared.grants, g ∈ db.grants ∨ g.createdBy = some me.id

theorem acts_goOn {db : Database} {me : User} {h : Handler} (hby : By me h) :
    Acts db me (goOn db h) :=
  ⟨hby, ⟨rfl, rfl, rfl⟩, rfl, fun _ hg => Or.inl hg⟩

theorem acts_grantInsertStep (db : Database) (req : GrantRoleReq) (me : User) (role : Role) :
    Acts db me (grantInsertStep db req me role) := by
  unfold grantInsertStep insertGrant
  split
  · exact acts_goOn trivial
  next rc db' hinsert =>
    split at hinsert
    · cases hinsert
      exact acts_goOn trivial
    · split at hinsert
      · cases hinsert
        refine ⟨trivial, ⟨rfl, rfl, rfl⟩, rfl, fun g hg => ?_⟩
        obtain hg | hg := List.mem_append.mp hg
        · exact Or.inl hg
        · rw [List.mem_singleton.mp hg]
          exact Or.inr rfl
      · cases hinsert

theorem acts_revokeDeleteStep (db : Database) (req : GrantRoleReq) (me : User) (role : Role) :
    Acts db me (revokeDeleteStep db req role) :=
  ⟨trivial, ⟨rfl, rfl, rfl⟩, rfl, fun _ hg => Or.inl (List.mem_filter.mp hg).1⟩

/-- **What a step of a handler does for its user.** -/
theorem handler_acts {db : Database} {t : Nat} {h : Handler} {ch : Choice} {m : GrantMove}
    {me : User} (hby : By me h) (hstep : grantSystem.step db t h ch = some m) : Acts db me m := by
  cases ch with
  | raises =>
    cases h with
    | done answer => cases hstep
    | _ =>
      cases hstep
      exact acts_goOn trivial
  | go =>
    cases h with
    | grant req me' =>
      cases hstep
      unfold grantStep
      split
      · exact acts_goOn trivial
      · exact acts_goOn hby
    | grantUser req me' role =>
      cases hstep
      unfold grantUserStep
      split
      · exact acts_goOn trivial
      · exact acts_goOn hby
    | grantExists req me' role =>
      cases hstep
      unfold grantExistsStep
      split
      · exact acts_goOn trivial
      · exact acts_goOn hby
    | grantInsert req me' role =>
      cases hstep
      obtain rfl : me' = me := hby
      exact acts_grantInsertStep db req me' role
    | revoke req me' =>
      cases hstep
      unfold revokeStep
      split
      · exact acts_goOn trivial
      · exact acts_goOn hby
    | revokeDelete req me' role =>
      cases hstep
      exact acts_revokeDeleteStep db req me role
    | done answer => cases hstep

/-! ## What the checks find out -/

/-- The grant is, or was, there. -/
structure Kept (db : Database) (past : List (List UserRoleGrant)) (g : UserRoleGrant) : Prop where
  ascribed : Ascribed db past g
  seen : g ∈ db.grants ∨ ∃ gs ∈ past, g ∈ gs

theorem Kept.mono {db : Database} {past past' : List (List UserRoleGrant)} {g : UserRoleGrant}
    (h : Kept db past g) (hsub : ∀ gs ∈ past, gs ∈ past') : Kept db past' g :=
  ⟨h.ascribed.mono hsub, h.seen.imp_right fun ⟨gs, hgs, hg⟩ => ⟨gs, hsub gs hgs, hg⟩⟩

/-- What a request has found out about its caller. -/
def Vouched (db : Database) (past : List (List UserRoleGrant)) : AdminRequest → Prop
  | .caller _ _ | .roles _ _ | .failed _ => True
  | .codes me roleIds _ => ∀ r ∈ roleIds, ∃ g, Kept db past g ∧ g.userId = me.id ∧
      g.scopeKey = scopeGlobal ∧ g.roleId = r
  | .handling me h => Rooted db past me.id ∧ By me h
  | .listing me _ _ => Rooted db past me.id
  | .listed me rows => Rooted db past me.id ∧ ∃ gs ∈ past, ∀ row ∈ rows, ∃ g ∈ gs,
      ∃ r ∈ db.roles, r.id = g.roleId ∧ row = grantRow g r

theorem Vouched.mono {db : Database} {past past' : List (List UserRoleGrant)} {r : AdminRequest}
    (h : Vouched db past r) (hsub : ∀ gs ∈ past, gs ∈ past') : Vouched db past' r := by
  cases r with
  | caller userId ask => trivial
  | roles me ask => trivial
  | failed e => trivial
  | codes me roleIds ask =>
    intro r hr
    obtain ⟨g, hg, hrest⟩ := h r hr
    exact ⟨g, hg.mono hsub, hrest⟩
  | handling me h' => exact ⟨h.1.mono hsub, h.2⟩
  | listing me userId scopeKey => exact Rooted.mono h hsub
  | listed me rows =>
    obtain ⟨hroot, gs, hgs, hrows⟩ := h
    exact ⟨hroot.mono hsub, gs, hsub gs hgs, hrows⟩

/-- What holds of the tables in every state behind the database `db`. -/
structure Descends (db now : Database) (past : List (List UserRoleGrant)) : Prop where
  same : SameRoles db now
  superadmins : ∀ u ∈ now.users, u.isSuperadmin = true → u ∈ db.users
  grants : ∀ g ∈ now.grants, Kept db past g
  past : ∀ gs ∈ past, ∀ g ∈ gs, Ascribed db past g

section Checks

variable {db now : Database} {past : List (List UserRoleGrant)} (hnow : Descends db now past)

theorem vouched_enter {me : User} (h : Rooted db past me.id) (ask : Ask) :
    Vouched db past (ask.enter me) := by
  cases ask with
  | grant req => exact ⟨h, rfl⟩
  | revoke req => exact ⟨h, rfl⟩
  | list userId scopeKey => exact h

include hnow

theorem vouched_callerStep (userId : Int) (ask : Ask) :
    Vouched db past (callerStep now userId ask) := by
  unfold callerStep
  split
  · trivial
  next me hme =>
    split
    next hsuper =>
      have hmem : me ∈ now.users := by
        have hfind := (Option.filter_eq_some_iff.mp hme).1
        exact List.mem_of_find?_eq_some hfind
      exact vouched_enter (.superadmin (hnow.superadmins me hmem hsuper) hsuper) ask
    · trivial

theorem vouched_rolesStep (me : User) (ask : Ask) : Vouched db past (rolesStep now me ask) := by
  simp only [rolesStep]
  split
  · trivial
  · intro r hr
    obtain ⟨g, hg, huser, hscope, hrole⟩ := mem_grantedRoleIds.mp hr
    refine ⟨g, hnow.grants g hg, huser, ?_, hrole⟩
    rcases mem_scopesWithGlobal.mp hscope with h | ⟨h, -⟩
    · exact h
    · exact h.trans strip_globalKey

theorem vouched_codesStep {me : User} {roleIds : List Int} {ask : Ask}
    (h : Vouched db past (.codes me roleIds ask)) :
    Vouched db past (codesStep now me roleIds ask) := by
  simp only [codesStep]
  split
  next hmissing =>
    refine vouched_enter ?_ ask
    have hheld := missingCodes_eq_nil.mp hmissing _ (List.mem_singleton_self _)
    obtain ⟨r, hr, hatt⟩ := (mem_heldCodes.mp hheld).2
    obtain ⟨g, hkept, huser, hscope, rfl⟩ := h r hr
    rw [hnow.same.attached_iff] at hatt
    exact huser ▸ hkept.ascribed.rooted hkept.seen ⟨hscope, hatt⟩
  · trivial

end Checks

/-! ## Runs -/

/-- **What one step adds, and for whom.** -/
structure StepAscribed (db now : Database) (past : List (List UserRoleGrant)) (r : AdminRequest)
    (m : AdminMove) : Prop where
  obs : m.obs = [m.shared.grants]
  same : SameRoles now m.shared
  users : m.shared.users = now.users
  rows : ∀ g ∈ m.shared.grants, g ∈ now.grants ∨ ∃ v, g.createdBy = some v ∧ Rooted db past v
  changed : m.shared.grants = now.grants ∨ ∃ me h, r = .handling me h ∧ Rooted db past me.id
  vouched : Vouched db (m.obs ++ past) m.thread

theorem stepAscribed_stay {db now : Database} {past : List (List UserRoleGrant)}
    (r : AdminRequest) {r' : AdminRequest} (h : Vouched db (now.grants :: past) r') :
    StepAscribed db now past r (stay now r') :=
  ⟨rfl, ⟨rfl, rfl, rfl⟩, rfl, fun _ hg => Or.inl hg, Or.inl rfl, h⟩

theorem step_ascribed {db now : Database} {past : List (List UserRoleGrant)}
    (hnow : Descends db now past) {t : Nat} {r : AdminRequest} {ch : Choice} {m : AdminMove}
    (hr : Vouched db past r) (hstep : adminSystem.step now t r ch = some m) :
    StepAscribed db now past r m := by
  have hsub : ∀ gs ∈ past, gs ∈ now.grants :: past := fun gs hgs => List.mem_cons_of_mem _ hgs
  cases r with
  | handling me h =>
    -- the only request that can change the grants; its user has been vouched for at the checks
    obtain ⟨m', hm', rfl⟩ := Option.map_eq_some_iff.mp hstep
    obtain ⟨hroot, hby⟩ := hr
    have hacts := handler_acts hby hm'
    refine ⟨rfl, hacts.same, hacts.users, fun g hg => ?_, Or.inr ⟨me, h, rfl, hroot⟩,
      hroot.mono fun gs hgs => List.mem_cons_of_mem _ hgs, hacts.by_me⟩
    exact (hacts.rows g hg).imp_right fun hmine => ⟨me.id, hmine, hroot⟩
  | listed me rows => cases ch <;> cases hstep
  | failed e => cases ch <;> cases hstep
  | caller userId ask =>
    cases ch with
    | go =>
      cases hstep
      exact stepAscribed_stay _ ((vouched_callerStep hnow userId ask).mono hsub)
    | raises =>
      cases hstep
      exact stepAscribed_stay _ trivial
  | roles me ask =>
    cases ch with
    | go =>
      cases hstep
      exact stepAscribed_stay _ ((vouched_rolesStep hnow me ask).mono hsub)
    | raises =>
      cases hstep
      exact stepAscribed_stay _ trivial
  | codes me roleIds ask =>
    cases ch with
    | go =>
      cases hstep
      exact stepAscribed_stay _ ((vouched_codesStep hnow hr).mono hsub)
    | raises =>
      cases hstep
      exact stepAscribed_stay _ trivial
  | listing me userId scopeKey =>
    cases ch with
    | go =>
      cases hstep
      refine stepAscribed_stay _ ⟨Rooted.mono hr hsub, now.grants, List.mem_cons_self, ?_⟩
      intro row hrow
      obtain ⟨g, hg, -, role, hrole, hid, heq⟩ := mem_listGrants_iff.mp hrow
      exact ⟨g, hg, role, hnow.same.roles ▸ hrole, hid, heq⟩
    | raises =>
      cases hstep
      exact stepAscribed_stay _ trivial

/-- What holds in every state behind the database `db`. -/
structure RootInv (db : Database) (c : AdminConfig) : Prop where
  tables : Descends db c.shared c.history
  threads : ∀ (t : Nat) (r : AdminRequest), c.threads[t]? = some r → Vouched db c.history r

theorem RootInv.step {db : Database} {c c' : AdminConfig} {e : Event Choice User}
    (hinv : RootInv db c) (h : adminSystem.fire c e = some c') : RootInv db c' := by
  cases e with
  | env user =>
    obtain ⟨now, hnow, rfl⟩ := fire_env _ h
    obtain ⟨hplain, rfl⟩ := register_spec hnow
    -- who registers is not a superadmin, so that no root is added
    have hsame : SameRoles db { c.shared with users := c.shared.users ++ [user] } :=
      ⟨hinv.tables.same.roles, hinv.tables.same.permissions, hinv.tables.same.rolePermissions⟩
    refine ⟨⟨hsame, fun u hu hsuper => ?_, hinv.tables.grants, hinv.tables.past⟩, hinv.threads⟩
    obtain hu | hu := List.mem_append.mp hu
    · exact hinv.tables.superadmins u hu hsuper
    · rw [List.mem_singleton.mp hu, hplain] at hsuper
      cases hsuper
  | run t ch =>
    obtain ⟨r, m, hr, hm, rfl⟩ := fire_run _ h
    have hstep := step_ascribed hinv.tables (hinv.threads t r hr) hm
    have hsub : ∀ gs ∈ c.history, gs ∈ m.obs ++ c.history :=
      fun gs hgs => List.mem_append_right _ hgs
    have hascribed : ∀ g ∈ m.shared.grants, Ascribed db (m.obs ++ c.history) g := by
      intro g hg
      rcases hstep.rows g hg with hg | ⟨v, hby, hv⟩
      · exact ((hinv.tables.grants g hg).ascribed).mono hsub
      · exact Or.inr ⟨v, hby, hv.mono hsub⟩
    refine ⟨⟨?_, ?_, fun g hg => ⟨hascribed g hg, Or.inr ⟨m.shared.grants, ?_, hg⟩⟩, ?_⟩, ?_⟩
    · exact ⟨hstep.same.roles.trans hinv.tables.same.roles,
        hstep.same.permissions.trans hinv.tables.same.permissions,
        hstep.same.rolePermissions.trans hinv.tables.same.rolePermissions⟩
    · intro u hu hsuper
      rw [after_shared, hstep.users] at hu
      exact hinv.tables.superadmins u hu hsuper
    · rw [after_history, hstep.obs]
      exact List.mem_cons_self
    · intro gs hgs g hg
      rw [after_history, hstep.obs] at hgs
      rcases List.mem_cons.mp hgs with rfl | hgs
      · exact hascribed g hg
      · exact (hinv.tables.past gs hgs g hg).mono hsub
    · exact forall_set (fun i r' hr' => (hinv.threads i r' hr').mono hsub) hstep.vouched

/-- A step that changes the grants is one of a handler that acts for a rooted user. -/
def ChangedByRooted (db : Database) (c : AdminConfig) (e : Event Choice User) (c' : AdminConfig) :
    Prop :=
  c'.shared.grants = c.shared.grants ∨ ∃ t ch me h, e = .run t ch ∧
    c.threads[t]? = some (.handling me h) ∧ Rooted db c.history me.id

theorem RootInv.changedByRooted {db : Database} {c c' : AdminConfig} {e : Event Choice User}
    (hinv : RootInv db c) (h : adminSystem.fire c e = some c') : ChangedByRooted db c e c' := by
  cases e with
  | env user =>
    obtain ⟨now, hnow, rfl⟩ := fire_env _ h
    obtain ⟨-, rfl⟩ := register_spec hnow
    exact Or.inl rfl
  | run t ch =>
    obtain ⟨r, m, hr, hm, rfl⟩ := fire_run _ h
    rcases (step_ascribed hinv.tables (hinv.threads t r hr) hm).changed with
      hsame | ⟨me, h, rfl, hroot⟩
    · exact Or.inl hsame
    · exact Or.inr ⟨t, ch, me, h, rfl, hr, hroot⟩

theorem rootInv_start (db : Database) {tasks : List AdminRequest}
    (hfresh : ∀ r ∈ tasks, r.Fresh) : RootInv db (.start db tasks) where
  tables :=
    { same := ⟨rfl, rfl, rfl⟩
      superadmins := fun u hu _ => hu
      grants := fun g hg => ⟨Or.inl hg, Or.inl hg⟩
      past := fun gs hgs => nomatch hgs }
  threads t r hr := by
    cases hfresh r (List.mem_of_getElem? hr)
    trivial

/--
**Every grant descends from an administrator of the beginning.**  In every run of requests to
`/admin/grants` and of registrations, a grant that is there was there at first, or it was made by a
user whose own administration goes back to a superadmin or an administrator of the beginning; only
requests for such users change the grants, and only they are told grants, which were there at one
time.  Where nobody is one at first, the grants never change.
-/
theorem grants_descend (db : Database) (tasks : List AdminRequest) (hfresh : ∀ r ∈ tasks, r.Fresh)
    (es : List (Event Choice User)) (c : AdminConfig)
    (h : adminSystem.exec (.start db tasks) es = some c) :
    (∀ g ∈ c.shared.grants, Ascribed db c.history g) ∧
      adminSystem.EachStep (ChangedByRooted db) (.start db tasks) es ∧
      (∀ (t : Nat) (me : User) (rows : List GrantRow), c.threads[t]? = some (.listed me rows) →
        Rooted db c.history me.id ∧ ∃ gs ∈ c.history, ∀ row ∈ rows, ∃ g ∈ gs,
          ∃ r ∈ db.roles, r.id = g.roleId ∧ row = grantRow g r) ∧
      ((∀ u ∈ db.users, u.isSuperadmin = false) → (∀ g ∈ db.grants, ¬AdminGrant db g) →
        c.shared.grants = db.grants) := by
  have hstart := rootInv_start db hfresh
  have hinv : ∀ {pre : List (Event Choice User)} {c' : AdminConfig},
      adminSystem.exec (.start db tasks) pre = some c' → RootInv db c' := fun hpre =>
    exec_invariant adminSystem (fun _ _ _ hc he => hc.step he) _ hstart hpre
  have hchanged : adminSystem.EachStep (ChangedByRooted db) (.start db tasks) es := by
    rintro pre e post c₁ c₂ rfl hpre hfire
    exact (hinv hpre).changedByRooted hfire
  refine ⟨fun g hg => ((hinv h).tables.grants g hg).ascribed, hchanged,
    fun t me rows ht => (hinv h).threads t _ ht, fun huser hgrant => ?_⟩
  -- nobody is rooted, and so no step changes anything
  have hnone : ∀ past u, ¬Rooted db past u := by
    intro past u hroot
    rcases hroot.base with ⟨u, hu, hsuper⟩ | ⟨g, hg, hadmin⟩
    · rw [huser u hu] at hsuper
      cases hsuper
    · exact hgrant g hg hadmin
  refine exec_invariant_of_eachStep (I := fun c' => c'.shared.grants = db.grants)
    (fun c₁ e c₂ hc _ hstep => ?_) es rfl hchanged h
  rcases hstep with hsame | ⟨_, _, me, _, _, _, hroot⟩
  · rw [hsame, hc]
  · exact absurd hroot (hnone _ _)

/-! ## A grant by an administrator -/

/-- The administrator grants the viewer's role to itself, and lists it. -/
def grantAndList : List (Event Choice User) :=
  [.run 0 .go, .run 1 .go, .run 0 .go, .run 0 .go, .run 0 .go, .run 0 .go, .run 1 .go]

theorem grants_descend_viewer : ∃ c, adminSystem.exec (.start viewerDb
      [.caller 1 (.grant viewerReq), .caller 1 (.list none none)]) grantAndList = some c ∧
    c.shared.grants = [⟨1, 5, "project:7".toList, some 1⟩] ∧
    ∀ g ∈ c.shared.grants, Ascribed viewerDb c.history g := by
  have hrun : ∃ c, adminSystem.exec (.start viewerDb
      [.caller 1 (.grant viewerReq), .caller 1 (.list none none)]) grantAndList = some c ∧
      c.shared.grants = [⟨1, 5, "project:7".toList, some 1⟩] := ⟨_, rfl, rfl⟩
  obtain ⟨c, hc, hgrants⟩ := hrun
  refine ⟨c, hc, hgrants, (grants_descend viewerDb _ ?_ grantAndList c hc).1⟩
  intro r hr
  simp only [List.mem_cons, List.not_mem_nil, or_false] at hr
  rcases hr with rfl | rfl
  · exact .caller 1 (.grant viewerReq)
  · exact .caller 1 (.list none none)

end EnterpriseAssistant.Admin.Authority
