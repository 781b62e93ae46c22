import EnterpriseAssistant.Authz.StartUp
import EnterpriseAssistant.Authz.Seeded

/-!
# Where instances that start together end

What is committed is followed through the run: an instance that is behind its first upsert sees it
with the statements made that it has come past, and nobody else commits until its block has ended.

* `Seeds.seeded`, `Seeds.again` — one block makes a seeding, and a second one changes nothing
* `Seeding.step` — what is committed is the first database, or a seeding of it
* `startUp_converges` — the instances end, and the seed is there
-/

namespace EnterpriseAssistant.Authz.StartUp

open Py Core Auth Authz Infra Interleaving System ReadCommitted

/-! ## The block of one instance -/

/-- What `sync_authz` makes of a database, whatever ids its new rows have got. -/
structure Seeds (db db' : Database) : Prop where
  roles : roleTable.Upserted db.roles seedRoles db'.roles
  permissions : permissionTable.Upserted db.permissions seedPermissions db'.permissions
  pairs : db'.rolePermissions
    = db.rolePermissions ++ missingPairs db'.roles db'.permissions db.rolePermissions
  frame : { db' with
    roles := db.roles, permissions := db.permissions
    rolePermissions := db.rolePermissions } = db

namespace Seeds

variable {db db' db'' : Database}

theorem mem_pairs (h : Seeds db db') (hc' : Constraints db') {pair : RolePermission}
    (hpair : DefaultPair db'.roles db'.permissions pair) : pair ∈ db'.rolePermissions := by
  rw [h.pairs, List.mem_append]
  by_cases hold : pair ∈ db.rolePermissions
  · exact Or.inl hold
  · exact Or.inr ((mem_missingPairs_iff hc'.roleNames hc'.permissionCodes).mpr ⟨hold, hpair⟩)

theorem seeded (h : Seeds db db') (hc : Constraints db) (hc' : Constraints db') :
    Seeded db db' := by
  have hroles : ∀ x ∈ seedRoles, ∃ r ∈ db'.roles, r.name = x.1 ∧ r.description = some x.2 ∧
      ∀ r' ∈ db'.roles, r'.name = x.1 → r' = r := by
    intro x hx
    obtain ⟨r, hr, hname, hset, honly⟩ := h.roles.exists_unique nodup_seedRoles hc.roleNames hx
    exact ⟨r, hr, hname, (congrArg Role.description hset).symm, honly⟩
  have hpermissions : ∀ x ∈ seedPermissions, ∃ p ∈ db'.permissions, p.code = x.1 ∧
      p.description = some x.2 ∧ ∀ p' ∈ db'.permissions, p'.code = x.1 → p' = p := by
    intro x hx
    obtain ⟨p, hp, hcode, hset, honly⟩ :=
      h.permissions.exists_unique nodup_seedPermissions hc.permissionCodes hx
    exact ⟨p, hp, hcode, (congrArg Permission.description hset).symm, honly⟩
  exact {
    constraints := hc'
    roles := hroles
    permissions := hpermissions
    rolesKept := fun r hr => ⟨_, h.roles.exists_mem hr, roleTable.ident_retouch seedRoles r,
      roleTable.key_retouch seedRoles r⟩
    permissionsKept := fun p hp => ⟨_, h.permissions.exists_mem hp,
      permissionTable.ident_retouch seedPermissions p,
      permissionTable.key_retouch seedPermissions p⟩
    otherRoles := h.roles.filter_other fun _ => decide_eq_true_iff
    otherPermissions := h.permissions.filter_other fun _ => decide_eq_true_iff
    defaultPairs := by
      intro x hx code hcode
      obtain ⟨y, hy, hyx⟩ := defaultRoles_seeded x hx
      obtain ⟨z, hz, hzc⟩ := defaultCodes_seeded x hx code hcode
      obtain ⟨r, hr, hname, -⟩ := hroles y hy
      obtain ⟨p, hp, hpc, -⟩ := hpermissions z hz
      exact ⟨r, hr, p, hp, hname.trans hyx, hpc.trans hzc, h.mem_pairs hc'
        ⟨x, hx, code, hcode, r, hr, p, hp, hname.trans hyx, hpc.trans hzc, rfl⟩⟩
    pairs := ⟨_, h.pairs, fun pair hpair =>
      (mem_missingPairs_iff hc'.roleNames hc'.permissionCodes).mp hpair⟩
    frame := h.frame }

/-- Nothing is missing behind a block. -/
theorem missing_eq_nil (h : Seeds db db') (hc' : Constraints db') :
    missingPairs db'.roles db'.permissions db'.rolePermissions = [] := by
  refine List.eq_nil_iff_forall_not_mem.mpr fun pair hpair => ?_
  obtain ⟨hnew, hdefault⟩ := (mem_missingPairs_iff hc'.roleNames hc'.permissionCodes).mp hpair
  exact hnew (h.mem_pairs hc' hdefault)

theorem settled (h : Seeds db db') (hc' : Constraints db') : Seeds db' db' :=
  ⟨h.roles.settled, h.permissions.settled,
    by rw [h.missing_eq_nil hc', List.append_nil], rfl⟩

/-- The second block finds everything that it would write. -/
theorem again (h : Seeds db db') (hc' : Constraints db') (h' : Seeds db' db'') : db'' = db' := by
  have hroles : db''.roles = db'.roles := h.roles.again h'.roles
  have hpermissions : db''.permissions = db'.permissions := h.permissions.again h'.permissions
  have hpairs : db''.rolePermissions = db'.rolePermissions := by
    rw [h'.pairs, hroles, hpermissions, h.missing_eq_nil hc', List.append_nil]
  have hframe := h'.frame
  rw [← hroles, ← hpermissions, ← hpairs] at hframe
  exact hframe

end Seeds

/-! ## What is committed, and what a transaction sees -/

/-- The database that everybody sees; `db` has its other tables. -/
def AuthzTables.published (s : AuthzTables) (db : Database) : Database :=
  { db with
    roles := s.roles.committed, permissions := s.permissions.committed
    rolePermissions := s.pairs.committed }

/-- The one that transaction `t` sees. -/
def AuthzTables.seen (s : AuthzTables) (t : Nat) (db : Database) : Database :=
  { db with
    roles := s.roles.view Role.name t, permissions := s.permissions.view Permission.code t
    rolePermissions := s.pairs.view id t }

theorem seen_of_idle {s : AuthzTables} {t : Nat} (db : Database) (h : ¬s.Wrote t) :
    s.seen t db = s.published db := by
  have hroles : s.roles.view Role.name t = s.roles.committed :=
    s.roles.view_of_idle Role.name fun w hw htx => h (Or.inl ⟨w, hw, htx⟩)
  have hpermissions : s.permissions.view Permission.code t = s.permissions.committed :=
    s.permissions.view_of_idle Permission.code fun w hw htx => h (Or.inr (Or.inl ⟨w, hw, htx⟩))
  have hpairs : s.pairs.view id t = s.pairs.committed :=
    s.pairs.view_of_idle id fun w hw htx => h (Or.inr (Or.inr ⟨w, hw, htx⟩))
  rw [AuthzTables.seen, hroles, hpermissions, hpairs]
  rfl

theorem seen_rollback_other {s : AuthzTables} {t t' : Nat} (db : Database) (h : t' ≠ t) :
    (s.rollback t).seen t' db = s.seen t' db := by
  have hroles := s.roles.view_rollback_other Role.name h
  have hpermissions := s.permissions.view_rollback_other Permission.code h
  have hpairs := s.pairs.view_rollback_other id h
  show ({ db with
    roles := (s.roles.rollback t).view Role.name t'
    permissions := (s.permissions.rollback t).view Permission.code t'
    rolePermissions := (s.pairs.rollback t).view id t' } : Database) = _
  rw [hroles, hpermissions, hpairs]
  rfl

section Views

variable {s : AuthzTables} {t : Nat} (db : Database)

theorem published_of_roles {roles' : Table Role} (h : roles'.committed = s.roles.committed) :
    ({ s with roles := roles' } : AuthzTables).published db = s.published db := by
  simp only [AuthzTables.published, h]

theorem seen_of_roles {roles' : Table Role}
    (h : roles'.view Role.name t = s.roles.view Role.name t) :
    ({ s with roles := roles' } : AuthzTables).seen t db = s.seen t db := by
  simp only [AuthzTables.seen, h]

theorem published_of_permissions {permissions' : Table Permission}
    (h : permissions'.committed = s.permissions.committed) :
    ({ s with permissions := permissions' } : AuthzTables).published db = s.published db := by
  simp only [AuthzTables.published, h]

theorem seen_of_permissions {permissions' : Table Permission}
    (h : permissions'.view Permission.code t = s.permissions.view Permission.code t) :
    ({ s with permissions := permissions' } : AuthzTables).seen t db = s.seen t db := by
  simp only [AuthzTables.seen, h]

theorem seen_of_pairs {pairs' : Table RolePermission} (h : pairs'.view id t = s.pairs.view id t) :
    ({ s with pairs := pairs' } : AuthzTables).seen t db = s.seen t db := by
  simp only [AuthzTables.seen, h]

end Views

theorem StartInv.constraints_published {c : StartConfig} (h : StartInv c) (db : Database) :
    Constraints (c.shared.published db) where
  roleIds := h.roleIds.committed
  roleNames := h.roles.committed_nodup
  permissionIds := h.permissionIds.committed
  permissionCodes := h.permissions.committed_nodup
  pairs := by
    have hnodup := h.pairs.committed_nodup
    rwa [List.map_id] at hnodup

/-- Some of the statements of a block have been made. -/
structure Behind (db now : Database) (roles permissions : List (Str × Str))
    (pairs : List RolePermission) : Prop where
  roles : roleTable.Upserted db.roles roles now.roles
  permissions : permissionTable.Upserted db.permissions permissions now.permissions
  pairs : now.rolePermissions = db.rolePermissions ++ pairs

theorem behind_refl (db : Database) : Behind db db [] [] [] :=
  ⟨.nil _ _, .nil _ _, (List.append_nil _).symm⟩

/-- How far an instance has come, where `db` is committed and it sees `now`. -/
def Instance.Came (db now : Database) : Instance → Prop
  | .upsertRoles rest => ∃ made, seedRoles = made ++ rest ∧ Behind db now made [] []
  | .upsertPermissions rest =>
    ∃ made, seedPermissions = made ++ rest ∧ Behind db now seedRoles made []
  | .selectRoles => Behind db now seedRoles seedPermissions []
  | .selectPermissions roles => Behind db now seedRoles seedPermissions [] ∧ roles = now.roles
  | .selectPairs roles permissions =>
    Behind db now seedRoles seedPermissions [] ∧ roles = now.roles ∧
      permissions = now.permissions
  | .insert rest =>
    ∃ made, missingPairs now.roles now.permissions db.rolePermissions = made ++ rest ∧
      Behind db now seedRoles seedPermissions made
  | .done | .failed | .died => True

theorem came_start (db : Database) : (Instance.upsertRoles seedRoles).Came db db :=
  ⟨[], rfl, behind_refl db⟩

theorem Reads.came {s : AuthzTables} {t : Nat} {th th' : Instance} (h : Reads s t th th')
    {db : Database} (hcame : th.Came db (s.seen t db)) : th'.Came db (s.seen t db) := by
  cases h with
  | rolesDone =>
    obtain ⟨made, hmade, hbehind⟩ := hcame
    rw [List.append_nil] at hmade
    rw [← hmade] at hbehind
    exact ⟨[], rfl, hbehind⟩
  | permissionsDone =>
    obtain ⟨made, hmade, hbehind⟩ := hcame
    rw [List.append_nil] at hmade
    rw [← hmade] at hbehind
    exact hbehind
  | roles => exact ⟨hcame, rfl⟩
  | permissions roles => exact ⟨hcame.1, hcame.2, rfl⟩
  | pairs roles permissions =>
    obtain ⟨hbehind, rfl, rfl⟩ := hcame
    refine ⟨[], ?_, hbehind⟩
    have hpairs : s.pairs.view id t = db.rolePermissions :=
      hbehind.pairs.trans (List.append_nil _)
    rw [hpairs]
    rfl

/-! ## The statements -/

section Statements

variable {s : AuthzTables} {t : Nat} {db : Database}

/-- The next role is none of those before. -/
theorem notMem_made {seed made rest : List (Str × Str)} {x : Str × Str}
    (hseed : (seed.map Prod.fst).Nodup) (hmade : seed = made ++ x :: rest) :
    x.1 ∉ made.map Prod.fst := by
  rw [hmade, List.map_append, List.map_cons] at hseed
  intro hmem
  exact (List.nodup_append.mp hseed).2.2 x.1 hmem x.1 List.mem_cons_self rfl

theorem came_role (hkeyed : Keyed Role.name s.roles) {name desc : Str} {rest : List (Str × Str)}
    {newId : Int} {roles' : Table Role}
    (hup : s.roles.upsert Role.name t { id := newId, name := name, description := some desc }
      (fun r => { r with description := some desc }) = some roles')
    (hcame : (Instance.upsertRoles ((name, desc) :: rest)).Came (s.published db) (s.seen t db)) :
    (Instance.upsertRoles rest).Came (s.published db) (({ s with roles := roles' }).seen t db) := by
  obtain ⟨made, hmade, hbehind⟩ := hcame
  have hnew : name ∉ made.map Prod.fst := notMem_made nodup_seedRoles hmade
  refine ⟨made ++ [(name, desc)], by rw [hmade, List.append_assoc]; rfl, ?_, hbehind.permissions,
    hbehind.pairs⟩
  show roleTable.Upserted s.roles.committed (made ++ [(name, desc)]) (roles'.view Role.name t)
  have hchange : ∀ r : Role, ({ r with description := some desc } : Role).name = r.name :=
    fun _ => rfl
  rcases s.roles.view_upsert Role.name (hkeyed.nodup t) hchange hup with
    ⟨hin, hview⟩ | ⟨hout, hview⟩
  · rw [hview]
    exact hbehind.roles.update hnew hin
  · rw [hview]
    exact hbehind.roles.insert hnew hout rfl rfl

theorem came_permission (hkeyed : Keyed Permission.code s.permissions) {code desc : Str}
    {rest : List (Str × Str)} {newId : Int} {permissions' : Table Permission}
    (hup : s.permissions.upsert Permission.code t
      { id := newId, code := code, description := some desc }
      (fun p => { p with description := some desc }) = some permissions')
    (hcame : (Instance.upsertPermissions ((code, desc) :: rest)).Came (s.published db)
      (s.seen t db)) :
    (Instance.upsertPermissions rest).Came (s.published db)
      (({ s with permissions := permissions' }).seen t db) := by
  obtain ⟨made, hmade, hbehind⟩ := hcame
  have hnew : code ∉ made.map Prod.fst := notMem_made nodup_seedPermissions hmade
  refine ⟨made ++ [(code, desc)], by rw [hmade, List.append_assoc]; rfl, hbehind.roles, ?_,
    hbehind.pairs⟩
  show permissionTable.Upserted s.permissions.committed (made ++ [(code, desc)])
    (permissions'.view Permission.code t)
  have hchange : ∀ p : Permission,
      ({ p with description := some desc } : Permission).code = p.code := fun _ => rfl
  rcases s.permissions.view_upsert Permission.code (hkeyed.nodup t) hchange hup with
    ⟨hin, hview⟩ | ⟨hout, hview⟩
  · rw [hview]
    exact hbehind.permissions.update hnew hin
  · rw [hview]
    exact hbehind.permissions.insert hnew hout rfl rfl

theorem came_inserted {pair : RolePermission} {rest : List RolePermission}
    (hcame : (Instance.insert (pair :: rest)).Came (s.published db) (s.seen t db)) :
    (Instance.insert rest).Came (s.published db)
      (({ s with
        pairs := s.pairs.write { tx := t, row := pair, isNew := true } }).seen t db) := by
  obtain ⟨made, hmade, hbehind⟩ := hcame
  refine ⟨made ++ [pair], ?_, hbehind.roles, hbehind.permissions, ?_⟩
  · rw [List.append_assoc]
    exact hmade
  · have hview : (s.pairs.write { tx := t, row := pair, isNew := true }).view id t
        = s.pairs.view id t ++ [pair] :=
      s.pairs.view_write_self id { tx := t, row := pair, isNew := true }
    have hpairs : s.pairs.view id t = s.pairs.committed ++ made := hbehind.pairs
    show (s.pairs.write { tx := t, row := pair, isNew := true }).view id t
      = s.pairs.committed ++ (made ++ [pair])
    rw [hview, hpairs, List.append_assoc]

/-- An instance at the end of its block sees the database that it is about to publish. -/
theorem seeds_of_came (hcame : (Instance.insert []).Came (s.published db) (s.seen t db)) :
    Seeds (s.published db) (s.seen t db) := by
  obtain ⟨made, hmade, hbehind⟩ := hcame
  rw [List.append_nil] at hmade
  exact ⟨hbehind.roles, hbehind.permissions, hmade ▸ hbehind.pairs, rfl⟩

end Statements

/-! ## What is committed -/

/-- An instance that has ended does nothing any more. -/
theorem open_of_step {s : AuthzTables} {t : Nat} {th : Instance} {ch : Choice} {m : StartMove}
    (h : startSystem.step s t th ch = some m) : th.ended = false := by
  cases ch with
  | dies =>
    simp only [startSystem] at h
    split at h
    · cases h
    next hopen => simpa using hopen
  | go newId =>
    cases th with
    | done => cases h
    | failed => cases h
    | died => cases h
    | _ => rfl

/-- Before the first instance is done the database is `db`, and behind it a seeding of `db`. -/
structure Seeding (db : Database) (c : StartConfig) : Prop where
  inv : StartInv c
  came : ∀ (t : Nat) (th : Instance), c.threads[t]? = some th →
    th.Came (c.shared.published db) (c.shared.seen t db)
  untouched : .done ∉ c.threads → c.shared.published db = db
  seeds : .done ∈ c.threads → Seeds db (c.shared.published db)

/-- The content of a database. -/
def contentOf {db : Database} (h : Constraints db) : Content where
  roles := db.roles
  permissions := db.permissions
  pairs := db.rolePermissions
  names := h.roleNames
  roleIds := h.roleIds
  codes := h.permissionCodes
  permissionIds := h.permissionIds
  pairs_nodup := h.pairs

theorem seeding_startUp {db : Database} (h : Constraints db) (n : Nat) :
    Seeding db (startUp (contentOf h) n) where
  inv := startInv_startUp _ n
  came t th hth := by
    rw [List.eq_of_mem_replicate (List.mem_of_getElem? hth)]
    exact came_start db
  untouched _ := rfl
  seeds hdone := nomatch List.eq_of_mem_replicate hdone

theorem done_mem_set {ths : List Instance} {t : Nat} {th th' : Instance} (hth : ths[t]? = some th)
    (hne : th ≠ .done) (hne' : th' ≠ .done) : .done ∈ ths.set t th' ↔ .done ∈ ths := by
  constructor
  · intro h
    exact (List.mem_or_eq_of_mem_set h).resolve_right hne'.symm
  · intro h
    obtain ⟨i, hi⟩ := List.mem_iff_getElem?.mp h
    have hit : i ≠ t := by
      rintro rfl
      rw [hth] at hi
      exact hne (Option.some.inj hi)
    exact List.mem_of_getElem? ((List.getElem?_set_ne hit.symm).trans hi)

namespace Seeding

variable {db : Database} {c : StartConfig} {t : Nat}

/-- A step that commits nothing. -/
theorem quiet (h : Seeding db c) {th th' : Instance} {s' : AuthzTables}
    (hth : c.threads[t]? = some th) (hne : th ≠ .done) (hne' : th' ≠ .done)
    (hinv : StartInv (after c t (goOn s' th')))
    (hpublished : s'.published db = c.shared.published db)
    (hother : ∀ i, i ≠ t → s'.seen i db = c.shared.seen i db)
    (hcame : th'.Came (s'.published db) (s'.seen t db)) :
    Seeding db (after c t (goOn s' th')) := by
  have hdone := done_mem_set hth hne hne'
  refine ⟨hinv, ?_, fun hnot => ?_, fun hmem => ?_⟩
  · refine forall_set_of_ne (fun i x hi hx => ?_) hcame
    show x.Came (s'.published db) (s'.seen i db)
    rw [hpublished, hother i hi]
    exact h.came i x hx
  · exact hpublished.trans (h.untouched (mt hdone.mpr hnot))
  · show Seeds db (s'.published db)
    rw [hpublished]
    exact h.seeds (hdone.mp hmem)

/-- What the end of a block publishes is a seeding of `db`, the first time and every time. -/
theorem seeds_commit (h : Seeding db c) (hth : c.threads[t]? = some (.insert [])) :
    Seeds db (c.shared.seen t db) := by
  have hseeds := seeds_of_came (h.came t _ hth)
  by_cases hdone : .done ∈ c.threads
  · rw [(h.seeds hdone).again (h.inv.constraints_published db) hseeds]
    exact h.seeds hdone
  · rwa [h.untouched hdone] at hseeds

theorem step_committed (h : Seeding db c) (hth : c.threads[t]? = some (.insert []))
    (hinv : StartInv (after c t (goOn (c.shared.commit t) .done))) :
    Seeding db (after c t (goOn (c.shared.commit t) .done)) := by
  have hmem : .done ∈ c.threads.set t .done :=
    List.mem_of_getElem? (List.getElem?_set_self (List.getElem?_eq_some_iff.mp hth).1)
  refine ⟨hinv, ?_, fun hnot => absurd hmem hnot, fun _ => h.seeds_commit hth⟩
  refine forall_set_of_ne (fun i x hi hx => ?_) trivial
  -- the others are at the beginning, or they have ended
  have hidle : ¬(c.shared.commit t).Wrote i := fun hwrote =>
    (wrote_commit hwrote).1 (h.inv.alone hth rfl (wrote_commit hwrote).2)
  show x.Came ((c.shared.commit t).published db) ((c.shared.commit t).seen i db)
  rw [seen_of_idle db hidle]
  have hout : x.inside = false := by
    by_contra hin
    exact hi (h.inv.inside_unique hx (by simpa using hin) hth rfl)
  have hfits := h.inv.fits i x hx
  cases x with
  | upsertRoles rest =>
    rcases hfits with rfl | hlen
    · exact came_start _
    · simp [Instance.inside, hlen] at hout
  | done => trivial
  | failed => trivial
  | died => trivial
  | _ => cases hout

theorem step (h : Seeding db c) {e : Event Choice Empty} {c' : StartConfig}
    (he : startSystem.fire c e = some c') : Seeding db c' := by
  have hinv := h.inv.step he
  cases e with
  | env e => cases e
  | run t ch =>
    obtain ⟨th, m, hth, hm, rfl⟩ := fire_run _ he
    have hopen := open_of_step hm
    have hne : th ≠ .done := by
      rintro rfl
      cases hopen
    have hstep := step_cases hm
    have hcame := h.came t th hth
    obtain ⟨s', th', obs⟩ := m
    obtain rfl : obs = [] := List.eq_nil_iff_forall_not_mem.mpr fun o => nomatch o
    cases hstep with
    | reads hreads =>
      have hends := hreads.spec h.inv.roleIds h.inv.permissionIds (h.inv.fits t th hth)
      refine h.quiet hth hne ?_ hinv rfl (fun _ _ => rfl) (hreads.came hcame)
      rintro rfl
      cases hends.2.2
    | role hunused hup =>
      -- nothing is committed, and the others see what they saw
      obtain ⟨hcommitted, hviews⟩ := c.shared.roles.upsert_other Role.name hup
      have hpublished : _ = c.shared.published db := published_of_roles db hcommitted
      exact h.quiet hth hne (fun heq => by cases heq) hinv hpublished
        (fun i hi => seen_of_roles db (hviews i hi)) (hpublished ▸ came_role h.inv.roles hup hcame)
    | permission hunused hup =>
      obtain ⟨hcommitted, hviews⟩ := c.shared.permissions.upsert_other Permission.code hup
      have hpublished : _ = c.shared.published db := published_of_permissions db hcommitted
      exact h.quiet hth hne (fun heq => by cases heq) hinv hpublished
        (fun i hi => seen_of_permissions db (hviews i hi))
        (hpublished ▸ came_permission h.inv.permissions hup hcame)
    | @inserted pair rest hfree hnone =>
      refine h.quiet hth hne (fun heq => by cases heq) hinv rfl
        (fun i hi => seen_of_pairs db ?_) (came_inserted hcame)
      exact c.shared.pairs.view_write_other id
        (w := { tx := t, row := pair, isNew := true }) hi
    | @conflict pair rest hsome =>
      -- the pair has been missing since it was computed, and so no insert raises
      exact absurd hsome ((h.inv.fits t _ hth).2 pair List.mem_cons_self)
    | committed => exact h.step_committed hth hinv
    | dies =>
      exact h.quiet hth hne (fun heq => by cases heq) hinv rfl
        (fun i hi => seen_rollback_other db hi) trivial

/-- Once an instance is done, the database stays as it is. -/
theorem settled (h : Seeding db c) (hdone : .done ∈ c.threads)
    {es : List (Event Choice Empty)} {c' : StartConfig} (hrun : startSystem.exec c es = some c') :
    c'.shared.published db = c.shared.published db := by
  have hc := h.inv.constraints_published db
  have hstart : Seeding (c.shared.published db) c :=
    ⟨h.inv, h.came, fun hnot => absurd hdone hnot, fun _ => (h.seeds hdone).settled hc⟩
  have hend := exec_invariant (I := Seeding (c.shared.published db)) _
    (fun _ _ _ hc he => hc.step he) es hstart hrun
  -- a seeding of what is seeded already changes nothing
  by_cases hagain : .done ∈ c'.threads
  · exact (h.seeds hdone).again hc (hend.seeds hagain)
  · exact hend.untouched hagain

end Seeding

/-! ## The end -/

theorem length_flatMap_le {α β γ : Type} {f : α → List β} {g : α → List γ} {xs : List α}
    (h : ∀ x ∈ xs, (f x).length ≤ (g x).length) :
    (xs.flatMap f).length ≤ (xs.flatMap g).length := by
  induction xs with
  | nil => exact Nat.le_refl 0
  | cons x xs ih =>
    obtain ⟨hx, hxs⟩ := List.forall_mem_cons.mp h
    rw [List.flatMap_cons, List.flatMap_cons, List.length_append, List.length_append]
    exact Nat.add_le_add hx (ih hxs)

/-- No more pairs are missing than are listed. -/
theorem length_missingPairs_le (roles : List Role) (permissions : List Permission)
    (existing : List RolePermission) :
    (missingPairs roles permissions existing).length ≤ 46 := by
  have hlisted : (defaultRolePerms.flatMap Prod.snd).length = 46 := by decide
  rw [missingPairs_eq, ← hlisted]
  refine length_flatMap_le fun x _ => ?_
  split
  · exact Nat.zero_le _
  · exact List.length_filterMap_le _ _

/-- The statements that an instance has before it, at most. -/
def Instance.work : Instance → Nat
  -- behind the roles come the permissions, three selects and at most 46 pairs
  | .upsertRoles rest => rest.length + 68
  | .upsertPermissions rest => rest.length + 51
  | .selectRoles => 50
  | .selectPermissions _ => 49
  | .selectPairs _ _ => 48
  | .insert rest => rest.length + 1
  | .done | .failed | .died => 0

theorem work_pos {th : Instance} (h : th.ended = false) : 0 < th.work := by
  cases th with
  | done => cases h
  | failed => cases h
  | died => cases h
  | _ => simp [Instance.work]

theorem startWorks : startSystem.Works Instance.work := by
  intro s t th ch m hm
  have hopen := work_pos (open_of_step hm)
  obtain ⟨s', th', obs⟩ := m
  have hstep : StartStep s t th s' th' := step_cases hm
  cases hstep with
  | reads h =>
    cases h with
    | rolesDone => exact Nat.lt_succ_self _
    | pairs roles permissions =>
      have hle := length_missingPairs_le roles permissions (s.pairs.view id t)
      simp only [Instance.work]
      omega
    | _ => simp [Instance.work]
  | role => simp [Instance.work]
  | permission => simp [Instance.work]
  | inserted => simp [Instance.work]
  | conflict => exact hopen
  | committed => exact hopen
  | dies => exact hopen

/-- Every block has ended. -/
def Over (c : StartConfig) : Prop := ∀ th ∈ c.threads, th.ended = true

/-- Nobody dies by this event. -/
def Lives : Event Choice Empty → Prop
  | .run _ (.go _) => True
  | .run _ .dies => False
  | .env _ => True

theorem ne_died_of_go {s : AuthzTables} {t : Nat} {th : Instance} {newId : Int} {m : StartMove}
    (h : goStep s t newId th = some m) : m.thread ≠ .died := by
  cases th with
  | upsertRoles rest =>
    cases rest with
    | nil =>
      cases h
      rintro ⟨⟩
    | cons x rest =>
      simp only [goStep, upsertRolesStep] at h
      split at h
      · obtain ⟨roles', -, rfl⟩ := Option.map_eq_some_iff.mp h
        rintro ⟨⟩
      · cases h
  | upsertPermissions rest =>
    cases rest with
    | nil =>
      cases h
      rintro ⟨⟩
    | cons x rest =>
      simp only [goStep, upsertPermissionsStep] at h
      split at h
      · obtain ⟨permissions', -, rfl⟩ := Option.map_eq_some_iff.mp h
        rintro ⟨⟩
      · cases h
  | insert rest =>
    cases rest with
    | nil =>
      cases h
      rintro ⟨⟩
    | cons pair rest =>
      simp only [goStep, insertStep] at h
      split at h
      · cases h
      · cases h
        rintro ⟨⟩
      · cases h
        rintro ⟨⟩
  | selectRoles =>
    cases h
    rintro ⟨⟩
  | selectPermissions roles =>
    cases h
    rintro ⟨⟩
  | selectPairs roles permissions =>
    cases h
    rintro ⟨⟩
  | done => cases h
  | failed => cases h
  | died => cases h

/-- Where each instance of a configuration has got to. -/
def Follows (c c' : StartConfig) : Prop :=
  ∀ (t : Nat) (th : Instance), c.threads[t]? = some th → ∃ th', c'.threads[t]? = some th' ∧
    (th.ended = true → th' = th) ∧ (th.ended = false → th' ≠ .died)

theorem follows_refl (c : StartConfig) : Follows c c := fun _ th hth =>
  ⟨th, hth, fun _ => rfl, fun hopen => by
    rintro rfl
    cases hopen⟩

theorem Follows.step {c c₁ c₂ : StartConfig} (h : Follows c c₁) {e : Event Choice Empty}
    (hlives : Lives e) (he : startSystem.fire c₁ e = some c₂) : Follows c c₂ := by
  cases e with
  | env e => cases e
  | run t ch =>
    obtain ⟨th₁, m, hth₁, hm, rfl⟩ := fire_run _ he
    cases ch with
    | dies => exact hlives.elim
    | go newId =>
      intro i th hth
      obtain ⟨th', hth', hended, hopen⟩ := h i th hth
      by_cases hi : t = i
      · subst hi
        rw [hth₁] at hth'
        cases hth'
        refine ⟨m.thread, List.getElem?_set_self (List.getElem?_eq_some_iff.mp hth₁).1,
          fun heq => ?_, fun _ => ne_died_of_go hm⟩
        rw [hended heq] at hm
        rw [open_of_step hm] at heq
        cases heq
      · exact ⟨th', (List.getElem?_set_ne hi).trans hth', hended, hopen⟩

theorem goes_on_of_open {c : StartConfig} (hinv : StartInv c) (hopen : ¬Over c) :
    ∃ e c', Lives e ∧ startSystem.fire c e = some c' := by
  simp only [Over, not_forall] at hopen
  obtain ⟨th, hth, hnot⟩ := hopen
  obtain ⟨t, ht⟩ := List.mem_iff_getElem?.mp hth
  obtain ⟨t', newId, c', he⟩ := some_instance_goes_on hinv ht (by simpa using hnot)
  exact ⟨.run t' (.go newId), c', trivial, he⟩

/-- Without another death, every instance that is open gets done. -/
theorem StartInv.exists_end {c : StartConfig} (hinv : StartInv c) :
    ∃ es c', (∀ e ∈ es, Lives e) ∧ startSystem.exec c es = some c' ∧
      ∀ (t : Nat) (th : Instance), c.threads[t]? = some th →
        c'.threads[t]? = some (if th.ended then th else .done) := by
  obtain ⟨es, c', hlives, hexec, ⟨hinv', hfollows⟩, hover⟩ := startWorks.exists_end
    (I := fun c' => StartInv c' ∧ Follows c c') (P := Lives)
    (fun _ _ _ hP hc he => ⟨hc.1.step he, hc.2.step hP he⟩)
    (fun _ hc hopen => goes_on_of_open hc.1 hopen) ⟨hinv, follows_refl c⟩
  refine ⟨es, c', hlives, hexec, fun t th hth => ?_⟩
  obtain ⟨th', hth', hended, hopen⟩ := hfollows t th hth
  have hover' := hover th' (List.mem_of_getElem? hth')
  have hfits := hinv'.fits t th' hth'
  rw [hth']
  split
  next heq => rw [hended heq]
  next hnot =>
    have halive := hopen (by simpa using hnot)
    cases th' with
    | done => rfl
    | failed => exact hfits.elim
    | died => exact absurd rfl halive
    | _ => cases hover'

/--
**Concurrent start-up converges.**

However many instances start at once and whichever of them die, each of them ends after at most 72
statements, and every one that is still open can get done, with nobody waiting for ever.  Until the
first one is done the database is as it was; from then on it is one seeding of it, and stays so.
-/
theorem startUp_converges (db : Database) (h : Constraints db) (n : Nat)
    (es : List (Event Choice Empty)) {c : StartConfig}
    (hrun : startSystem.exec (startUp (contentOf h) n) es = some c) :
    es.length ≤ 72 * n ∧
      (∃ es' c', (∀ e ∈ es', Lives e) ∧ startSystem.exec c es' = some c' ∧
        ∀ (t : Nat) (th : Instance), c.threads[t]? = some th →
          c'.threads[t]? = some (if th.ended then th else .done)) ∧
      (.done ∉ c.threads → c.shared.published db = db) ∧
      (.done ∈ c.threads → Seeded db (c.shared.published db) ∧
        ∀ es' c', startSystem.exec c es' = some c' →
          c'.shared.published db = c.shared.published db) := by
  have hseeding : Seeding db c :=
    exec_invariant _ (fun _ _ _ hc he => hc.step he) es (seeding_startUp h n) hrun
  refine ⟨?_, hseeding.inv.exists_end, hseeding.untouched, fun hdone => ⟨?_, ?_⟩⟩
  · have hlength := startWorks.length_le es hrun
    have hstart : work Instance.work (startUp (contentOf h) n).threads ≤ 72 * n := by
      refine (work_le (n := 72) fun th hth => ?_).trans_eq (by simp [startUp])
      rw [List.eq_of_mem_replicate hth]
      exact Nat.le_refl 72
    omega
  · exact (hseeding.seeds hdone).seeded h (hseeding.inv.constraints_published db)
  · exact fun es' c' hexec => hseeding.settled hdone hexec

theorem customised_constraints : Constraints customised :=
  ⟨by decide, by decide, by decide, by decide, by decide⟩

theorem dyingFirst_run : ∃ c rest,
    startSystem.exec (startUp (contentOf customised_constraints) 2) dyingFirst = some c ∧
      c.threads = [.died, .upsertRoles rest] :=
  ⟨_, _, rfl, rfl⟩

theorem startUp_converges_dyingFirst : ∃ c es c',
    startSystem.exec (startUp (contentOf customised_constraints) 2) dyingFirst = some c ∧
      startSystem.exec c es = some c' ∧ Seeded customised (c'.shared.published customised) := by
  obtain ⟨c, rest, hrun, hthreads⟩ := dyingFirst_run
  obtain ⟨-, ⟨es, c', -, hexec, hends⟩, -⟩ :=
    startUp_converges customised customised_constraints 2 dyingFirst hrun
  have hdone : .done ∈ c'.threads := List.mem_of_getElem? (hends 1 (.upsertRoles rest) (by
    rw [hthreads]
    rfl))
  have hboth : startSystem.exec (startUp (contentOf customised_constraints) 2) (dyingFirst ++ es)
      = some c' := by
    rw [exec_append, hrun]
    exact hexec
  exact ⟨c, es, c', hrun, hexec,
    ((startUp_converges customised customised_constraints 2 _ hboth).2.2.2 hdone).1⟩

end EnterpriseAssistant.Authz.StartUp
