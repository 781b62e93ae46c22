import EnterpriseAssistant.Lib.Upsert
import EnterpriseAssistant.Authz.SeedSync

/-!
# What seeding leaves

`sync_authz` as a function of the database: the two loops of upserts, and the pairs that are missing
behind them.

* `syncAuthz_run` — the program commits `synced`
* `mem_missingPairs_iff` — the pairs that are added
* `syncAuthz_converges` — the seed is there, the rest is as it was, and the second run does nothing
-/

namespace EnterpriseAssistant.Authz

open Py Auth Infra Program SqlSession

/-! ## The two tables -/

def roleTable : Upsert.Table Role Str Str Int where
  key r := r.name
  ident r := r.id
  set desc r := { r with description := some desc }
  fresh rows name desc :=
    { id := freshId (rows.map fun r => r.id), name := name, description := some desc }
  key_set _ _ := rfl
  ident_set _ _ := rfl
  set_set _ _ := rfl
  key_fresh _ _ _ := rfl
  set_fresh _ _ _ := rfl
  ident_fresh _ _ _ h := Int.lt_irrefl _ (lt_freshId h)

def permissionTable : Upsert.Table Permission Str Str Int where
  key p := p.code
  ident p := p.id
  set desc p := { p with description := some desc }
  fresh rows code desc :=
    { id := freshId (rows.map fun p => p.id), code := code, description := some desc }
  key_set _ _ := rfl
  ident_set _ _ := rfl
  set_set _ _ := rfl
  key_fresh _ _ _ := rfl
  set_fresh _ _ _ := rfl
  ident_fresh _ _ _ h := Int.lt_irrefl _ (lt_freshId h)

theorem upsertRole_eq (name desc : Str) (db : Database) :
    upsertRole name desc db = { db with roles := roleTable.upsert db.roles name desc } := by
  have hin : (roleByName db.roles name).isSome = true ↔ name ∈ db.roles.map roleTable.key := by
    simp [roleByName, roleTable]
  unfold upsertRole Upsert.Table.upsert
  simp only [hin]
  split
  · rfl
  · rfl

theorem upsertPermission_eq (code desc : Str) (db : Database) :
    upsertPermission code desc db
      = { db with permissions := permissionTable.upsert db.permissions code desc } := by
  have hin : db.permissions.any (fun p => p.code == code) = true ↔
      code ∈ db.permissions.map permissionTable.key := by
    simp [permissionTable]
  unfold upsertPermission Upsert.Table.upsert
  simp only [hin]
  split
  · rfl
  · rfl

/-- The loop over roles, in an open transaction. -/
theorem forEach_upsertRole (seed : List (Str × Str)) (x : Session Database) (db : Database)
    (rest : Ambient) :
    (Prog.forEach seed fun (name, desc) => execute fun db => .ok ((), upsertRole name desc db) :
        App Unit) ⟨x.seeing db, rest⟩
      = (.ok (), ⟨x.seeing { db with roles := roleTable.upsertAll db.roles seed }, rest⟩) := by
  refine (forEach_execute_run seed (fun x db => upsertRole x.1 x.2 db) x db rest).trans ?_
  have hfold : seed.foldl (fun db x => upsertRole x.1 x.2 db) db
      = { db with roles := roleTable.upsertAll db.roles seed } := by
    induction seed generalizing db with
    | nil => rw [Upsert.Table.upsertAll_nil, List.foldl_nil]
    | cons x seed ih => rw [List.foldl_cons, ih, upsertRole_eq, Upsert.Table.upsertAll_cons]
  rw [hfold]

/-- The loop over permissions, in an open transaction. -/
theorem forEach_upsertPermission (seed : List (Str × Str)) (x : Session Database) (db : Database)
    (rest : Ambient) :
    (Prog.forEach seed fun (code, desc) =>
        execute fun db => .ok ((), upsertPermission code desc db) : App Unit) ⟨x.seeing db, rest⟩
      = (.ok (), ⟨x.seeing { db with
          permissions := permissionTable.upsertAll db.permissions seed }, rest⟩) := by
  refine (forEach_execute_run seed (fun x db => upsertPermission x.1 x.2 db) x db rest).trans ?_
  have hfold : seed.foldl (fun db x => upsertPermission x.1 x.2 db) db
      = { db with permissions := permissionTable.upsertAll db.permissions seed } := by
    induction seed generalizing db with
    | nil => rw [Upsert.Table.upsertAll_nil, List.foldl_nil]
    | cons x seed ih => rw [List.foldl_cons, ih, upsertPermission_eq, Upsert.Table.upsertAll_cons]
  rw [hfold]

theorem nodup_seedRoles : (seedRoles.map Prod.fst).Nodup := by decide +kernel

theorem nodup_seedPermissions : (seedPermissions.map Prod.fst).Nodup := by decide +kernel

/-! ## The program -/

/-- The keys of the tables that `sync_authz` touches. -/
structure Constraints (db : Database) : Prop where
  roleIds : (db.roles.map Role.id).Nodup
  roleNames : (db.roles.map Role.name).Nodup
  permissionIds : (db.permissions.map Permission.id).Nodup
  permissionCodes : (db.permissions.map Permission.code).Nodup
  pairs : db.rolePermissions.Nodup

/-- What `sync_authz` makes of the database. -/
def synced (db : Database) : Database :=
  let roles := roleTable.upsertAll db.roles seedRoles
  let permissions := permissionTable.upsertAll db.permissions seedPermissions
  { db with
    roles := roles
    permissions := permissions
    rolePermissions :=
      db.rolePermissions ++ missingPairs roles permissions db.rolePermissions }

theorem constraints_synced {db : Database} (h : Constraints db) : Constraints (synced db) := by
  have hroles : ((synced db).roles.map Role.id).Nodup :=
    roleTable.nodup_ident_upsertAll h.roleIds
  have hpermissions : ((synced db).permissions.map Permission.id).Nodup :=
    permissionTable.nodup_ident_upsertAll h.permissionIds
  refine ⟨hroles, roleTable.nodup_key_upsertAll nodup_seedRoles h.roleNames, hpermissions,
    permissionTable.nodup_key_upsertAll nodup_seedPermissions h.permissionCodes, ?_⟩
  refine List.nodup_append.mpr ⟨h.pairs, nodup_missingPairs _ hroles hpermissions, ?_⟩
  rintro pair hold _ hnew rfl
  exact notMem_of_mem_missingPairs hnew hold

/-- The end of the block finds no pair twice. -/
theorem insertPairs_synced {db : Database} (h : Constraints db) :
    insertPairs (missingPairs (synced db).roles (synced db).permissions db.rolePermissions)
        { db with roles := (synced db).roles, permissions := (synced db).permissions }
      = .ok ((), synced db) := by
  have hnodup := (constraints_synced h).pairs
  unfold insertPairs
  rw [if_pos (Or.inl ?_)]
  · rfl
  · exact List.nodup_append_comm.mp hnodup

/-- `sync_authz` on a session of its own returns, and has committed `db'`. -/
def Syncs (rule : BeginRule) (rest : Ambient) (db db' : Database) : Prop :=
  ∃ s, syncAuthz rule { session := .idle db, rest := rest } = (.ok (), s) ∧
    s.session.committed = db' ∧ s.session.transaction = none ∧ s.rest = rest

theorem syncAuthz_run (rule : BeginRule) (rest : Ambient) {db : Database} (h : Constraints db) :
    Syncs rule rest db (synced db) := by
  have hbody : syncAuthzBody ⟨(Session.idle db).noteBegin.seeing db, rest⟩
      = (.ok (), ⟨(Session.idle db).noteBegin.seeing (synced db), rest⟩) := by
    unfold syncAuthzBody
    rw [Prog.bind_ok (forEach_upsertRole seedRoles _ _ _),
      Prog.bind_ok (forEach_upsertPermission seedPermissions _ _ _),
      Prog.bind_ok (select_run _ _), Prog.bind_ok (select_run _ _), Prog.bind_ok (select_run _ _)]
    exact execute_run (insertPairs_synced h) _ _
  have hrun : syncAuthz rule { session := .idle db, rest := rest }
      = (.ok (), ⟨{ Session.idle (synced db) with begins := [true] }, rest⟩) := by
    unfold syncAuthz Infra.begin
    exact beginBlock_idle_ok hbody
  exact ⟨_, hrun, rfl, rfl, rfl⟩

/-! ## The pairs -/

/-- A pair that `DEFAULT_ROLE_PERMS` lists, by the ids of its role and its permission. -/
def DefaultPair (roles : List Role) (permissions : List Permission) (pair : RolePermission) :
    Prop :=
  ∃ x ∈ defaultRolePerms, ∃ code ∈ x.2, ∃ role ∈ roles, ∃ permission ∈ permissions,
    role.name = x.1 ∧ permission.code = code ∧ pair = ⟨role.id, permission.id⟩

theorem roleByName_eq_some_iff {roles : List Role} (h : (roles.map Role.name).Nodup) {name : Str}
    {role : Role} : roleByName roles name = some role ↔ role ∈ roles ∧ role.name = name := by
  constructor
  · intro hfind
    exact ⟨List.mem_of_find?_eq_some hfind, by simpa using List.find?_some hfind⟩
  · rintro ⟨hmem, rfl⟩
    cases hfind : roleByName roles role.name with
    | none => simpa using List.find?_eq_none.mp hfind role hmem
    | some role' =>
      have hname : role'.name = role.name := by simpa using List.find?_some hfind
      rw [List.inj_on_of_nodup_map h (List.mem_of_find?_eq_some hfind) hmem hname]

theorem missingPair_eq_some_iff {permissions : List Permission}
    (h : (permissions.map Permission.code).Nodup) {existing : List RolePermission} {role : Role}
    {code : Str} {pair : RolePermission} :
    missingPair permissions existing role code = some pair ↔
      pair ∉ existing ∧ ∃ p ∈ permissions, p.code = code ∧ pair = ⟨role.id, p.id⟩ := by
  constructor
  · intro hpair
    obtain ⟨p, hp, hcode, heq, hnew⟩ := missingPair_eq_some hpair
    exact ⟨hnew, p, hp, hcode, heq⟩
  · rintro ⟨hnew, p, hp, rfl, rfl⟩
    have hfind : permissions.find? (fun q => q.code == p.code) = some p := by
      cases hfind : permissions.find? (fun q => q.code == p.code) with
      | none => simpa using List.find?_eq_none.mp hfind p hp
      | some q =>
        have hcode : q.code = p.code := by simpa using List.find?_some hfind
        rw [List.inj_on_of_nodup_map h (List.mem_of_find?_eq_some hfind) hp hcode]
    unfold missingPair
    rw [hfind]
    exact if_neg hnew

/-- **The pairs that are added** are the listed ones that were not there. -/
theorem mem_missingPairs_iff {roles : List Role} {permissions : List Permission}
    (hroles : (roles.map Role.name).Nodup) (hpermissions : (permissions.map Permission.code).Nodup)
    {existing : List RolePermission} {pair : RolePermission} :
    pair ∈ missingPairs roles permissions existing ↔
      pair ∉ existing ∧ DefaultPair roles permissions pair := by
  rw [missingPairs_eq, List.mem_flatMap]
  constructor
  · rintro ⟨x, hx, hpair⟩
    split at hpair
    · cases hpair
    next role hrole =>
      obtain ⟨hmem, hname⟩ := (roleByName_eq_some_iff hroles).mp hrole
      obtain ⟨code, hcode, hmissing⟩ := List.mem_filterMap.mp hpair
      obtain ⟨hnew, p, hp, hpc, heq⟩ := (missingPair_eq_some_iff hpermissions).mp hmissing
      exact ⟨hnew, x, hx, code, hcode, role, hmem, p, hp, hname, hpc, heq⟩
  · rintro ⟨hnew, x, hx, code, hcode, role, hmem, p, hp, hname, hpc, heq⟩
    refine ⟨x, hx, ?_⟩
    rw [(roleByName_eq_some_iff hroles).mpr ⟨hmem, hname⟩]
    exact List.mem_filterMap.mpr ⟨code, hcode,
      (missingPair_eq_some_iff hpermissions).mpr ⟨hnew, p, hp, hpc, heq⟩⟩

/-! ## The seed in the database -/

/-- What a database `db'` is that comes of seeding `db`. -/
structure Seeded (db db' : Database) : Prop where
  /-- no key is there twice, so no insert has hit one -/
  constraints : Constraints db'
  /-- every seed role, once and as in the seed -/
  roles : ∀ x ∈ seedRoles, ∃ r ∈ db'.roles, r.name = x.1 ∧ r.description = some x.2 ∧
    ∀ r' ∈ db'.roles, r'.name = x.1 → r' = r
  permissions : ∀ x ∈ seedPermissions, ∃ p ∈ db'.permissions, p.code = x.1 ∧
    p.description = some x.2 ∧ ∀ p' ∈ db'.permissions, p'.code = x.1 → p' = p
  /-- every row is still there -/
  rolesKept : ∀ r ∈ db.roles, ∃ r' ∈ db'.roles, r'.id = r.id ∧ r'.name = r.name
  permissionsKept : ∀ p ∈ db.permissions, ∃ p' ∈ db'.permissions, p'.id = p.id ∧ p'.code = p.code
  /-- outside of the seed, no row is altered or added -/
  otherRoles : db'.roles.filter (fun r => r.name ∉ seedRoles.map Prod.fst)
    = db.roles.filter fun r => r.name ∉ seedRoles.map Prod.fst
  otherPermissions : db'.permissions.filter (fun p => p.code ∉ seedPermissions.map Prod.fst)
    = db.permissions.filter fun p => p.code ∉ seedPermissions.map Prod.fst
  /-- every default pair is there -/
  defaultPairs : ∀ x ∈ defaultRolePerms, ∀ code ∈ x.2, ∃ r ∈ db'.roles, ∃ p ∈ db'.permissions,
    r.name = x.1 ∧ p.code = code ∧ ⟨r.id, p.id⟩ ∈ db'.rolePermissions
  /-- and no other pair is added -/
  pairs : ∃ added, db'.rolePermissions = db.rolePermissions ++ added ∧
    ∀ pair ∈ added, pair ∉ db.rolePermissions ∧ DefaultPair db'.roles db'.permissions pair
  /-- the other tables -/
  frame : { db' with
    roles := db.roles, permissions := db.permissions
    rolePermissions := db.rolePermissions } = db

theorem defaultRoles_seeded : ∀ x ∈ defaultRolePerms, ∃ y ∈ seedRoles, y.1 = x.1 := by
  decide +kernel

theorem defaultCodes_seeded :
    ∀ x ∈ defaultRolePerms, ∀ code ∈ x.2, ∃ y ∈ seedPermissions, y.1 = code := by
  decide +kernel

theorem role_seeded {db : Database} (h : Constraints db) : ∀ x ∈ seedRoles,
    ∃ r ∈ (synced db).roles, r.name = x.1 ∧ r.description = some x.2 ∧
      ∀ r' ∈ (synced db).roles, r'.name = x.1 → r' = r := by
  intro x hx
  obtain ⟨r, hr, hname, hset, honly⟩ :=
    roleTable.exists_unique_upsertAll nodup_seedRoles h.roleNames hx
  exact ⟨r, hr, hname, (congrArg Role.description hset).symm, honly⟩

theorem permission_seeded {db : Database} (h : Constraints db) : ∀ x ∈ seedPermissions,
    ∃ p ∈ (synced db).permissions, p.code = x.1 ∧ p.description = some x.2 ∧
      ∀ p' ∈ (synced db).permissions, p'.code = x.1 → p' = p := by
  intro x hx
  obtain ⟨p, hp, hcode, hset, honly⟩ :=
    permissionTable.exists_unique_upsertAll nodup_seedPermissions h.permissionCodes hx
  exact ⟨p, hp, hcode, (congrArg Permission.description hset).symm, honly⟩

/-- A default pair is there already, or it is among the added ones. -/
theorem defaultPair_synced {db : Database} (h : Constraints db) {pair : RolePermission}
    (hpair : DefaultPair (synced db).roles (synced db).permissions pair) :
    pair ∈ (synced db).rolePermissions := by
  have hc := constraints_synced h
  refine List.mem_append.mpr ?_
  by_cases hold : pair ∈ db.rolePermissions
  · exact Or.inl hold
  · exact Or.inr ((mem_missingPairs_iff hc.roleNames hc.permissionCodes).mpr ⟨hold, hpair⟩)

theorem seeded_synced {db : Database} (h : Constraints db) : Seeded db (synced db) where
  constraints := constraints_synced h
  roles := role_seeded h
  permissions := permission_seeded h
  rolesKept r hr := ⟨_, roleTable.exists_mem_upsertAll nodup_seedRoles hr,
    roleTable.ident_retouch seedRoles r, roleTable.key_retouch seedRoles r⟩
  permissionsKept p hp := ⟨_, permissionTable.exists_mem_upsertAll nodup_seedPermissions hp,
    permissionTable.ident_retouch seedPermissions p, permissionTable.key_retouch seedPermissions p⟩
  otherRoles := roleTable.filter_other_upsertAll nodup_seedRoles
    (fun _ => decide_eq_true_iff) db.roles
  otherPermissions := permissionTable.filter_other_upsertAll nodup_seedPermissions
    (fun _ => decide_eq_true_iff) db.permissions
  defaultPairs := by
    intro x hx code hcode
    obtain ⟨y, hy, hyx⟩ := defaultRoles_seeded x hx
    obtain ⟨z, hz, hzc⟩ := defaultCodes_seeded x hx code hcode
    obtain ⟨r, hr, hname, -⟩ := role_seeded h y hy
    obtain ⟨p, hp, hpc, -⟩ := permission_seeded h z hz
    exact ⟨r, hr, p, hp, hname.trans hyx, hpc.trans hzc, defaultPair_synced h
      ⟨x, hx, code, hcode, r, hr, p, hp, hname.trans hyx, hpc.trans hzc, rfl⟩⟩
  pairs := by
    have hc := constraints_synced h
    exact ⟨_, rfl, fun pair hpair =>
      (mem_missingPairs_iff hc.roleNames hc.permissionCodes).mp hpair⟩
  frame := rfl

/-- The second time, every statement finds what it would write. -/
theorem synced_synced {db : Database} (h : Constraints db) : synced (synced db) = synced db := by
  have hroles : (synced (synced db)).roles = (synced db).roles :=
    roleTable.upsertAll_upsertAll nodup_seedRoles db.roles
  have hpermissions : (synced (synced db)).permissions = (synced db).permissions :=
    permissionTable.upsertAll_upsertAll nodup_seedPermissions db.permissions
  have hc := constraints_synced h
  have hnone : missingPairs (synced (synced db)).roles (synced (synced db)).permissions
      (synced db).rolePermissions = [] := by
    rw [hroles, hpermissions, List.eq_nil_iff_forall_not_mem]
    intro pair hpair
    obtain ⟨hnew, hdefault⟩ := (mem_missingPairs_iff hc.roleNames hc.permissionCodes).mp hpair
    exact hnew (defaultPair_synced h hdefault)
  have hpairs : (synced (synced db)).rolePermissions = (synced db).rolePermissions := by
    calc (synced (synced db)).rolePermissions
        = (synced db).rolePermissions ++ missingPairs (synced (synced db)).roles
            (synced (synced db)).permissions (synced db).rolePermissions := rfl
      _ = (synced db).rolePermissions := by rw [hnone, List.append_nil]
  calc synced (synced db)
      = { synced db with
          roles := (synced (synced db)).roles
          permissions := (synced (synced db)).permissions
          rolePermissions := (synced (synced db)).rolePermissions } := rfl
    _ = synced db := by rw [hroles, hpermissions, hpairs]

/--
**`sync_authz` converges, and preserves what it does not seed.**  On every database it returns, and
a second run leaves what the first has committed.
-/
theorem syncAuthz_converges (rule : BeginRule) (rest : Ambient) (db : Database)
    (h : Constraints db) :
    ∃ db', Syncs rule rest db db' ∧ Seeded db db' ∧ Syncs rule rest db' db' := by
  refine ⟨synced db, syncAuthz_run rule rest h, seeded_synced h, ?_⟩
  have hagain := syncAuthz_run rule rest (constraints_synced h)
  rwa [synced_synced h] at hagain

/-- An `admin` with a text of its own, a role and a permission that are not seeded, and a pair. -/
def customised : Database :=
  { users := []
    roles := [⟨4, "auditor".toList, none⟩, ⟨9, "admin".toList, some "Everything".toList⟩]
    permissions := [⟨2, "doc.read".toList, none⟩, ⟨3, "report.read".toList, none⟩]
    rolePermissions := [⟨4, 3⟩, ⟨9, 2⟩]
    grants := [], workspaces := [], projects := [], assets := [], jobs := [] }

theorem syncAuthz_converges_customised :
    ∃ db', Syncs .refuse .empty customised db' ∧
      Seeded customised db' ∧
      Syncs .refuse .empty db' db' :=
  syncAuthz_converges .refuse .empty customised
    ⟨by decide, by decide, by decide, by decide, by decide⟩

end EnterpriseAssistant.Authz
