import Mathlib.Data.List.Nodup
import EnterpriseAssistant.Infra.App

/-!
# Seeding roles and permissions

`sync_authz` of `app/modules/authz/seed_sync.py` and the seed of `app/modules/authz/seed.py`.

* `nodup_missingPairs`, `notMem_of_mem_missingPairs` — no pair is added twice, or to what it is in
-/

namespace EnterpriseAssistant.Authz

open Py Core Auth Infra Program SqlSession

/-! ## The seed -/

/-- `ROLES`. -/
def seedRoles : List (Str × Str) :=
  [("owner".toList, "Workspace/Project owner".toList),
    ("admin".toList, "Workspace/Project admin".toList),
    ("editor".toList, "Can create/update resources".toList),
    ("viewer".toList, "Read-only access".toList)]

/-- `PERMISSIONS`. -/
def seedPermissions : List (Str × Str) :=
  [("workspace.manage".toList, "Manage workspace settings/members".toList),
    ("project.manage".toList, "Manage projects".toList),
    ("doc.read".toList, "Read documents".toList),
    ("doc.write".toList, "Create/update documents".toList),
    ("doc.delete".toList, "Delete documents".toList),
    ("audio.read".toList, "Read audio resources".toList),
    ("audio.search".toList, "Search audio content".toList),
    ("audio.write".toList, "Upload/update audio".toList),
    ("audio.delete".toList, "Delete audio".toList),
    ("image.read".toList, "Read images".toList),
    ("image.write".toList, "Upload/update images".toList),
    ("image.delete".toList, "Delete images".toList),
    ("ticket.read".toList, "Read tickets".toList),
    ("ticket.create".toList, "Create tickets".toList),
    ("ticket.approve".toList, "Approve tickets".toList),
    ("ticket.close".toList, "Close tickets".toList)]

/-- `_ALL_PERM_CODES`. -/
def allPermCodes : List Str := seedPermissions.map Prod.fst

/-- `DEFAULT_ROLE_PERMS`. -/
def defaultRolePerms : List (Str × List Str) :=
  [("owner".toList, allPermCodes),
    ("admin".toList, allPermCodes),
    ("editor".toList,
      ["doc.read".toList, "doc.write".toList, "audio.read".toList, "audio.search".toList,
        "audio.write".toList, "image.read".toList, "image.write".toList, "ticket.read".toList,
        "ticket.create".toList]),
    ("viewer".toList,
      ["doc.read".toList, "audio.read".toList, "audio.search".toList, "image.read".toList,
        "ticket.read".toList])]

/-! ## Statements -/

/-- `insert(Role).on_conflict_do_update(..)`. -/
def upsertRole (name desc : Str) (db : Database) : Database :=
  if (roleByName db.roles name).isSome then
    { db with
      roles := db.roles.map fun r =>
        if r.name = name then { r with description := some desc } else r }
  else
    { db with
      roles := db.roles ++
        [{ id := freshId (db.roles.map fun r => r.id), name := name, description := some desc }] }

/-- `insert(Permission).on_conflict_do_update(..)`. -/
def upsertPermission (code desc : Str) (db : Database) : Database :=
  if db.permissions.any (fun p => p.code == code) then
    { db with
      permissions := db.permissions.map fun p =>
        if p.code = code then { p with description := some desc } else p }
  else
    { db with
      permissions := db.permissions ++
        [{ id := freshId (db.permissions.map fun p => p.id), code := code
           description := some desc }] }

/-- The pairs that the last loop of `sync_authz` adds. -/
def missingPairs (roles : List Role) (permissions : List Permission)
    (existing : List RolePermission) : List RolePermission :=
  defaultRolePerms.flatMap fun (roleName, permCodes) =>
    match roleByName roles roleName with
    | none => []
    | some role =>
      permCodes.filterMap fun code =>
        match permissions.find? fun p => p.code == code with
        | none => none
        | some p =>
          if (⟨role.id, p.id⟩ : RolePermission) ∈ existing then none else some ⟨role.id, p.id⟩

/-- The flush of the added pairs; the primary key is the pair. -/
def insertPairs (pairs : List RolePermission) (db : Database) : Except Exn (Unit × Database) :=
  if (pairs ++ db.rolePermissions).Nodup ∨ pairs = [] then
    .ok ((), { db with rolePermissions := db.rolePermissions ++ pairs })
  else .error .integrity

/-- The body of the transaction of `sync_authz`. -/
def syncAuthzBody : App Unit := do
  Prog.forEach seedRoles fun (name, desc) => execute fun db => .ok ((), upsertRole name desc db)
  Prog.forEach seedPermissions fun (code, desc) =>
    execute fun db => .ok ((), upsertPermission code desc db)
  let roles ← select fun db => db.roles
  let permissions ← select fun db => db.permissions
  let existing ← select fun db => db.rolePermissions
  execute (insertPairs (missingPairs roles permissions existing))

def syncAuthz (rule : BeginRule) : App Unit := begin rule syncAuthzBody

/-! ## The missing pairs -/

theorem nodup_defaultRolePerms : (defaultRolePerms.map Prod.fst).Nodup := by decide +kernel

theorem nodup_permCodes : ∀ x ∈ defaultRolePerms, x.2.Nodup := by decide +kernel

/-- The pair of a role and a code, if it is missing. -/
def missingPair (permissions : List Permission) (existing : List RolePermission) (role : Role)
    (code : Str) : Option RolePermission :=
  match permissions.find? fun p => p.code == code with
  | none => none
  | some p =>
    if (⟨role.id, p.id⟩ : RolePermission) ∈ existing then none else some ⟨role.id, p.id⟩

theorem missingPairs_eq (roles : List Role) (permissions : List Permission)
    (existing : List RolePermission) :
    missingPairs roles permissions existing = defaultRolePerms.flatMap fun x =>
      match roleByName roles x.1 with
      | none => []
      | some role => x.2.filterMap (missingPair permissions existing role) := rfl

section Missing

variable {permissions : List Permission} {existing : List RolePermission} {role : Role}

theorem missingPair_eq_some {code : Str} {pair : RolePermission}
    (h : missingPair permissions existing role code = some pair) :
    ∃ p ∈ permissions, p.code = code ∧ pair = ⟨role.id, p.id⟩ ∧ pair ∉ existing := by
  unfold missingPair at h
  split at h
  · cases h
  · next p hp =>
    split at h
    · cases h
    · next hnew =>
      cases h
      exact ⟨p, List.mem_of_find?_eq_some hp, by simpa using List.find?_some hp, rfl, hnew⟩

/-- Two codes have two permissions. -/
theorem nodup_filterMap_missingPair (hids : (permissions.map Permission.id).Nodup)
    {codes : List Str} (hcodes : codes.Nodup) :
    (codes.filterMap (missingPair permissions existing role)).Nodup := by
  refine List.Nodup.filterMap (fun code code' pair hpair hpair' => ?_) hcodes
  obtain ⟨p, hp, rfl, heq, -⟩ := missingPair_eq_some hpair
  obtain ⟨p', hp', rfl, heq', -⟩ := missingPair_eq_some hpair'
  have hid : p.id = p'.id := congrArg RolePermission.permId (heq.symm.trans heq')
  rw [List.inj_on_of_nodup_map hids hp hp' hid]

theorem mem_filterMap_missingPair {codes : List Str} {pair : RolePermission}
    (h : pair ∈ codes.filterMap (missingPair permissions existing role)) :
    pair.roleId = role.id ∧ pair ∉ existing := by
  obtain ⟨code, -, hpair⟩ := List.mem_filterMap.mp h
  obtain ⟨p, -, -, rfl, hnew⟩ := missingPair_eq_some hpair
  exact ⟨rfl, hnew⟩

end Missing

/-- Two roles have no pair in common, so nothing is added twice. -/
theorem nodup_missingPairs {roles : List Role} {permissions : List Permission}
    (existing : List RolePermission) (hroles : (roles.map Role.id).Nodup)
    (hpermissions : (permissions.map Permission.id).Nodup) :
    (missingPairs roles permissions existing).Nodup := by
  rw [missingPairs_eq, List.nodup_flatMap]
  constructor
  · intro x hx
    split
    · exact List.nodup_nil
    · exact nodup_filterMap_missingPair hpermissions (nodup_permCodes x hx)
  · refine (List.pairwise_map.mp nodup_defaultRolePerms).imp fun {x y} hne => ?_
    intro pair hpair hpair'
    cases hx : roleByName roles x.1 with
    | none => simp [hx] at hpair
    | some role =>
      cases hy : roleByName roles y.1 with
      | none => simp [hy] at hpair'
      | some role' =>
        simp only [hx] at hpair
        simp only [hy] at hpair'
        have hid : role.id = role'.id :=
          (mem_filterMap_missingPair hpair).1.symm.trans (mem_filterMap_missingPair hpair').1
        obtain rfl := List.inj_on_of_nodup_map hroles (List.mem_of_find?_eq_some hx)
          (List.mem_of_find?_eq_some hy) hid
        have hname : role.name = x.1 := by simpa using List.find?_some hx
        have hname' : role.name = y.1 := by simpa using List.find?_some hy
        exact hne (hname.symm.trans hname')

theorem notMem_of_mem_missingPairs {roles : List Role} {permissions : List Permission}
    {existing : List RolePermission} {pair : RolePermission}
    (h : pair ∈ missingPairs roles permissions existing) : pair ∉ existing := by
  rw [missingPairs_eq] at h
  obtain ⟨x, -, hpair⟩ := List.mem_flatMap.mp h
  split at hpair
  · cases hpair
  · exact (mem_filterMap_missingPair hpair).2

end EnterpriseAssistant.Authz
