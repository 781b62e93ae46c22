import EnterpriseAssistant.Lib.Interleaving
import EnterpriseAssistant.Lib.ReadCommitted
import EnterpriseAssistant.Authz.SeedSync

/-!
# Instances that start together

Any number of `sync_authz`, from the `lifespan` of as many instances of the application, over one
database.  Every statement is a step, and so is the end of the block.

The missing pairs are computed from what has been read before.  They are still missing when they are
inserted because the first upsert of an instance holds its row to the commit: there is never more
than one instance behind it.

* `StartInv.step` — who is behind its first upsert holds the role
* `startUp_safe` — nobody inserts a pair that is there already
-/

namespace EnterpriseAssistant.Authz.StartUp

open Py Core Auth Authz Interleaving System ReadCommitted

structure AuthzTables where
  roles : Table Role
  permissions : Table Permission
  pairs : Table RolePermission

/-- A `sync_authz`, at its next statement. -/
inductive Instance where
  /-- in the loop over `ROLES` -/
  | upsertRoles (rest : List (Str × Str))
  /-- in the loop over `PERMISSIONS` -/
  | upsertPermissions (rest : List (Str × Str))
  | selectRoles
  | selectPermissions (roles : List Role)
  | selectPairs (roles : List Role) (permissions : List Permission)
  /-- the end of the block, with the pairs that are still to be flushed -/
  | insert (rest : List RolePermission)
  | done
  /-- with an `IntegrityError` -/
  | failed
  /-- the process or its connection is gone -/
  | died

inductive Choice where
  /-- the statement, with the next number of its sequence -/
  | go (newId : Int)
  | dies

/-! ## The steps -/

abbrev StartMove := Move AuthzTables Instance Empty

def goOn (s : AuthzTables) (th : Instance) : StartMove := { shared := s, thread := th, obs := [] }

def AuthzTables.rollback (s : AuthzTables) (t : Nat) : AuthzTables :=
  { roles := s.roles.rollback t, permissions := s.permissions.rollback t
    pairs := s.pairs.rollback t }

def AuthzTables.commit (s : AuthzTables) (t : Nat) : AuthzTables :=
  { roles := s.roles.commit Role.name t, permissions := s.permissions.commit Permission.code t
    pairs := s.pairs.commit id t }

def upsertRolesStep (s : AuthzTables) (t : Nat) (newId : Int) : List (Str × Str) → Option StartMove
  | [] => some (goOn s (.upsertPermissions seedPermissions))
  | (name, desc) :: rest =>
    if s.roles.unused Role.id newId then
      (s.roles.upsert Role.name t { id := newId, name := name, description := some desc }
        fun r => { r with description := some desc }).map fun roles =>
          goOn { s with roles := roles } (.upsertRoles rest)
    else none

def upsertPermissionsStep (s : AuthzTables) (t : Nat) (newId : Int) :
    List (Str × Str) → Option StartMove
  | [] => some (goOn s .selectRoles)
  | (code, desc) :: rest =>
    if s.permissions.unused Permission.id newId then
      (s.permissions.upsert Permission.code t
        { id := newId, code := code, description := some desc }
        fun p => { p with description := some desc }).map fun permissions =>
          goOn { s with permissions := permissions } (.upsertPermissions rest)
    else none

def insertStep (s : AuthzTables) (t : Nat) : List RolePermission → Option StartMove
  | [] => some (goOn (s.commit t) .done)
  | pair :: rest =>
    -- the primary key is the pair
    match s.pairs.insert id t pair with
    | .waits => none
    | .conflict => some (goOn (s.rollback t) .failed)
    | .inserted pairs => some (goOn { s with pairs := pairs } (.insert rest))

def goStep (s : AuthzTables) (t : Nat) (newId : Int) : Instance → Option StartMove
  | .upsertRoles rest => upsertRolesStep s t newId rest
  | .upsertPermissions rest => upsertPermissionsStep s t newId rest
  | .selectRoles => some (goOn s (.selectPermissions (s.roles.view Role.name t)))
  | .selectPermissions roles =>
    some (goOn s (.selectPairs roles (s.permissions.view Permission.code t)))
  | .selectPairs roles permissions =>
    some (goOn s (.insert (missingPairs roles permissions (s.pairs.view id t))))
  | .insert rest => insertStep s t rest
  | .done | .failed | .died => none

def Instance.ended : Instance → Bool
  | .done | .failed | .died => true
  | _ => false

/-- Nothing happens to the tables but what the instances do. -/
def startSystem : System AuthzTables Instance Choice Empty Empty where
  step s t th ch :=
    match ch with
    | .go newId => goStep s t newId th
    | .dies => if th.ended then none else some (goOn (s.rollback t) .died)
  env _ e := nomatch e

abbrev StartConfig := Config AuthzTables Instance Empty

/-- What the unique constraints say about the content of the database. -/
structure Content where
  roles : List Role
  permissions : List Permission
  pairs : List RolePermission
  names : (roles.map Role.name).Nodup
  roleIds : (roles.map Role.id).Nodup
  codes : (permissions.map Permission.code).Nodup
  permissionIds : (permissions.map Permission.id).Nodup
  pairs_nodup : pairs.Nodup

/-- `n` instances start on this content. -/
def startUp (content : Content) (n : Nat) : StartConfig :=
  .start
    { roles := { committed := content.roles, written := [] }
      permissions := { committed := content.permissions, written := [] }
      pairs := { committed := content.pairs, written := [] } }
    (List.replicate n (.upsertRoles seedRoles))

/-! ## What a step does -/

/-- A step that writes nothing. -/
inductive Reads (s : AuthzTables) (t : Nat) : Instance → Instance → Prop where
  | rolesDone : Reads s t (.upsertRoles []) (.upsertPermissions seedPermissions)
  | permissionsDone : Reads s t (.upsertPermissions []) .selectRoles
  | roles : Reads s t .selectRoles (.selectPermissions (s.roles.view Role.name t))
  | permissions (roles : List Role) :
      Reads s t (.selectPermissions roles)
        (.selectPairs roles (s.permissions.view Permission.code t))
  | pairs (roles : List Role) (permissions : List Permission) :
      Reads s t (.selectPairs roles permissions)
        (.insert (missingPairs roles permissions (s.pairs.view id t)))

inductive StartStep (s : AuthzTables) (t : Nat) : Instance → AuthzTables → Instance → Prop where
  | reads {th th' : Instance} (h : Reads s t th th') : StartStep s t th s th'
  | role {name desc : Str} {rest : List (Str × Str)} {newId : Int} {roles' : Table Role}
      (hunused : s.roles.unused Role.id newId = true)
      (hup : s.roles.upsert Role.name t { id := newId, name := name, description := some desc }
        (fun r => { r with description := some desc }) = some roles') :
      StartStep s t (.upsertRoles ((name, desc) :: rest)) { s with roles := roles' }
        (.upsertRoles rest)
  | permission {code desc : Str} {rest : List (Str × Str)} {newId : Int}
      {permissions' : Table Permission} (hunused : s.permissions.unused Permission.id newId = true)
      (hup : s.permissions.upsert Permission.code t
        { id := newId, code := code, description := some desc }
        (fun p => { p with description := some desc }) = some permissions') :
      StartStep s t (.upsertPermissions ((code, desc) :: rest))
        { s with permissions := permissions' } (.upsertPermissions rest)
  | inserted {pair : RolePermission} {rest : List RolePermission}
      (hfree : s.pairs.held id t pair = false) (hnone : pair ∉ s.pairs.view id t) :
      StartStep s t (.insert (pair :: rest))
        { s with pairs := s.pairs.write { tx := t, row := pair, isNew := true } } (.insert rest)
  | conflict {pair : RolePermission} {rest : List RolePermission}
      (hsome : pair ∈ s.pairs.view id t) :
      StartStep s t (.insert (pair :: rest)) (s.rollback t) .failed
  | committed : StartStep s t (.insert []) (s.commit t) .done
  | dies {th : Instance} : StartStep s t th (s.rollback t) .died

theorem step_cases {s : AuthzTables} {t : Nat} {th : Instance} {ch : Choice} {m : StartMove}
    (h : startSystem.step s t th ch = some m) : StartStep s t th m.shared m.thread := by
  cases ch with
  | dies =>
    simp only [startSystem] at h
    split at h
    · cases h
    · cases h
      exact .dies
  | go newId =>
    cases th with
    | upsertRoles rest =>
      cases rest with
      | nil =>
        cases h
        exact .reads .rolesDone
      | cons x rest =>
        obtain ⟨name, desc⟩ := x
        simp only [startSystem, goStep, upsertRolesStep] at h
        split at h
        · next hunused =>
          obtain ⟨roles', hup, rfl⟩ := Option.map_eq_some_iff.mp h
          exact .role hunused hup
        · cases h
    | upsertPermissions rest =>
      cases rest with
      | nil =>
        cases h
        exact .reads .permissionsDone
      | cons x rest =>
        obtain ⟨code, desc⟩ := x
        simp only [startSystem, goStep, upsertPermissionsStep] at h
        split at h
        · next hunused =>
          obtain ⟨permissions', hup, rfl⟩ := Option.map_eq_some_iff.mp h
          exact .permission hunused hup
        · cases h
    | selectRoles =>
      cases h
      exact .reads .roles
    | selectPermissions roles =>
      cases h
      exact .reads (.permissions roles)
    | selectPairs roles permissions =>
      cases h
      exact .reads (.pairs roles permissions)
    | insert rest =>
      cases rest with
      | nil =>
        cases h
        exact .committed
      | cons pair rest =>
        simp only [startSystem, goStep, insertStep] at h
        split at h
        · cases h
        · next hconflict =>
          cases h
          refine .conflict ?_
          simpa using s.pairs.insert_conflict id hconflict
        · next pairs' hinserted =>
          cases h
          obtain ⟨hfree, hnone, rfl⟩ := s.pairs.insert_inserted id hinserted
          exact .inserted hfree (by simpa using hnone)
    | done => cases h
    | failed => cases h
    | died => cases h

/-! ## Behind the first upsert -/

/-- The instance has upserted its first role, and its block is still open. -/
def Instance.inside : Instance → Bool
  | .upsertRoles rest => rest.length < seedRoles.length
  | .done | .failed | .died => false
  | _ => true

/-- Transaction `t` has written something. -/
def AuthzTables.Wrote (s : AuthzTables) (t : Nat) : Prop :=
  (∃ w ∈ s.roles.written, w.tx = t) ∨ (∃ w ∈ s.permissions.written, w.tx = t) ∨
    ∃ w ∈ s.pairs.written, w.tx = t

/-- Transaction `t` holds the first role. -/
def AuthzTables.Holds (s : AuthzTables) (t : Nat) : Prop :=
  ∃ w ∈ s.roles.written, w.tx = t ∧ w.row.name = "owner".toList

/-- What an instance knows. -/
def Instance.Fits (s : AuthzTables) (t : Nat) : Instance → Prop
  | .upsertRoles rest => rest = seedRoles ∨ rest.length < seedRoles.length
  | .selectPermissions roles => (roles.map Role.id).Nodup
  | .selectPairs roles permissions =>
    (roles.map Role.id).Nodup ∧ (permissions.map Permission.id).Nodup
  | .insert rest => rest.Nodup ∧ ∀ pair ∈ rest, pair ∉ s.pairs.view id t
  | .failed => False
  | .upsertPermissions _ | .selectRoles | .done | .died => True

structure StartInv (c : StartConfig) : Prop where
  roles : Keyed Role.name c.shared.roles
  permissions : Keyed Permission.code c.shared.permissions
  pairs : Keyed id c.shared.pairs
  roleIds : UniqueIds Role.name Role.id c.shared.roles
  permissionIds : UniqueIds Permission.code Permission.id c.shared.permissions
  writer : ∀ t, c.shared.Wrote t → ∃ th, c.threads[t]? = some th ∧ th.inside = true
  holds : ∀ (t : Nat) (th : Instance), c.threads[t]? = some th → th.inside = true →
    c.shared.Holds t
  fits : ∀ (t : Nat) (th : Instance), c.threads[t]? = some th → th.Fits c.shared t

theorem startInv_startUp (content : Content) (n : Nat) : StartInv (startUp content n) where
  roles := .start content.names
  permissions := .start content.codes
  pairs := .start (by simpa using content.pairs_nodup)
  roleIds := .start content.roleIds
  permissionIds := .start content.permissionIds
  writer t h := by
    rcases h with ⟨w, hw, -⟩ | ⟨w, hw, -⟩ | ⟨w, hw, -⟩
    · cases hw
    · cases hw
    · cases hw
  holds t th hth hinside := by
    rw [List.eq_of_mem_replicate (List.mem_of_getElem? hth)] at hinside
    simp [Instance.inside] at hinside
  fits t th hth := by
    rw [List.eq_of_mem_replicate (List.mem_of_getElem? hth)]
    exact Or.inl rfl

/-- The next thing that is read fits, and nobody leaves or enters. -/
theorem Reads.spec {s : AuthzTables} {t : Nat} {th th' : Instance} (h : Reads s t th th')
    (hroles : UniqueIds Role.name Role.id s.roles)
    (hpermissions : UniqueIds Permission.code Permission.id s.permissions)
    (hfits : th.Fits s t) : th'.Fits s t ∧ th.inside = true ∧ th'.inside = true := by
  cases h with
  | rolesDone => exact ⟨trivial, rfl, rfl⟩
  | permissionsDone => exact ⟨trivial, rfl, rfl⟩
  | roles => exact ⟨hroles.view t, rfl, rfl⟩
  | permissions roles => exact ⟨⟨hfits, hpermissions.view t⟩, rfl, rfl⟩
  | pairs roles permissions =>
    refine ⟨⟨nodup_missingPairs _ hfits.1 hfits.2, fun pair hpair => ?_⟩, rfl, rfl⟩
    exact notMem_of_mem_missingPairs hpair

/-- What the others know stands as long as they see the same pairs. -/
theorem Instance.Fits.other {s s' : AuthzTables} {t : Nat} {th : Instance} (hfits : th.Fits s t)
    (hview : s'.pairs.view id t = s.pairs.view id t) : th.Fits s' t := by
  cases th with
  | insert rest =>
    rw [Instance.Fits, hview]
    exact hfits
  | failed => exact hfits
  | upsertRoles rest => exact hfits
  | selectPermissions roles => exact hfits
  | selectPairs roles permissions => exact hfits
  | upsertPermissions rest => trivial
  | selectRoles => trivial
  | done => trivial
  | died => trivial

/-- An instance that is not behind its first upsert knows nothing. -/
theorem Instance.Fits.outside {s s' : AuthzTables} {t : Nat} {th : Instance} (hfits : th.Fits s t)
    (hout : th.inside = false) : th.Fits s' t := by
  cases th with
  | insert rest => cases hout
  | selectPermissions roles => cases hout
  | selectPairs roles permissions => cases hout
  | upsertPermissions rest => cases hout
  | selectRoles => cases hout
  | upsertRoles rest => exact hfits
  | failed => exact hfits
  | done => trivial
  | died => trivial

/-- A transaction that has ended has nothing written any more. -/
theorem wrote_rollback {s : AuthzTables} {t t' : Nat} (h : (s.rollback t).Wrote t') :
    t' ≠ t ∧ s.Wrote t' := by
  rcases h with ⟨w, hw, rfl⟩ | ⟨w, hw, rfl⟩ | ⟨w, hw, rfl⟩
  · obtain ⟨hmem, hne⟩ := List.mem_filter.mp hw
    exact ⟨by simpa using hne, Or.inl ⟨w, hmem, rfl⟩⟩
  · obtain ⟨hmem, hne⟩ := List.mem_filter.mp hw
    exact ⟨by simpa using hne, Or.inr (Or.inl ⟨w, hmem, rfl⟩)⟩
  · obtain ⟨hmem, hne⟩ := List.mem_filter.mp hw
    exact ⟨by simpa using hne, Or.inr (Or.inr ⟨w, hmem, rfl⟩)⟩

theorem wrote_commit {s : AuthzTables} {t t' : Nat} (h : (s.commit t).Wrote t') :
    t' ≠ t ∧ s.Wrote t' :=
  wrote_rollback (s := s) h

theorem holds_rollback {s : AuthzTables} {t t' : Nat} (hne : t' ≠ t) (h : s.Holds t') :
    (s.rollback t).Holds t' := by
  obtain ⟨w, hw, rfl, hname⟩ := h
  exact ⟨w, List.mem_filter.mpr ⟨hw, by simpa using hne⟩, rfl, hname⟩

namespace StartInv

variable {c : StartConfig} {t : Nat}

/-- There is never more than one instance behind its first upsert. -/
theorem inside_unique (hinv : StartInv c) {t' : Nat} {th th' : Instance}
    (hth : c.threads[t]? = some th) (hin : th.inside = true) (hth' : c.threads[t']? = some th')
    (hin' : th'.inside = true) : t = t' := by
  obtain ⟨w, hw, rfl, hname⟩ := hinv.holds t th hth hin
  obtain ⟨w', hw', rfl, hname'⟩ := hinv.holds t' th' hth' hin'
  exact hinv.roles.exclusive w hw w' hw' (hname.trans hname'.symm)

/-- While an instance is behind its first upsert, everything that is written is its own. -/
theorem alone (hinv : StartInv c) {th : Instance} (hth : c.threads[t]? = some th)
    (hin : th.inside = true) {t' : Nat} (hwrote : c.shared.Wrote t') : t' = t := by
  obtain ⟨th', hth', hin'⟩ := hinv.writer t' hwrote
  exact hinv.inside_unique hth' hin' hth hin

/-- Who has written something is still there when another instance moves. -/
theorem writer_set (hinv : StartInv c) {th' : Instance} {s' : AuthzTables}
    (hself : s'.Wrote t → t < c.threads.length ∧ th'.inside = true)
    (hother : ∀ t', t' ≠ t → s'.Wrote t' → c.shared.Wrote t') :
    ∀ t', s'.Wrote t' → ∃ th, (c.threads.set t th')[t']? = some th ∧ th.inside = true := by
  intro t' hwrote
  by_cases ht : t' = t
  · subst ht
    obtain ⟨hlt, hin⟩ := hself hwrote
    exact ⟨th', List.getElem?_set_self hlt, hin⟩
  · obtain ⟨th, hth, hin⟩ := hinv.writer t' (hother t' ht hwrote)
    exact ⟨th, (List.getElem?_set_ne (Ne.symm ht)).trans hth, hin⟩

theorem step_reads (hinv : StartInv c) {th th' : Instance} (hth : c.threads[t]? = some th)
    (h : Reads c.shared t th th') : StartInv (after c t (goOn c.shared th')) := by
  obtain ⟨hfits, hin, hin'⟩ := h.spec hinv.roleIds hinv.permissionIds (hinv.fits t th hth)
  have hlt := (List.getElem?_eq_some_iff.mp hth).1
  refine ⟨hinv.roles, hinv.permissions, hinv.pairs, hinv.roleIds, hinv.permissionIds, ?_, ?_, ?_⟩
  · exact hinv.writer_set (fun _ => ⟨hlt, hin'⟩) fun _ _ hwrote => hwrote
  · exact forall_set hinv.holds fun _ => hinv.holds t th hth hin
  · exact forall_set hinv.fits hfits

/-- The first upsert lets an instance in; the others find it there. -/
theorem step_role (hinv : StartInv c) {name desc : Str} {rest : List (Str × Str)} {newId : Int}
    {roles' : Table Role} (hth : c.threads[t]? = some (.upsertRoles ((name, desc) :: rest)))
    (hunused : c.shared.roles.unused Role.id newId = true)
    (hup : c.shared.roles.upsert Role.name t
      { id := newId, name := name, description := some desc }
      (fun r => { r with description := some desc }) = some roles') :
    StartInv (after c t (goOn { c.shared with roles := roles' } (.upsertRoles rest))) := by
  have hlt := (List.getElem?_eq_some_iff.mp hth).1
  have hfits := hinv.fits t _ hth
  have hshort : rest.length < seedRoles.length := by
    rcases hfits with heq | hlen
    · rw [← heq]
      exact Nat.lt_succ_self _
    · exact Nat.lt_of_succ_lt hlen
  have hchange : ∀ r : Role, ({ r with description := some desc } : Role).name = r.name :=
    fun _ => rfl
  have hid : ∀ r : Role, ({ r with description := some desc } : Role).id = r.id := fun _ => rfl
  obtain ⟨-, w, rfl, hname, rfl⟩ := c.shared.roles.upsert_write Role.name hchange hup
  refine ⟨hinv.roles.upsert hchange hup, hinv.permissions, hinv.pairs,
    hinv.roleIds.upsert hinv.roles hunused hchange hid hup, hinv.permissionIds, ?_, ?_, ?_⟩
  · refine hinv.writer_set (fun _ => ⟨hlt, decide_eq_true hshort⟩) fun t' hne hwrote => ?_
    rcases hwrote with ⟨x, hx, rfl⟩ | hrest
    · exact Or.inl ⟨x, Table.mem_written_of_ne hx hne, rfl⟩
    · exact Or.inr hrest
  · refine forall_set (fun i x hx hin => ?_) fun _ => ?_
    · obtain ⟨y, hy, htx, hrow⟩ := hinv.holds i x hx hin
      exact ⟨y, List.mem_append_left _ hy, htx, hrow⟩
    · rcases hfits with heq | hlen
      · have howner : name = "owner".toList := congrArg Prod.fst (List.cons.inj heq).1
        exact ⟨w, List.mem_append_right _ List.mem_cons_self, rfl, hname.trans howner⟩
      · obtain ⟨y, hy, htx, hrow⟩ := hinv.holds w.tx _ hth (decide_eq_true hlen)
        exact ⟨y, List.mem_append_left _ hy, htx, hrow⟩
  · exact forall_set (fun i x hx => (hinv.fits i x hx).other rfl) (Or.inr hshort)

theorem step_permission (hinv : StartInv c) {code desc : Str} {rest : List (Str × Str)}
    {newId : Int} {permissions' : Table Permission}
    (hth : c.threads[t]? = some (.upsertPermissions ((code, desc) :: rest)))
    (hunused : c.shared.permissions.unused Permission.id newId = true)
    (hup : c.shared.permissions.upsert Permission.code t
      { id := newId, code := code, description := some desc }
      (fun p => { p with description := some desc }) = some permissions') :
    StartInv (after c t (goOn { c.shared with permissions := permissions' }
      (.upsertPermissions rest))) := by
  have hlt := (List.getElem?_eq_some_iff.mp hth).1
  have hchange : ∀ p : Permission,
      ({ p with description := some desc } : Permission).code = p.code := fun _ => rfl
  have hid : ∀ p : Permission, ({ p with description := some desc } : Permission).id = p.id :=
    fun _ => rfl
  obtain ⟨-, w, rfl, -, rfl⟩ :=
    c.shared.permissions.upsert_write Permission.code hchange hup
  refine ⟨hinv.roles, hinv.permissions.upsert hchange hup, hinv.pairs, hinv.roleIds,
    hinv.permissionIds.upsert hinv.permissions hunused hchange hid hup, ?_, ?_, ?_⟩
  · refine hinv.writer_set (fun _ => ⟨hlt, rfl⟩) fun t' hne hwrote => ?_
    rcases hwrote with hroles | ⟨x, hx, rfl⟩ | hpairs
    · exact Or.inl hroles
    · exact Or.inr (Or.inl ⟨x, Table.mem_written_of_ne hx hne, rfl⟩)
    · exact Or.inr (Or.inr hpairs)
  · exact forall_set hinv.holds fun _ => hinv.holds w.tx _ hth rfl
  · exact forall_set (fun i x hx => (hinv.fits i x hx).other rfl) trivial

/-- The rest of the pairs stay missing when one of them is inserted. -/
theorem step_inserted (hinv : StartInv c) {pair : RolePermission} {rest : List RolePermission}
    (hth : c.threads[t]? = some (.insert (pair :: rest)))
    (hfree : c.shared.pairs.held id t pair = false) (hnone : pair ∉ c.shared.pairs.view id t) :
    StartInv (after c t (goOn
      { c.shared with pairs := c.shared.pairs.write { tx := t, row := pair, isNew := true } }
      (.insert rest))) := by
  have hlt := (List.getElem?_eq_some_iff.mp hth).1
  obtain ⟨hnodup, hmissing⟩ := hinv.fits t _ hth
  obtain ⟨hpair, hrest⟩ := List.nodup_cons.mp hnodup
  refine ⟨hinv.roles, hinv.permissions, hinv.pairs.write_new hfree (by simpa using hnone),
    hinv.roleIds, hinv.permissionIds, ?_, ?_, ?_⟩
  · refine hinv.writer_set (fun _ => ⟨hlt, rfl⟩) fun t' hne hwrote => ?_
    rcases hwrote with hroles | hpermissions | ⟨x, hx, rfl⟩
    · exact Or.inl hroles
    · exact Or.inr (Or.inl hpermissions)
    · exact Or.inr (Or.inr ⟨x, Table.mem_written_of_ne hx hne, rfl⟩)
  · exact forall_set hinv.holds fun _ => hinv.holds t _ hth rfl
  · refine forall_set_of_ne (fun i x hne hx => (hinv.fits i x hx).other ?_) ⟨hrest, ?_⟩
    · exact c.shared.pairs.view_write_other id (w := { tx := t, row := pair, isNew := true }) hne
    · intro x hx hseen
      have hview : (c.shared.pairs.write { tx := t, row := pair, isNew := true }).view id t
          = c.shared.pairs.view id t ++ [pair] :=
        c.shared.pairs.view_write_self id { tx := t, row := pair, isNew := true }
      rcases List.mem_append.mp (hview ▸ hseen) with hold | hnew
      · exact hmissing x (List.mem_cons_of_mem _ hx) hold
      · exact hpair (List.mem_singleton.mp hnew ▸ hx)

/-- The instance that is inside publishes everything that is written, and leaves. -/
theorem step_committed (hinv : StartInv c) (hth : c.threads[t]? = some (.insert [])) :
    StartInv (after c t (goOn (c.shared.commit t) .done)) := by
  have halone : ∀ t', c.shared.Wrote t' → t' = t := fun _ hwrote => hinv.alone hth rfl hwrote
  have hout : ∀ (i : Nat) (x : Instance), i ≠ t → c.threads[i]? = some x → x.inside = false := by
    intro i x hne hx
    by_contra hin
    exact hne (hinv.inside_unique hx (by simpa using hin) hth rfl)
  refine ⟨hinv.roles.commit t, hinv.permissions.commit t, hinv.pairs.commit t,
    hinv.roleIds.commit fun w hw => halone _ (Or.inl ⟨w, hw, rfl⟩),
    hinv.permissionIds.commit fun w hw => halone _ (Or.inr (Or.inl ⟨w, hw, rfl⟩)), ?_, ?_, ?_⟩
  · refine hinv.writer_set (fun hwrote => ?_) fun t' _ hwrote => (wrote_commit hwrote).2
    exact absurd rfl (wrote_commit hwrote).1
  · refine forall_set_of_ne (fun i x hne hx hin => ?_) fun hin => nomatch hin
    rw [hout i x hne hx] at hin
    cases hin
  · exact forall_set_of_ne (fun i x hne hx => (hinv.fits i x hx).outside (hout i x hne hx)) trivial

theorem step_dies (hinv : StartInv c) :
    StartInv (after c t (goOn (c.shared.rollback t) .died)) := by
  refine ⟨hinv.roles.rollback t, hinv.permissions.rollback t, hinv.pairs.rollback t,
    hinv.roleIds.rollback t, hinv.permissionIds.rollback t, ?_, ?_, ?_⟩
  · refine hinv.writer_set (fun hwrote => ?_) fun t' _ hwrote => (wrote_rollback hwrote).2
    exact absurd rfl (wrote_rollback hwrote).1
  · refine forall_set_of_ne (fun i x hne hx hin => ?_) fun hin => nomatch hin
    exact holds_rollback hne (hinv.holds i x hx hin)
  · refine forall_set_of_ne (fun i x hne hx => (hinv.fits i x hx).other ?_) trivial
    exact c.shared.pairs.view_rollback_other id hne

theorem step (hinv : StartInv c) {e : Event Choice Empty} {c' : StartConfig}
    (he : startSystem.fire c e = some c') : StartInv c' := by
  cases e with
  | env e => cases e
  | run t ch =>
    obtain ⟨th, m, hth, hm, rfl⟩ := fire_run _ he
    have hstep := step_cases hm
    obtain ⟨s', th', obs⟩ := m
    obtain rfl : obs = [] := List.eq_nil_iff_forall_not_mem.mpr fun o => nomatch o
    cases hstep with
    | reads h => exact hinv.step_reads hth h
    | role hunused hup => exact hinv.step_role hth hunused hup
    | permission hunused hup => exact hinv.step_permission hth hunused hup
    | inserted hfree hnone => exact hinv.step_inserted hth hfree hnone
    | @conflict pair rest hsome =>
      -- the pair has been missing since it was computed
      exact absurd hsome ((hinv.fits t _ hth).2 pair List.mem_cons_self)
    | committed => exact hinv.step_committed hth
    | dies => exact hinv.step_dies

end StartInv

/-! ## Runs -/

/-- Nobody has failed, and nobody is about to insert a pair that is there already. -/
def Safe (c : StartConfig) : Prop :=
  ∀ (t : Nat) (th : Instance), c.threads[t]? = some th →
    th ≠ .failed ∧ ∀ pair rest, th = .insert (pair :: rest) → pair ∉ c.shared.pairs.committed

theorem StartInv.safe {c : StartConfig} (hinv : StartInv c) : Safe c := by
  intro t th hth
  have hfits := hinv.fits t th hth
  refine ⟨fun hfailed => ?_, fun pair rest hinsert hmem => ?_⟩
  · rw [hfailed] at hfits
    exact hfits
  · rw [hinsert] at hfits
    refine hfits.2 pair List.mem_cons_self ?_
    have hkeys := c.shared.pairs.keys_view id t
    rw [List.map_id, List.map_id] at hkeys
    rw [hkeys]
    exact List.mem_append_left _ hmem

/-- An instance whose writes are the only ones has nothing to wait for. -/
theorem goes_on {s : AuthzTables} {t : Nat} {th : Instance} (hopen : th.ended = false)
    (halone : ∀ t', s.Wrote t' → t' = t) :
    ∃ newId m, startSystem.step s t th (.go newId) = some m := by
  have hroles : ∀ name, s.roles.held Role.name t name = false := fun name =>
    (s.roles.held_eq_false_iff Role.name t).mpr fun w hw _ => halone _ (Or.inl ⟨w, hw, rfl⟩)
  have hpermissions : ∀ code, s.permissions.held Permission.code t code = false := fun code =>
    (s.permissions.held_eq_false_iff Permission.code t).mpr fun w hw _ =>
      halone _ (Or.inr (Or.inl ⟨w, hw, rfl⟩))
  have hpairs : ∀ pair, s.pairs.held id t pair = false := fun pair =>
    (s.pairs.held_eq_false_iff id t).mpr fun w hw _ => halone _ (Or.inr (Or.inr ⟨w, hw, rfl⟩))
  cases th with
  | upsertRoles rest =>
    cases rest with
    | nil => exact ⟨0, _, rfl⟩
    | cons x rest =>
      obtain ⟨newId, hunused⟩ := s.roles.exists_unused Role.id
      obtain ⟨roles', hup⟩ := s.roles.exists_upsert Role.name
        { id := newId, name := x.1, description := some x.2 }
        (fun r => { r with description := some x.2 }) (hroles x.1)
      refine ⟨newId, goOn { s with roles := roles' } (.upsertRoles rest), ?_⟩
      simp only [startSystem, goStep, upsertRolesStep, hunused, if_true, hup, Option.map_some]
  | upsertPermissions rest =>
    cases rest with
    | nil => exact ⟨0, _, rfl⟩
    | cons x rest =>
      obtain ⟨newId, hunused⟩ := s.permissions.exists_unused Permission.id
      obtain ⟨permissions', hup⟩ := s.permissions.exists_upsert Permission.code
        { id := newId, code := x.1, description := some x.2 }
        (fun p => { p with description := some x.2 }) (hpermissions x.1)
      refine ⟨newId, goOn { s with permissions := permissions' } (.upsertPermissions rest), ?_⟩
      simp only [startSystem, goStep, upsertPermissionsStep, hunused, if_true, hup,
        Option.map_some]
  | selectRoles => exact ⟨0, _, rfl⟩
  | selectPermissions roles => exact ⟨0, _, rfl⟩
  | selectPairs roles permissions => exact ⟨0, _, rfl⟩
  | insert rest =>
    cases rest with
    | nil => exact ⟨0, _, rfl⟩
    | cons pair rest =>
      have hne := s.pairs.insert_ne_waits id (hpairs pair)
      refine ⟨0, ?_⟩
      simp only [startSystem, goStep, insertStep]
      split
      · next hwaits => exact absurd hwaits hne
      · exact ⟨_, rfl⟩
      · exact ⟨_, rfl⟩
  | done => cases hopen
  | failed => cases hopen
  | died => cases hopen

/-- Nobody waits for ever: while the block of an instance is open, some instance can go on. -/
theorem some_instance_goes_on {c : StartConfig} (hinv : StartInv c) {t : Nat} {th : Instance}
    (hth : c.threads[t]? = some th) (hopen : th.ended = false) :
    ∃ t' newId c', startSystem.fire c (.run t' (.go newId)) = some c' := by
  by_cases hsome : ∃ t', c.shared.Wrote t'
  · -- the one that is inside
    obtain ⟨t', hwrote⟩ := hsome
    obtain ⟨th', hth', hin⟩ := hinv.writer t' hwrote
    have hopen' : th'.ended = false := by
      cases th' with
      | done => cases hin
      | failed => cases hin
      | died => cases hin
      | _ => rfl
    obtain ⟨newId, m, hm⟩ := goes_on hopen' fun _ hw => hinv.alone hth' hin hw
    exact ⟨t', newId, _, fire_run_eq _ hth' hm⟩
  · obtain ⟨newId, m, hm⟩ := goes_on (s := c.shared) (t := t) hopen fun t' hw =>
      absurd ⟨t', hw⟩ hsome
    exact ⟨t, newId, _, fire_run_eq _ hth hm⟩

/--
**Concurrent start-up is safe.**

However many instances start at once on whatever content, none of them inserts a pair that another
one has committed, and none fails.
-/
theorem startUp_safe (content : Content) (n : Nat) (es : List (Event Choice Empty))
    {c : StartConfig} (hrun : startSystem.exec (startUp content n) es = some c) : Safe c :=
  (exec_invariant _ (fun _ _ _ hc he => hc.step he) es (startInv_startUp content n) hrun).safe

def emptyContent : Content :=
  { roles := [], permissions := [], pairs := [], names := List.nodup_nil
    roleIds := List.nodup_nil, codes := List.nodup_nil, permissionIds := List.nodup_nil
    pairs_nodup := List.nodup_nil }

/-- The first of two instances has upserted two roles when it dies, and the second one enters. -/
def dyingFirst : List (Event Choice Empty) :=
  [.run 0 (.go 1), .run 0 (.go 2), .run 0 .dies, .run 1 (.go 3)]

theorem startUp_safe_dyingFirst :
    ∃ c, startSystem.exec (startUp emptyContent 2) dyingFirst = some c ∧ Safe c :=
  ⟨_, rfl, startUp_safe emptyContent 2 dyingFirst rfl⟩

end EnterpriseAssistant.Authz.StartUp
