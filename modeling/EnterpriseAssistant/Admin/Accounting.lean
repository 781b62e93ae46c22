import EnterpriseAssistant.Lib.Interleaving
import EnterpriseAssistant.Admin.Routes

/-!
# Grants and revocations, interleaved

Any number of `grant_role` and `revoke_role` behind their dependencies, over one database.  Every
select is a step; the `INSERT .. ON CONFLICT DO NOTHING` and the `DELETE` are steps as well, each
with the commit of its block and the answer behind it.

* `step_cases` — a request changes the grants in its last step only, as if it ran at once then
* `grants_accounted` — what the answers add up to
-/

namespace EnterpriseAssistant.Admin.Accounting

open Py Core Auth Infra Admin Interleaving System

/-- What the unique constraint on `user_role_grants` is about. -/
structure GrantKey where
  userId : Int
  roleId : Int
  scopeKey : Str
deriving DecidableEq, Repr

def keyOf (g : UserRoleGrant) : GrantKey :=
  { userId := g.userId, roleId := g.roleId, scopeKey := g.scopeKey }

/-- The rows with this key. -/
def rows (db : Database) (key : GrantKey) : Nat := db.grants.countP fun g => keyOf g == key

inductive Answer where
  | granted (data : GrantRoleData)
  | revoked (data : RevokeRoleData)
  | error (e : AppError)
  /-- an exception that the handler does not catch -/
  | unhandled
deriving DecidableEq, Repr

/-- A handler, at its next statement. -/
inductive Handler where
  /-- `grant_role`, before its select of the role -/
  | grant (req : GrantRoleReq) (me : User)
  | grantUser (req : GrantRoleReq) (me : User) (role : Role)
  | grantExists (req : GrantRoleReq) (me : User) (role : Role)
  /-- before the block with the `INSERT` -/
  | grantInsert (req : GrantRoleReq) (me : User) (role : Role)
  /-- `revoke_role`, before its select of the role -/
  | revoke (req : GrantRoleReq) (me : User)
  /-- before the block with the `DELETE` -/
  | revokeDelete (req : GrantRoleReq) (me : User) (role : Role)
  | done (answer : Answer)

/-- A request that has just come in. -/
inductive Handler.Fresh : Handler → Prop where
  | grant (req : GrantRoleReq) (me : User) : Fresh (.grant req me)
  | revoke (req : GrantRoleReq) (me : User) : Fresh (.revoke req me)

inductive Choice where
  | go
  /-- the statement raises, or its commit does, and the block is rolled back -/
  | raises
deriving DecidableEq, Repr

/-! ## The steps -/

abbrev GrantMove := Move Database Handler Empty

def goOn (db : Database) (h : Handler) : GrantMove := { shared := db, thread := h, obs := [] }

/-- The handler raises an `AppError`. -/
def refuse (db : Database) (code : String) : GrantMove := goOn db (.done (.error (err code)))

/-- `ok(GrantRoleData(granted=True, idempotent=idempotent))`. -/
def tellGranted (db : Database) (idempotent : Bool) : GrantMove :=
  goOn db (.done (.granted { granted := true, idempotent := idempotent }))

def requestKey (req : GrantRoleReq) (role : Role) : GrantKey :=
  { userId := req.userId, roleId := role.id, scopeKey := req.scopeKey }

def grantStep (db : Database) (req : GrantRoleReq) (me : User) : GrantMove :=
  match roleByName db.roles req.roleName with
  | none => refuse db "admin.role_not_found"
  | some role => goOn db (.grantUser req me role)

def grantUserStep (db : Database) (req : GrantRoleReq) (me : User) (role : Role) : GrantMove :=
  match userById db.users req.userId with
  | none => refuse db "admin.user_not_found"
  | some _ => goOn db (.grantExists req me role)

def grantExistsStep (db : Database) (req : GrantRoleReq) (me : User) (role : Role) : GrantMove :=
  if db.grants.any (sameGrant req.userId role.id req.scopeKey) then tellGranted db true
  else goOn db (.grantInsert req me role)

def grantInsertStep (db : Database) (req : GrantRoleReq) (me : User) (role : Role) : GrantMove :=
  match insertGrant
      { userId := req.userId, roleId := role.id, scopeKey := req.scopeKey
        createdBy := some me.id } db with
  | .error _ => refuse db "storage.db_error"
  | .ok (rc, db) => tellGranted db (rc == 0)

def revokeStep (db : Database) (req : GrantRoleReq) (me : User) : GrantMove :=
  match roleByName db.roles req.roleName with
  | none => goOn db (.done (.revoked { ok := true, deleted := 0, idempotent := true }))
  | some role => goOn db (.revokeDelete req me role)

def revokeDeleteStep (db : Database) (req : GrantRoleReq) (role : Role) : GrantMove :=
  match deleteGrants req.userId role.id req.scopeKey db with
  | .error _ => goOn db (.done .unhandled)
  | .ok (deleted, db) =>
    goOn db (.done (.revoked { ok := true, deleted := deleted, idempotent := deleted == 0 }))

/-- Only the block with the `INSERT` is in a `try`. -/
def Handler.onRaise : Handler → Handler
  | .grantInsert _ _ _ => .done (.error (err "storage.db_error"))
  | _ => .done .unhandled

def Handler.move (db : Database) : Handler → Option GrantMove
  | .grant req me => some (grantStep db req me)
  | .grantUser req me role => some (grantUserStep db req me role)
  | .grantExists req me role => some (grantExistsStep db req me role)
  | .grantInsert req me role => some (grantInsertStep db req me role)
  | .revoke req me => some (revokeStep db req me)
  | .revokeDelete req _ role => some (revokeDeleteStep db req role)
  | .done _ => none

/-- Nothing happens to the grants but what the handlers do. -/
def grantSystem : System Database Handler Choice Empty Empty where
  step db _ h ch :=
    match h, ch with
    | .done _, _ => none
    | h, .go => h.move db
    | h, .raises => some (goOn db h.onRaise)
  env _ e := nomatch e

abbrev GrantConfig := Config Database Handler Empty

/-! ## What the statements do to the grants -/

theorem sameGrant_eq (key : GrantKey) :
    sameGrant key.userId key.roleId key.scopeKey = fun g => keyOf g == key := by
  funext g
  rw [Bool.eq_iff_iff, sameGrant_iff, beq_iff_eq, keyOf, GrantKey.mk.injEq]

theorem rows_pos_iff {db : Database} {key : GrantKey} :
    0 < rows db key ↔ db.grants.any (sameGrant key.userId key.roleId key.scopeKey) = true := by
  rw [rows, ← sameGrant_eq, List.countP_pos_iff, List.any_eq_true]

/-- The rows after an `INSERT`: the conflict path leaves them. -/
theorem rows_insertGrant {g : UserRoleGrant} {db db' : Database} {rc : Int}
    (h : insertGrant g db = .ok (rc, db')) :
    (rc = 0 ∧ db' = db ∧ 0 < rows db (keyOf g)) ∨
      (rc = 1 ∧ rows db (keyOf g) = 0 ∧
        ∀ key, rows db' key = rows db key + if keyOf g = key then 1 else 0) := by
  have hpos : 0 < rows db (keyOf g) ↔
    db.grants.any (sameGrant g.userId g.roleId g.scopeKey) = true := rows_pos_iff
  unfold insertGrant at h
  split at h
  · next hany =>
    cases h
    exact Or.inl ⟨rfl, rfl, hpos.mpr hany⟩
  · next hany =>
    split at h
    · cases h
      exact Or.inr ⟨rfl, Nat.eq_zero_of_not_pos fun hlt => hany (hpos.mp hlt), fun key => by
        simp [rows]⟩
    · cases h

/-- The rows after a `DELETE`: those that it has counted are gone. -/
theorem rows_deleteGrants {key : GrantKey} {db db' : Database} {deleted : Int}
    (h : deleteGrants key.userId key.roleId key.scopeKey db = .ok (deleted, db')) :
    deleted = rows db key ∧ ∀ key', rows db' key' = if key' = key then 0 else rows db key' := by
  unfold deleteGrants at h
  rw [sameGrant_eq] at h
  cases h
  refine ⟨rfl, fun key' => ?_⟩
  simp only [rows, List.countP_filter]
  by_cases heq : key' = key
  · subst heq
    rw [if_pos rfl, List.countP_eq_zero]
    intro g _ hboth
    simp at hboth
  · rw [if_neg heq]
    refine List.countP_congr fun g _ => ?_
    constructor
    · intro hboth
      exact (Bool.and_eq_true_iff.mp hboth).1
    · intro hkey
      have hk : keyOf g = key' := by simpa using hkey
      rw [hkey, Bool.true_and, hk]
      simpa using heq

/-! ## What a request is told -/

/-- The grant that a request asks for or takes back; there is none of a role that does not exist. -/
def Handler.key (db : Database) : Handler → Option GrantKey
  | .grant req _ | .revoke req _ => (roleByName db.roles req.roleName).map (requestKey req)
  | _ => none

/-- What the last step of a request does to the rows, and what the request is told with it. -/
inductive Ends (db : Database) : Database → Handler → Answer → Prop where
  /-- the row has been found, by the select or by the `INSERT` -/
  | found {req : GrantRoleReq} {me : User} {key : GrantKey}
      (hkey : (Handler.grant req me).key db = some key) (hrow : 0 < rows db key) :
      Ends db db (.grant req me) (.granted { granted := true, idempotent := true })
  | inserted {db' : Database} {req : GrantRoleReq} {me : User} {key : GrantKey}
      (hkey : (Handler.grant req me).key db = some key) (hnone : rows db key = 0)
      (hrows : ∀ key', rows db' key' = rows db key' + if key = key' then 1 else 0) :
      Ends db db' (.grant req me) (.granted { granted := true, idempotent := false })
  | deleted {db' : Database} {req : GrantRoleReq} {me : User} {key : GrantKey}
      (hkey : (Handler.revoke req me).key db = some key)
      (hrows : ∀ key', rows db' key' = if key' = key then 0 else rows db key') :
      Ends db db' (.revoke req me)
        (.revoked { ok := true, deleted := rows db key, idempotent := (rows db key : Int) == 0 })
  | noRole {req : GrantRoleReq} {me : User} (hkey : (Handler.revoke req me).key db = none) :
      Ends db db (.revoke req me) (.revoked { ok := true, deleted := 0, idempotent := true })
  | refused (h₀ : Handler) (e : AppError) : Ends db db h₀ (.error e)
  | raised (h₀ : Handler) : Ends db db h₀ .unhandled

/-- What a request would be told, and would leave, if all its statements ran now. -/
def Handler.atOnce (db : Database) : Handler → Answer × Database
  | .grant req me =>
    match roleByName db.roles req.roleName with
    | none => (.error (err "admin.role_not_found"), db)
    | some role =>
      match userById db.users req.userId with
      | none => (.error (err "admin.user_not_found"), db)
      | some _ =>
        if db.grants.any (sameGrant req.userId role.id req.scopeKey) then
          (.granted { granted := true, idempotent := true }, db)
        else
          match insertGrant { userId := req.userId, roleId := role.id, scopeKey := req.scopeKey
                              createdBy := some me.id } db with
          | .error _ => (.error (err "storage.db_error"), db)
          | .ok (rc, db') => (.granted { granted := true, idempotent := rc == 0 }, db')
  | .revoke req _ =>
    match roleByName db.roles req.roleName with
    | none => (.revoked { ok := true, deleted := 0, idempotent := true }, db)
    | some role =>
      match deleteGrants req.userId role.id req.scopeKey db with
      | .error _ => (.unhandled, db)
      | .ok (deleted, db') =>
        (.revoked { ok := true, deleted := deleted, idempotent := deleted == 0 }, db')
  -- no request begins further on
  | _ => (.unhandled, db)

theorem atOnce_ends (db : Database) (h₀ : Handler) :
    Ends db (h₀.atOnce db).2 h₀ (h₀.atOnce db).1 := by
  cases h₀ with
  | grant req me =>
    simp only [Handler.atOnce]
    split
    · exact .refused _ _
    next role hrole =>
    have hkey : (Handler.grant req me).key db = some (requestKey req role) := by
      rw [Handler.key, hrole, Option.map_some]
    split
    · exact .refused _ _
    split
    · next hany => exact .found hkey (rows_pos_iff.mpr hany)
    · split
      · exact .refused _ _
      · next hinsert =>
        rcases rows_insertGrant hinsert with ⟨rfl, rfl, hrow⟩ | ⟨rfl, hnone, hrows⟩
        · exact .found hkey hrow
        · exact .inserted hkey hnone hrows
  | revoke req me =>
    simp only [Handler.atOnce]
    split
    · next hrole => exact .noRole (by rw [Handler.key, hrole, Option.map_none])
    next role hrole =>
    have hkey : (Handler.revoke req me).key db = some (requestKey req role) := by
      rw [Handler.key, hrole, Option.map_some]
    split
    · exact .raised _
    · next hdelete =>
      obtain ⟨rfl, hrows⟩ := @rows_deleteGrants (requestKey req role) _ _ _ hdelete
      exact .deleted hkey hrows
  | _ => exact .raised _

/-- Only the grants change. -/
theorem atOnce_frame (db : Database) (h₀ : Handler) :
    ∃ gs, (h₀.atOnce db).2 = { db with grants := gs } := by
  cases h₀ with
  | grant req me =>
    simp only [Handler.atOnce]
    split
    · exact ⟨_, rfl⟩
    · split
      · exact ⟨_, rfl⟩
      · split
        · exact ⟨_, rfl⟩
        · split
          · exact ⟨_, rfl⟩
          · next rc db' hinsert =>
            obtain ⟨gs, hgs, -⟩ := insertGrant_spec hinsert
            exact ⟨gs, hgs⟩
  | revoke req me =>
    simp only [Handler.atOnce]
    split
    · exact ⟨_, rfl⟩
    · exact ⟨_, rfl⟩
  | _ => exact ⟨_, rfl⟩

/-! ## What a step does -/

def Handler.answered : Handler → Option Answer
  | .done answer => some answer
  | _ => none

/-- What a handler that has begun as `h₀` has read. -/
def Known (db : Database) (h₀ : Handler) : Handler → Prop
  | .grant req me => h₀ = .grant req me
  | .grantUser req me role => h₀ = .grant req me ∧ roleByName db.roles req.roleName = some role
  | .grantExists req me role | .grantInsert req me role =>
    h₀ = .grant req me ∧ roleByName db.roles req.roleName = some role ∧
      ∃ target, userById db.users req.userId = some target
  | .revoke req me => h₀ = .revoke req me
  | .revokeDelete req me role =>
    h₀ = .revoke req me ∧ roleByName db.roles req.roleName = some role
  | .done _ => True

theorem Handler.Fresh.known {h : Handler} (hfresh : h.Fresh) (db : Database) : Known db h h := by
  cases hfresh with
  | grant req me => rfl
  | revoke req me => rfl

theorem Known.frame {db : Database} {h₀ h : Handler} (hknown : Known db h₀ h)
    (gs : List UserRoleGrant) : Known { db with grants := gs } h₀ h := by
  cases h with
  | _ => exact hknown

variable {db : Database} {t : Nat} {h₀ h : Handler} {m : GrantMove}

/-- A step that ends the handler does what the request would do now, any other one nothing. -/
theorem Known.move (hknown : Known db h₀ h) (hm : h.move db = some m) :
    (m.thread.answered = none ∧ m.shared = db ∧ Known db h₀ m.thread) ∨
      ∃ answer, m.thread = .done answer ∧ h₀.atOnce db = (answer, m.shared) := by
  cases h with
  | grant req me =>
    obtain rfl := hknown
    cases hm
    unfold grantStep
    simp only [Handler.atOnce]
    cases hrole : roleByName db.roles req.roleName with
    | none => exact Or.inr ⟨_, rfl, rfl⟩
    | some role => exact Or.inl ⟨rfl, rfl, rfl, hrole⟩
  | grantUser req me role =>
    obtain ⟨rfl, hrole⟩ := hknown
    cases hm
    simp only [Handler.atOnce, hrole]
    unfold grantUserStep
    cases htarget : userById db.users req.userId with
    | none => exact Or.inr ⟨_, rfl, rfl⟩
    | some target => exact Or.inl ⟨rfl, rfl, rfl, hrole, target, htarget⟩
  | grantExists req me role =>
    obtain ⟨rfl, hrole, target, htarget⟩ := hknown
    cases hm
    simp only [Handler.atOnce, hrole, htarget]
    unfold grantExistsStep
    split
    · exact Or.inr ⟨_, rfl, rfl⟩
    · exact Or.inl ⟨rfl, rfl, rfl, hrole, target, htarget⟩
  | grantInsert req me role =>
    obtain ⟨rfl, hrole, target, htarget⟩ := hknown
    cases hm
    -- the role and the user are read once: neither table changes
    simp only [Handler.atOnce, hrole, htarget]
    unfold grantInsertStep
    by_cases hany : db.grants.any (sameGrant req.userId role.id req.scopeKey) = true
    · -- the row has come in since the select; at once the select would find it
      have hzero : insertGrant { userId := req.userId, roleId := role.id, scopeKey := req.scopeKey
                                 createdBy := some me.id } db = .ok (0, db) := if_pos hany
      rw [if_pos hany, hzero]
      exact Or.inr ⟨_, rfl, rfl⟩
    · rw [if_neg hany]
      cases insertGrant { userId := req.userId, roleId := role.id, scopeKey := req.scopeKey
                          createdBy := some me.id } db with
      | error e => exact Or.inr ⟨_, rfl, rfl⟩
      | ok done => exact Or.inr ⟨_, rfl, rfl⟩
  | revoke req me =>
    obtain rfl := hknown
    cases hm
    unfold revokeStep
    simp only [Handler.atOnce]
    cases hrole : roleByName db.roles req.roleName with
    | none => exact Or.inr ⟨_, rfl, rfl⟩
    | some role => exact Or.inl ⟨rfl, rfl, rfl, hrole⟩
  | revokeDelete req me role =>
    obtain ⟨rfl, hrole⟩ := hknown
    cases hm
    simp only [Handler.atOnce, hrole]
    exact Or.inr ⟨_, rfl, rfl⟩
  | done answer => cases hm

theorem move_of_step (hm : grantSystem.step db t h .go = some m) : h.move db = some m := by
  cases h with
  | done answer => cases hm
  | _ => exact hm

theorem raises_of_step (h₀ : Handler) (hm : grantSystem.step db t h .raises = some m) :
    m = goOn db h.onRaise ∧ ∃ answer, h.onRaise = .done answer ∧ Ends db db h₀ answer := by
  cases h with
  | done answer => cases hm
  | grantInsert req me role =>
    cases hm
    exact ⟨rfl, _, rfl, .refused h₀ _⟩
  | _ =>
    cases hm
    exact ⟨rfl, _, rfl, .raised h₀⟩

/-- A handler that has answered makes no step. -/
theorem answered_of_step {ch : Choice} (hm : grantSystem.step db t h ch = some m) :
    h.answered = none := by
  cases h with
  | done answer => cases hm
  | _ => rfl

/-- **A step** of a request leaves the database, or it is the last one. -/
theorem step_cases {ch : Choice} (hknown : Known db h₀ h)
    (hm : grantSystem.step db t h ch = some m) : Known db h₀ m.thread ∧
      (∃ gs, m.shared = { db with grants := gs }) ∧
      ((m.thread.answered = none ∧ m.shared = db) ∨
        ∃ answer, m.thread = .done answer ∧ Ends db m.shared h₀ answer) := by
  cases ch with
  | raises =>
    obtain ⟨rfl, answer, hdone, hends⟩ := raises_of_step h₀ hm
    refine ⟨?_, ⟨db.grants, rfl⟩, Or.inr ⟨answer, hdone, hends⟩⟩
    rw [goOn, hdone]
    trivial
  | go =>
    rcases hknown.move (move_of_step hm) with ⟨hopen, hsame, hthread⟩ | ⟨answer, hdone, hwhole⟩
    · exact ⟨hthread, ⟨db.grants, hsame⟩, Or.inl ⟨hopen, hsame⟩⟩
    · have hends := atOnce_ends db h₀
      have hframe := atOnce_frame db h₀
      rw [hwhole] at hends hframe
      exact ⟨hdone ▸ trivial, hframe, Or.inr ⟨answer, hdone, hends⟩⟩

/-! ## What the answers add up to -/

/-- The request has been told that it has inserted the grant. -/
def Handler.inserted (db : Database) (key : GrantKey) (h₀ : Handler) : Handler → Int
  | .done (.granted data) => if h₀.key db = some key ∧ data.idempotent = false then 1 else 0
  | _ => 0

/-- What a revocation of the grant has been told to have deleted. -/
def Handler.deleted (db : Database) (key : GrantKey) (h₀ : Handler) : Handler → Int
  | .done (.revoked data) => if h₀.key db = some key then data.deleted else 0
  | _ => 0

def insertedCount (db : Database) (key : GrantKey) (tasks threads : List Handler) : Int :=
  (List.zipWith (Handler.inserted db key) tasks threads).sum

def deletedCount (db : Database) (key : GrantKey) (tasks threads : List Handler) : Int :=
  (List.zipWith (Handler.deleted db key) tasks threads).sum

/-- What a request is told is what its last step does. -/
def ToldTruly (tasks : List Handler) (c : GrantConfig) (_ : Event Choice Empty)
    (c' : GrantConfig) : Prop :=
  ∀ (t : Nat) (h₀ : Handler) (answer : Answer), tasks[t]? = some h₀ →
    c'.threads[t]? = some (.done answer) →
      c.threads[t]? = some (.done answer) ∨ Ends c.shared c'.shared h₀ answer

theorem Ends.rows_le {db' : Database} {answer : Answer} (h : Ends db db' h₀ answer)
    (hunique : ∀ key, rows db key ≤ 1) (key : GrantKey) : rows db' key ≤ 1 := by
  have hle := hunique key
  cases h with
  | @inserted _ _ _ key' _ hnone hrows =>
    rw [hrows]
    split
    · next heq =>
      subst heq
      omega
    · exact hle
  | deleted _ hrows =>
    rw [hrows]
    split
    · omega
    · exact hle
  | _ => exact hle

/-- What an answer adds to the balance is what has been done to the rows. -/
theorem Ends.balance {db' : Database} {answer : Answer} (h : Ends db db' h₀ answer)
    (key : GrantKey) : (rows db' key : Int) = rows db key
      + Handler.inserted db key h₀ (.done answer) - Handler.deleted db key h₀ (.done answer) := by
  cases h with
  | found _ _ => simp [Handler.inserted, Handler.deleted]
  | @inserted _ _ _ key' hkey hnone hrows =>
    rw [hrows]
    by_cases heq : key' = key
    · simp [Handler.inserted, Handler.deleted, hkey, heq]
    · simp [Handler.inserted, Handler.deleted, hkey, heq]
  | @deleted _ _ _ key' hkey hrows =>
    rw [hrows]
    by_cases heq : key = key'
    · simp [Handler.inserted, Handler.deleted, hkey, heq]
    · simp [Handler.inserted, Handler.deleted, hkey, heq, Ne.symm heq]
  | noRole hkey => simp [Handler.inserted, Handler.deleted]
  | refused _ e => simp [Handler.inserted, Handler.deleted]
  | raised _ => simp [Handler.inserted, Handler.deleted]

/-- A request that has not been answered adds nothing. -/
theorem balance_of_open (hopen : h.answered = none) (key : GrantKey) :
    Handler.inserted db key h₀ h = 0 ∧ Handler.deleted db key h₀ h = 0 := by
  cases h with
  | done answer => cases hopen
  | _ => exact ⟨rfl, rfl⟩

section Runs

variable {tasks : List Handler} {c c' : GrantConfig} {e : Event Choice Empty}

/-- What holds in every state behind the database `db₀`. -/
structure GrantInv (db₀ : Database) (tasks : List Handler) (c : GrantConfig) : Prop where
  frame : ∃ gs, c.shared = { db₀ with grants := gs }
  known : ∀ (t : Nat) (h : Handler), c.threads[t]? = some h →
    ∃ h₀, tasks[t]? = some h₀ ∧ Known c.shared h₀ h
  unique : ∀ key, rows c.shared key ≤ 1
  balance : ∀ key, insertedCount db₀ key tasks c.threads - deletedCount db₀ key tasks c.threads
    = rows c.shared key - rows db₀ key

/-- The roles stay, and with them the grants that the requests are about. -/
theorem GrantInv.key_eq {db₀ : Database} (hinv : GrantInv db₀ tasks c) (h₀ : Handler) :
    h₀.key c.shared = h₀.key db₀ := by
  obtain ⟨gs, hgs⟩ := hinv.frame
  rw [hgs]
  cases h₀ with
  | _ => rfl

theorem GrantInv.counts_eq {db₀ : Database} (hinv : GrantInv db₀ tasks c) (key : GrantKey)
    (h₀ h : Handler) : Handler.inserted c.shared key h₀ h = Handler.inserted db₀ key h₀ h ∧
      Handler.deleted c.shared key h₀ h = Handler.deleted db₀ key h₀ h := by
  unfold Handler.inserted Handler.deleted
  rw [hinv.key_eq]
  exact ⟨rfl, rfl⟩

/-- A step and the thread that makes it. -/
theorem GrantInv.fire_cases {db₀ : Database} (hinv : GrantInv db₀ tasks c)
    (he : grantSystem.fire c e = some c') : ∃ t h₀ h m, tasks[t]? = some h₀ ∧
      c.threads[t]? = some h ∧ h.answered = none ∧ c' = after c t m ∧
      Known c.shared h₀ m.thread ∧ (∃ gs, m.shared = { c.shared with grants := gs }) ∧
      ((m.thread.answered = none ∧ m.shared = c.shared) ∨
        ∃ answer, m.thread = .done answer ∧ Ends c.shared m.shared h₀ answer) := by
  cases e with
  | env e => exact nomatch e
  | run t ch =>
    obtain ⟨h, m, hth, hm, rfl⟩ := fire_run _ he
    obtain ⟨h₀, hh₀, hknown⟩ := hinv.known t h hth
    exact ⟨t, h₀, h, m, hh₀, hth, answered_of_step hm, rfl, step_cases hknown hm⟩

theorem GrantInv.step {db₀ : Database} (hinv : GrantInv db₀ tasks c)
    (he : grantSystem.fire c e = some c') : GrantInv db₀ tasks c' := by
  obtain ⟨t, h₀, h, m, hh₀, hth, hopen, rfl, hknown, ⟨gs, hgs⟩, hstep⟩ := hinv.fire_cases he
  refine ⟨?_, ?_, ?_, fun key => ?_⟩
  · obtain ⟨gs₀, hgs₀⟩ := hinv.frame
    exact ⟨gs, by rw [after_shared, hgs, hgs₀]⟩
  · rw [after_shared, after_threads, hgs]
    refine forall_set (fun i th hi => ?_) ⟨h₀, hh₀, hknown.frame gs⟩
    obtain ⟨th₀, hth₀, hth⟩ := hinv.known i th hi
    exact ⟨th₀, hth₀, hth.frame gs⟩
  · rcases hstep with ⟨-, hsame⟩ | ⟨answer, -, hends⟩
    · rw [after_shared, hsame]
      exact hinv.unique
    · exact hends.rows_le hinv.unique
  · -- the thread has added nothing before, and adds now what it has done
    have hbefore := hinv.balance key
    have hinserted := sum_zipWith_set (f := Handler.inserted db₀ key) m.thread hh₀ hth
    have hdeleted := sum_zipWith_set (f := Handler.deleted db₀ key) m.thread hh₀ hth
    rw [(balance_of_open hopen key).1] at hinserted
    rw [(balance_of_open hopen key).2] at hdeleted
    simp only [insertedCount, deletedCount, after_threads, after_shared] at hbefore ⊢
    rcases hstep with ⟨hopen', hsame⟩ | ⟨answer, hdone, hends⟩
    · rw [(balance_of_open hopen' key).1] at hinserted
      rw [(balance_of_open hopen' key).2] at hdeleted
      rw [hsame]
      omega
    · have hmove := hends.balance key
      rw [(hinv.counts_eq key h₀ _).1, (hinv.counts_eq key h₀ _).2] at hmove
      rw [hdone] at hinserted hdeleted ⊢
      omega

theorem GrantInv.toldTruly {db₀ : Database} (hinv : GrantInv db₀ tasks c)
    (he : grantSystem.fire c e = some c') : ToldTruly tasks c e c' := by
  obtain ⟨t, h₀, h, m, hh₀, hth, -, rfl, -, -, hstep⟩ := hinv.fire_cases he
  intro i th₀ answer hi hanswer
  rw [after_threads, List.getElem?_set] at hanswer
  split at hanswer
  · next heq =>
    subst heq
    cases hi.symm.trans hh₀
    split at hanswer
    · rcases hstep with ⟨hopen, -⟩ | ⟨answer', hdone, hends⟩
      · rw [Option.some.inj hanswer] at hopen
        cases hopen
      · rw [hdone] at hanswer
        cases hanswer
        exact Or.inr hends
    · cases hanswer
  · exact Or.inl hanswer

theorem grantInv_start (db : Database) (hunique : ∀ key, rows db key ≤ 1)
    (hfresh : ∀ th ∈ tasks, th.Fresh) : GrantInv db tasks (.start db tasks) where
  frame := ⟨db.grants, rfl⟩
  known t h hth := ⟨h, hth, (hfresh h (List.mem_of_getElem? hth)).known db⟩
  unique := hunique
  balance key := by
    have hins : insertedCount db key tasks tasks = 0 :=
      sum_zipWith_self fun h hh => by cases hfresh h hh with | _ => rfl
    have hdel : deletedCount db key tasks tasks = 0 :=
      sum_zipWith_self fun h hh => by cases hfresh h hh with | _ => rfl
    simp [hins, hdel]

end Runs

/--
**Grants and revocations are accounted for.**  In every run there is at most one row for a key; the
requests for it that have been told to have inserted it, less what those against it have been told
to have deleted, are the rows now less the rows at first; and every answer says what the last step
of its request has done to the grant that the request is about.
-/
theorem grants_accounted (db : Database) (hunique : ∀ key, rows db key ≤ 1) (tasks : List Handler)
    (hfresh : ∀ th ∈ tasks, th.Fresh) (es : List (Event Choice Empty)) (c : GrantConfig)
    (h : grantSystem.exec (.start db tasks) es = some c) :
    (∀ key, rows c.shared key ≤ 1) ∧
      (∀ key, insertedCount db key tasks c.threads - deletedCount db key tasks c.threads
        = rows c.shared key - rows db key) ∧
      grantSystem.EachStep (ToldTruly tasks) (.start db tasks) es := by
  have hstart := grantInv_start db hunique hfresh
  have hinv := exec_invariant grantSystem (fun _ _ _ hc he => hc.step he) es hstart h
  refine ⟨hinv.unique, hinv.balance, ?_⟩
  rintro pre e post c₁ c₂ rfl hpre hfire
  exact (exec_invariant grantSystem (fun _ _ _ hc he => hc.step he) pre hstart hpre).toldTruly hfire

/-! ## Two grants and a revocation -/

def admin : User :=
  { id := 1, email := "admin@example.com".toList, passwordHash := [], isActive := true
    isSuperadmin := true }

def viewerReq : GrantRoleReq :=
  { userId := 1, roleName := "viewer".toList, scopeKey := "project:7".toList
    roleName_length := by decide, scopeKey_length := by decide }

def viewerDb : Database :=
  { users := [admin], roles := [{ id := 5, name := "viewer".toList, description := none }]
    permissions := [], rolePermissions := [], grants := [], workspaces := [3], projects := [7]
    assets := [], jobs := [] }

def go (t : Nat) : Event Choice Empty := .run t .go

/-- Both grants find no row; the first inserts it, the second runs into the conflict, and the
revocation deletes it. -/
def grantedTwice : List (Event Choice Empty) :=
  [go 0, go 1, go 0, go 1, go 0, go 1, go 2, go 0, go 1, go 2]

def twiceAndBack : List Handler :=
  [.grant viewerReq admin, .grant viewerReq admin, .revoke viewerReq admin]

theorem fresh_twiceAndBack : ∀ th ∈ twiceAndBack, th.Fresh := by
  intro th hth
  simp only [twiceAndBack, List.mem_cons, List.not_mem_nil, or_false] at hth
  rcases hth with rfl | rfl | rfl
  · exact .grant viewerReq admin
  · exact .grant viewerReq admin
  · exact .revoke viewerReq admin

theorem grants_accounted_twice : ∃ c,
    grantSystem.exec (.start viewerDb twiceAndBack) grantedTwice = some c ∧
      c.threads.map Handler.answered = [
        some (.granted { granted := true, idempotent := false }),
        some (.granted { granted := true, idempotent := true }),
        some (.revoked { ok := true, deleted := 1, idempotent := false })] ∧
      insertedCount viewerDb ⟨1, 5, "project:7".toList⟩ twiceAndBack c.threads
          - deletedCount viewerDb ⟨1, 5, "project:7".toList⟩ twiceAndBack c.threads
        = rows c.shared ⟨1, 5, "project:7".toList⟩
          - rows viewerDb ⟨1, 5, "project:7".toList⟩ := by
  obtain ⟨c, hc, hanswers⟩ : ∃ c,
      grantSystem.exec (.start viewerDb twiceAndBack) grantedTwice = some c ∧
      c.threads.map Handler.answered = [
        some (.granted { granted := true, idempotent := false }),
        some (.granted { granted := true, idempotent := true }),
        some (.revoked { ok := true, deleted := 1, idempotent := false })] := ⟨_, rfl, rfl⟩
  exact ⟨c, hc, hanswers, (grants_accounted viewerDb (fun key => Nat.zero_le 1) twiceAndBack
    fresh_twiceAndBack grantedTwice c hc).2.1 _⟩

end EnterpriseAssistant.Admin.Accounting
