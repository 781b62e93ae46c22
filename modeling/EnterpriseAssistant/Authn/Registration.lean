import EnterpriseAssistant.Lib.Interleaving
import EnterpriseAssistant.Lib.ReadCommitted
import EnterpriseAssistant.Authn.Routes

/-!
# Registrations, interleaved

Any number of `register` over one table of users.  The existence check, the flush of the new row and
the end of the block are steps of their own.

* `RegisterInv.step` — an email has been taken behind the check exactly when somebody has
  registered it since
* `registrations_answered_iff` — the runs in which nobody gets an unhandled error
-/

namespace EnterpriseAssistant.Authn.Registration

open Py Core Auth Interleaving System ReadCommitted

inductive Answer where
  | created (data : MeResp)
  | error (e : AppError)
  /-- an exception that the handler does not catch -/
  | unhandled
deriving DecidableEq, Repr

/-- A `register`, at its next statement. -/
inductive Handler where
  /-- before the existence check -/
  | check (req : RegisterReq)
  /-- before the flush -/
  | flush (req : RegisterReq)
  /-- before the end of the block -/
  | commit (req : RegisterReq) (user : User)
  | done (answer : Answer)

inductive Obs where
  /-- the existence check of request `t` has found nobody -/
  | checked (t : Nat)
  | answered (t : Nat) (answer : Answer)
deriving DecidableEq, Repr

/-! ## The steps -/

abbrev RegisterMove := Move (Table User) Handler Obs

def reply (users : Table User) (t : Nat) (answer : Answer) : RegisterMove :=
  { shared := users, thread := .done answer, obs := [.answered t answer] }

def meResp (user : User) : MeResp :=
  { id := user.id, email := user.email, isActive := user.isActive
    isSuperadmin := user.isSuperadmin }

def checkStep (users : Table User) (t : Nat) (req : RegisterReq) : RegisterMove :=
  match userByEmail (users.view User.email t) req.email with
  | some _ => reply users t (.error (err "auth.email_taken"))
  | none => { shared := users, thread := .flush req, obs := [.checked t] }

/-- The flush, and the refresh behind it. -/
def flushStep (hashPassword : Str → Str) (users : Table User) (t : Nat) (req : RegisterReq)
    (newId : Int) : Option RegisterMove :=
  let user : User :=
    { id := newId, email := req.email, passwordHash := hashPassword req.password
      isActive := true, isSuperadmin := false }
  match users.insert User.email t user with
  | .waits => none
  -- nothing between the flush and the handler of last resort catches the `IntegrityError`
  | .conflict => some (reply (users.rollback t) t .unhandled)
  | .inserted users => some { shared := users, thread := .commit req user, obs := [] }

def commitStep (users : Table User) (t : Nat) (user : User) : RegisterMove :=
  reply (users.commit User.email t) t (.created (meResp user))

/-- The choice is the next number of the sequence. -/
def registerSystem (hashPassword : Str → Str) : System (Table User) Handler Int Empty Obs where
  step users t h newId :=
    match h with
    | .check req => some (checkStep users t req)
    | .flush req =>
      if users.unused User.id newId then flushStep hashPassword users t req newId else none
    | .commit _ user => some (commitStep users t user)
    | .done _ => none
  env _ e := nomatch e

abbrev RegisterConfig := Config (Table User) Handler Obs

/-- The users that are there, and the requests that come in. -/
def incoming (rows : List User) (reqs : List RegisterReq) : RegisterConfig :=
  .start { committed := rows, written := [] } (reqs.map .check)

/-! ## What a step does -/

inductive RegisterStep (users : Table User) (t : Nat) :
    Handler → Table User → Handler → List Obs → Prop where
  | taken {req : RegisterReq} (hsome : req.email ∈ (users.view User.email t).map User.email) :
      RegisterStep users t (.check req) users (.done (.error (err "auth.email_taken")))
        [.answered t (.error (err "auth.email_taken"))]
  | free {req : RegisterReq} (hnone : req.email ∉ (users.view User.email t).map User.email) :
      RegisterStep users t (.check req) users (.flush req) [.checked t]
  | inserted {req : RegisterReq} {user : User} (hemail : user.email = req.email)
      (hfree : users.held User.email t user.email = false)
      (hnone : user.email ∉ (users.view User.email t).map User.email) :
      RegisterStep users t (.flush req) (users.write { tx := t, row := user, isNew := true })
        (.commit req user) []
  | conflict {req : RegisterReq} (hsome : req.email ∈ (users.view User.email t).map User.email) :
      RegisterStep users t (.flush req) (users.rollback t) (.done .unhandled)
        [.answered t .unhandled]
  | created {req : RegisterReq} {user : User} :
      RegisterStep users t (.commit req user) (users.commit User.email t)
        (.done (.created (meResp user))) [.answered t (.created (meResp user))]

section Spec

variable {hashPassword : Str → Str} {users : Table User} {t : Nat}

theorem userByEmail_eq_none_iff {rows : List User} {email : Str} :
    userByEmail rows email = none ↔ email ∉ rows.map User.email := by
  simp [userByEmail]

theorem step_cases {h : Handler} {newId : Int} {m : RegisterMove}
    (hstep : (registerSystem hashPassword).step users t h newId = some m) :
    RegisterStep users t h m.shared m.thread m.obs := by
  cases h with
  | check req =>
    cases hstep
    unfold checkStep
    split
    · next user hsome =>
      refine .taken ?_
      by_contra hnone
      rw [userByEmail_eq_none_iff.mpr hnone] at hsome
      cases hsome
    · next hnone => exact .free (userByEmail_eq_none_iff.mp hnone)
  | flush req =>
    simp only [registerSystem] at hstep
    split at hstep
    · simp only [flushStep] at hstep
      split at hstep
      · cases hstep
      · next hconflict =>
        cases hstep
        exact .conflict (users.insert_conflict User.email hconflict)
      · next users' hinserted =>
        cases hstep
        obtain ⟨hfree, hnone, rfl⟩ := users.insert_inserted User.email hinserted
        exact .inserted rfl hfree hnone
    · cases hstep
  | commit req user =>
    cases hstep
    exact .created
  | done answer => cases hstep

/-- A flush waits for a row that another request has written. -/
theorem exists_written_of_waits {req : RegisterReq} {newId : Int}
    (hwaits : flushStep hashPassword users t req newId = none) : ∃ w, w ∈ users.written := by
  simp only [flushStep] at hwaits
  split at hwaits
  · next hinsert =>
    unfold Table.insert at hinsert
    split at hinsert
    · next hheld =>
      obtain ⟨w, hw, -⟩ := List.any_eq_true.mp hheld
      exact ⟨w, hw⟩
    · split at hinsert
      · cases hinsert
      · cases hinsert
  · cases hwaits
  · cases hwaits

end Spec

/-! ## Answers -/

/-- Whom the step answers has created a user, or is told that the email is taken and has written
nothing; and no other step changes who is there. -/
def AnsweredWell (c : RegisterConfig) (_ : Event Int Empty) (c' : RegisterConfig) : Prop :=
  (∀ t answer, c'.history = .answered t answer :: c.history →
    (∀ w ∈ c'.shared.written, w.tx ≠ t) ∧
      ((∃ req user, c.threads[t]? = some (.commit req user) ∧ user.email = req.email ∧
          answer = .created (meResp user) ∧ c'.shared.committed = c.shared.committed ++ [user]) ∨
        ∃ e, answer = .error e ∧ e.code = "auth.email_taken" ∧ e.httpStatus = 409 ∧
          c'.shared.committed = c.shared.committed)) ∧
    (c'.shared.committed = c.shared.committed ∨
      ∃ t data, c'.history = .answered t (.created data) :: c.history)

def Obs.creates (email : Str) : Obs → Bool
  | .answered _ (.created data) => data.email == email
  | _ => false

/-- Somebody has registered the email since the existence check of request `t`. -/
def createdSince (t : Nat) (email : Str) : List Obs → Bool
  | [] => false
  | o :: h => o != .checked t && (o.creates email || createdSince t email h)

/-- Nobody has registered the email of a request between its existence check and its flush. -/
def CheckHolds (c : RegisterConfig) (e : Event Int Empty) (_ : RegisterConfig) : Prop :=
  ∀ t newId req, e = .run t newId → c.threads[t]? = some (.flush req) →
    createdSince t req.email c.history = false

theorem taken_status : (err "auth.email_taken").httpStatus = 409 := by decide

theorem createdSince_cons {t : Nat} {email : Str} {o : Obs} {h : List Obs} (ho : o ≠ .checked t) :
    createdSince t email (o :: h) = (o.creates email || createdSince t email h) := by
  rw [createdSince, bne_iff_ne.mpr ho, Bool.true_and]

theorem createdSince_append {t : Nat} {email : Str} {os h : List Obs} (hne : .checked t ∉ os)
    (hquiet : ∀ o ∈ os, o.creates email = false) :
    createdSince t email (os ++ h) = createdSince t email h := by
  induction os with
  | nil => rfl
  | cons o os ih =>
    obtain ⟨ho, hos⟩ := List.forall_mem_cons.mp hquiet
    rw [List.cons_append, createdSince_cons (Ne.symm (List.ne_of_not_mem_cons hne)), ho,
      Bool.false_or, ih (List.not_mem_of_not_mem_cons hne) hos]

/-! ## What the check still says -/

/-- Where a request stands in the table. -/
def Handler.Fits (users : Table User) (t : Nat) (h : List Obs) : Handler → Prop
  | .flush req => req.email ∈ users.committed.map User.email ↔ createdSince t req.email h = true
  | .commit req user =>
    user.email = req.email ∧
      users.written.filter (fun w => w.tx == t) = [{ tx := t, row := user, isNew := true }]
  | .check _ | .done _ => True

structure RegisterInv (c : RegisterConfig) : Prop where
  keyed : Keyed User.email c.shared
  /-- what is written is the row of a request that is about to end its block -/
  pending : ∀ w ∈ c.shared.written, ∃ req, c.threads[w.tx]? = some (.commit req w.row)
  fits : ∀ (t : Nat) (th : Handler), c.threads[t]? = some th → th.Fits c.shared t c.history

theorem registerInv_incoming {rows : List User} (hrows : (rows.map User.email).Nodup)
    (reqs : List RegisterReq) : RegisterInv (incoming rows reqs) where
  keyed := .start hrows
  pending w hw := nomatch hw
  fits t th hth := by
    obtain ⟨req, -, rfl⟩ := List.mem_map.mp (List.mem_of_getElem? hth)
    trivial

/-- What a request relies on is left alone by a step that commits nothing. -/
theorem Handler.Fits.quiet {users users' : Table User} {t : Nat} {os h : List Obs} {th : Handler}
    (hfits : th.Fits users t h) (hcommitted : users'.committed = users.committed)
    (hown : users'.written.filter (fun w => w.tx == t) = users.written.filter fun w => w.tx == t)
    (hne : .checked t ∉ os) (hquiet : ∀ email, ∀ o ∈ os, o.creates email = false) :
    th.Fits users' t (os ++ h) := by
  cases th with
  | check req => trivial
  | flush req =>
    rw [Handler.Fits, hcommitted, createdSince_append hne (hquiet req.email)]
    exact hfits
  | commit req user =>
    rw [Handler.Fits, hown]
    exact hfits
  | done answer => trivial

/-- The email of a new user is taken from now on, also for those who have checked before. -/
theorem Handler.Fits.created {users users' : Table User} {t t' : Nat} {user : User} {h : List Obs}
    {th : Handler} (hfits : th.Fits users t h)
    (hcommitted : users'.committed = users.committed ++ [user])
    (hown : users'.written.filter (fun w => w.tx == t) = users.written.filter fun w => w.tx == t) :
    th.Fits users' t (.answered t' (.created (meResp user)) :: h) := by
  cases th with
  | check req => trivial
  | flush req =>
    have htaken : req.email ∈ users'.committed.map User.email ↔
        user.email = req.email ∨ req.email ∈ users.committed.map User.email := by
      rw [hcommitted, List.map_append, List.mem_append, or_comm]
      simp [eq_comm]
    have hsince : req.email ∈ users.committed.map User.email ↔ createdSince t req.email h = true :=
      hfits
    rw [Handler.Fits, htaken, createdSince_cons (by simp), Bool.or_eq_true, hsince]
    simp [Obs.creates, meResp]
  | commit req user =>
    rw [Handler.Fits, hown]
    exact hfits
  | done answer => trivial

namespace RegisterInv

variable {c : RegisterConfig} {t : Nat}

/-- A request that is not about to end its block has written nothing. -/
theorem idle (hinv : RegisterInv c) {th : Handler} (hth : c.threads[t]? = some th)
    (hne : ∀ req user, th ≠ .commit req user) : ∀ w ∈ c.shared.written, w.tx ≠ t := by
  intro w hw htx
  obtain ⟨req, hcommit⟩ := hinv.pending w hw
  rw [htx, hth] at hcommit
  exact hne req w.row (Option.some.inj hcommit)

theorem view_committing (hinv : RegisterInv c) {req : RegisterReq} {user : User}
    (hth : c.threads[t]? = some (.commit req user)) :
    c.shared.view User.email t = c.shared.committed ++ [user] := by
  rw [Table.view, (hinv.fits t _ hth).2]
  rfl

theorem pending_set (hinv : RegisterInv c) {written : List (Write User)} (th' : Handler)
    (hsub : ∀ w ∈ written, w ∈ c.shared.written ∧ w.tx ≠ t) :
    ∀ w ∈ written, ∃ req, (c.threads.set t th')[w.tx]? = some (.commit req w.row) := by
  intro w hw
  obtain ⟨hmem, hne⟩ := hsub w hw
  rw [List.getElem?_set_ne (Ne.symm hne)]
  exact hinv.pending w hmem

/-- Every step keeps the invariant; only the end of a block makes an email taken. -/
theorem step {hashPassword : Str → Str} (hinv : RegisterInv c) {e : Event Int Empty}
    {c' : RegisterConfig} (he : (registerSystem hashPassword).fire c e = some c') :
    RegisterInv c' := by
  cases e with
  | env e => cases e
  | run t newId =>
    obtain ⟨th, m, hth, hm, rfl⟩ := fire_run _ he
    have hstep := step_cases hm
    obtain ⟨users', th', os⟩ := m
    cases hstep with
    | taken hsome =>
      have hidle := hinv.idle hth (by simp)
      refine ⟨hinv.keyed, hinv.pending_set _ fun w hw => ⟨hw, hidle w hw⟩, ?_⟩
      refine forall_set_of_ne (fun i x _ hx => ?_) trivial
      exact (hinv.fits i x hx).quiet rfl rfl (by simp) (by simp [Obs.creates])
    | @free req hnone =>
      have hidle := hinv.idle hth (by simp)
      refine ⟨hinv.keyed, hinv.pending_set _ fun w hw => ⟨hw, hidle w hw⟩, ?_⟩
      refine forall_set_of_ne (fun i x hne hx => ?_) ?_
      · exact (hinv.fits i x hx).quiet rfl rfl (by simp [hne]) (by simp [Obs.creates])
      · rw [Table.view_of_idle _ _ hidle] at hnone
        simp [Handler.Fits, hnone, createdSince]
    | @inserted req user hemail hfree hnone =>
      have hidle := hinv.idle hth (by simp)
      refine ⟨hinv.keyed.write_new hfree hnone, ?_, ?_⟩
      · intro w hw
        rcases List.mem_append.mp hw with hold | hnew
        · exact hinv.pending_set _ (fun w hw => ⟨hw, hidle w hw⟩) w hold
        · obtain rfl := List.mem_singleton.mp hnew
          refine ⟨req, List.getElem?_set_self ?_⟩
          exact (List.getElem?_eq_some_iff.mp hth).1
      · refine forall_set_of_ne (fun i x hne hx => ?_) ⟨hemail, ?_⟩
        · refine (hinv.fits i x hx).quiet rfl ?_ (by simp) (by simp)
          simp [List.filter_append, Ne.symm hne]
        · have hnil : (c.shared.written.filter fun w => w.tx == t) = [] := by
            rw [List.filter_eq_nil_iff]
            intro w hw
            simpa using hidle w hw
          simp [List.filter_append, hnil]
    | conflict hsome =>
      refine ⟨hinv.keyed.rollback t, hinv.pending_set _ fun w hw => ?_, ?_⟩
      · obtain ⟨hmem, hne⟩ := List.mem_filter.mp hw
        exact ⟨hmem, by simpa using hne⟩
      · refine forall_set_of_ne (fun i x hne hx => ?_) trivial
        exact (hinv.fits i x hx).quiet rfl (Table.rest_other _ hne) (by simp)
          (by simp [Obs.creates])
    | @created req user =>
      refine ⟨hinv.keyed.commit t, hinv.pending_set _ fun w hw => ?_, ?_⟩
      · obtain ⟨hmem, hne⟩ := List.mem_filter.mp hw
        exact ⟨hmem, by simpa using hne⟩
      · refine forall_set_of_ne (fun i x hne hx => ?_) trivial
        exact (hinv.fits i x hx).created (hinv.view_committing hth) (Table.rest_other _ hne)

/-- At its flush a request meets the email committed exactly when its check has been overtaken. -/
theorem view_flush (hinv : RegisterInv c) {req : RegisterReq}
    (hth : c.threads[t]? = some (.flush req)) :
    req.email ∈ (c.shared.view User.email t).map User.email ↔
      createdSince t req.email c.history = true := by
  rw [Table.view_of_idle _ _ (hinv.idle hth (by simp))]
  exact hinv.fits t _ hth

theorem checkHolds_of_ne_flush {th : Handler} (hth : c.threads[t]? = some th)
    (hne : ∀ req, th ≠ .flush req) {newId : Int} {c' : RegisterConfig} :
    CheckHolds c (.run t newId) c' := by
  rintro _ _ req ⟨⟩ hflush
  rw [hth] at hflush
  exact absurd (Option.some.inj hflush) (hne req)

/-- A step answers well exactly when the check of the request still holds. -/
theorem answeredWell_iff {hashPassword : Str → Str} (hinv : RegisterInv c) {e : Event Int Empty}
    {c' : RegisterConfig} (he : (registerSystem hashPassword).fire c e = some c') :
    AnsweredWell c e c' ↔ CheckHolds c e c' := by
  cases e with
  | env e => cases e
  | run t newId =>
    obtain ⟨th, m, hth, hm, rfl⟩ := fire_run _ he
    have hstep := step_cases hm
    obtain ⟨users', th', os⟩ := m
    cases hstep with
    | taken hsome =>
      refine iff_of_true ⟨fun t' answer heq => ?_, Or.inl rfl⟩ ?_
      · obtain ⟨heq, -⟩ := List.cons.inj heq
        cases heq
        exact ⟨hinv.idle hth (by simp), Or.inr ⟨_, rfl, rfl, taken_status, rfl⟩⟩
      · exact checkHolds_of_ne_flush hth (by simp)
    | free hnone =>
      refine iff_of_true ⟨fun t' answer heq => ?_, Or.inl rfl⟩ ?_
      · cases (List.cons.inj heq).1
      · exact checkHolds_of_ne_flush hth (by simp)
    | @inserted req user hemail hfree hnone =>
      refine iff_of_true ⟨fun t' answer heq => ?_, Or.inl rfl⟩ ?_
      · exact absurd heq (by simp)
      · rintro _ _ req' ⟨⟩ hflush
        rw [hth] at hflush
        cases hflush
        rw [hemail, hinv.view_flush hth] at hnone
        simpa using hnone
    | @conflict req hsome =>
      refine iff_of_false (fun hwell => ?_) fun hholds => ?_
      · rcases (hwell.1 t .unhandled rfl).2 with ⟨req', user, hcommit, -⟩ | ⟨e, heq, -⟩
        · rw [hth] at hcommit
          cases hcommit
        · cases heq
      · rw [hinv.view_flush hth, hholds t newId req rfl hth] at hsome
        cases hsome
    | @created req user =>
      refine iff_of_true ⟨fun t' answer heq => ?_, Or.inr ⟨t, _, rfl⟩⟩ ?_
      · obtain ⟨heq, -⟩ := List.cons.inj heq
        cases heq
        refine ⟨fun w hw => by simpa using (List.mem_filter.mp hw).2, Or.inl ?_⟩
        exact ⟨req, user, hth, (hinv.fits t _ hth).1, rfl, hinv.view_committing hth⟩
      · exact checkHolds_of_ne_flush hth (by simp)

end RegisterInv

/-! ## Runs -/

variable (hashPassword : Str → Str)

theorem registerInv_exec {c c' : RegisterConfig} {es : List (Event Int Empty)}
    (hinv : RegisterInv c) (hrun : (registerSystem hashPassword).exec c es = some c') :
    RegisterInv c' :=
  exec_invariant _ (fun _ _ _ hc he => hc.step he) es hinv hrun

/-- Nobody is locked out: while a request is unanswered, some request can go on. -/
theorem some_request_goes_on {c : RegisterConfig} (hinv : RegisterInv c) {t : Nat} {th : Handler}
    (hth : c.threads[t]? = some th) (hopen : ∀ answer, th ≠ .done answer) :
    ∃ e c', (registerSystem hashPassword).fire c e = some c' := by
  cases th with
  | check req => exact ⟨.run t 0, _, fire_run_eq _ hth rfl⟩
  | commit req user => exact ⟨.run t 0, _, fire_run_eq _ hth rfl⟩
  | done answer => exact absurd rfl (hopen answer)
  | flush req =>
    obtain ⟨newId, hunused⟩ := c.shared.exists_unused User.id
    cases hflush : flushStep hashPassword c.shared t req newId with
    | some m =>
      refine ⟨.run t newId, _, fire_run_eq _ (m := m) hth ?_⟩
      simp only [registerSystem, hunused, if_true, hflush]
    | none =>
      -- the row that it waits for is of a request that is about to end its block
      obtain ⟨w, hw⟩ := exists_written_of_waits hflush
      obtain ⟨req', hcommit⟩ := hinv.pending w hw
      exact ⟨.run w.tx 0, _, fire_run_eq _ hcommit rfl⟩

/--
**Concurrent registration.**

Whoever else registers, there is at most one user with an email; and every request of a run that
does not create its user is told that the email is taken, exactly when nobody registers the email of
a request between its existence check and its flush.
-/
theorem registrations_answered_iff (rows : List User) (hrows : (rows.map User.email).Nodup)
    (reqs : List RegisterReq) (es : List (Event Int Empty)) :
    (∀ c, (registerSystem hashPassword).exec (incoming rows reqs) es = some c →
      ∀ email, (c.shared.committed.countP fun u => u.email == email) ≤ 1) ∧
      ((registerSystem hashPassword).EachStep AnsweredWell (incoming rows reqs) es ↔
        (registerSystem hashPassword).EachStep CheckHolds (incoming rows reqs) es) := by
  have hstart := registerInv_incoming hrows reqs
  refine ⟨fun c hrun email => ?_, ?_, ?_⟩
  · have hnodup := (registerInv_exec hashPassword hstart hrun).keyed.committed_nodup
    have hcount := List.nodup_iff_count_le_one.mp hnodup email
    rwa [List.count, List.countP_map] at hcount
  · intro h
    refine h.of_invariant hstart (fun c e c' hc he _ => hc.step he) ?_
    exact fun c e c' hc he hwell => (hc.answeredWell_iff he).mp hwell
  · intro h
    refine h.of_invariant hstart (fun c e c' hc he _ => hc.step he) ?_
    exact fun c e c' hc he hholds => (hc.answeredWell_iff he).mpr hholds

/-! ## Two requests with one email -/

def ann : RegisterReq :=
  { email := "ann@example.org".toList, password := "correct horse".toList
    password_length := by decide }

/-- Both have checked when the first one flushes and ends its block. -/
def overtaken : List (Event Int Empty) := [.run 0 0, .run 1 0, .run 0 1, .run 0 0]

theorem overtaken_run : ∃ c₁ c₂,
    (registerSystem id).exec (incoming [] [ann, ann]) overtaken = some c₁ ∧
      (registerSystem id).fire c₁ (.run 1 2) = some c₂ ∧
      c₂.history = .answered 1 .unhandled :: c₁.history :=
  ⟨_, _, rfl, rfl, rfl⟩

theorem register_conflict_unhandled :
    ¬∀ (hashPassword : Str → Str) (rows : List User), (rows.map User.email).Nodup →
      ∀ reqs es, (registerSystem hashPassword).EachStep AnsweredWell (incoming rows reqs) es := by
  intro h
  obtain ⟨c₁, c₂, hpre, hfire, hhistory⟩ := overtaken_run
  have hwell := h id [] List.nodup_nil [ann, ann] (overtaken ++ [.run 1 2]) overtaken (.run 1 2) []
    c₁ c₂ rfl hpre hfire
  rcases (hwell.1 1 .unhandled hhistory).2 with ⟨req, user, -, -, hcreated, -⟩ | ⟨e, herror, -⟩
  · cases hcreated
  · cases herror

theorem registrations_answered_iff_overtaken :
    (∀ c, (registerSystem id).exec (incoming [] [ann, ann]) overtaken = some c →
      ∀ email, (c.shared.committed.countP fun u => u.email == email) ≤ 1) ∧
      ((registerSystem id).EachStep AnsweredWell (incoming [] [ann, ann]) overtaken ↔
        (registerSystem id).EachStep CheckHolds (incoming [] [ann, ann]) overtaken) :=
  registrations_answered_iff id [] List.nodup_nil [ann, ann] overtaken

end EnterpriseAssistant.Authn.Registration
