import EnterpriseAssistant.Authn.Registration

/-!
# Where concurrent registrations end

* `Served.step` — a request that has been answered has its email in the table, whatever the answer
* `registrations_end` — every run ends, and then each email that was asked for is there once
-/

namespace EnterpriseAssistant.Authn.Registration

open Py Core Auth Interleaving System ReadCommitted

/-- The statements that a request has before it, at most. -/
def Handler.work : Handler → Nat
  | .check _ => 3
  | .flush _ => 2
  | .commit _ _ => 1
  | .done _ => 0

theorem works (hashPassword : Str → Str) : (registerSystem hashPassword).Works Handler.work := by
  intro users t th newId m hm
  have hstep := step_cases hm
  obtain ⟨users', th', os⟩ := m
  cases hstep with
  | _ => simp [Handler.work]

/-- Every request has been answered. -/
def Over (c : RegisterConfig) : Prop := ∀ th ∈ c.threads, ∃ answer, th = .done answer

theorem goes_on_of_not_over (hashPassword : Str → Str) {c : RegisterConfig} (hinv : RegisterInv c)
    (hopen : ¬Over c) : ∃ e c', True ∧ (registerSystem hashPassword).fire c e = some c' := by
  simp only [Over, not_forall] at hopen
  obtain ⟨th, hth, hnot⟩ := hopen
  obtain ⟨t, ht⟩ := List.mem_iff_getElem?.mp hth
  obtain ⟨e, c', he⟩ :=
    some_request_goes_on hashPassword hinv ht fun answer heq => hnot ⟨answer, heq⟩
  exact ⟨e, c', trivial, he⟩

/-! ## What the answered requests have left -/

/-- The handler is at work on this request, or the email of it is taken. -/
def Handler.For (req : RegisterReq) (users : Table User) : Handler → Prop
  | .check r => r = req
  | .flush r => r = req
  | .commit r _ => r = req
  | .done _ => req.email ∈ users.committed.map User.email

structure Served (rows : List User) (reqs : List RegisterReq) (c : RegisterConfig) : Prop where
  length : c.threads.length = reqs.length
  requests : ∀ (t : Nat) (th : Handler), c.threads[t]? = some th →
    ∃ req, reqs[t]? = some req ∧ th.For req c.shared
  added : ∃ added, c.shared.committed = rows ++ added ∧
    ∀ user ∈ added, user.email ∈ reqs.map RegisterReq.email

theorem served_incoming (rows : List User) (reqs : List RegisterReq) :
    Served rows reqs (incoming rows reqs) where
  length := List.length_map _
  requests t th hth := by
    simp only [incoming, Config.start_threads, List.getElem?_map, Option.map_eq_some_iff] at hth
    obtain ⟨req, hreq, rfl⟩ := hth
    exact ⟨req, hreq, rfl⟩
  added := ⟨[], (List.append_nil rows).symm, fun _ hu => nomatch hu⟩

/-- No email is given back. -/
theorem Handler.For.mono {req : RegisterReq} {users users' : Table User} {th : Handler}
    (h : th.For req users)
    (hkept : users.committed.map User.email ⊆ users'.committed.map User.email) :
    th.For req users' := by
  cases th with
  | done answer => exact hkept h
  | _ => exact h

variable {rows : List User} {reqs : List RegisterReq}

/-- A step that commits nothing. -/
theorem Served.quiet {c : RegisterConfig} (h : Served rows reqs c) {t : Nat} {th th' : Handler}
    {users' : Table User} {os : List Obs} (hth : c.threads[t]? = some th)
    (hcommitted : users'.committed = c.shared.committed)
    (hfor : ∀ req, th.For req c.shared → th'.For req c.shared) :
    Served rows reqs (after c t { shared := users', thread := th', obs := os }) where
  length := by rw [after_threads, List.length_set, h.length]
  requests := by
    have hkept : ∀ {req x}, Handler.For req c.shared x → Handler.For req users' x :=
      fun hx => hx.mono (by rw [hcommitted]; exact List.Subset.refl _)
    refine forall_set (fun i x hx => ?_) ?_
    · obtain ⟨req, hreq, hx⟩ := h.requests i x hx
      exact ⟨req, hreq, hkept hx⟩
    · obtain ⟨req, hreq, hx⟩ := h.requests t th hth
      exact ⟨req, hreq, hkept (hfor req hx)⟩
  added := by
    obtain ⟨added, hadded, hmem⟩ := h.added
    exact ⟨added, hcommitted.trans hadded, hmem⟩

/-- **An answered request has its email in the table**, whether it was its own row or not. -/
theorem Served.step {hashPassword : Str → Str} {c : RegisterConfig} (h : Served rows reqs c)
    (hinv : RegisterInv c) {e : Event Int Empty} {c' : RegisterConfig}
    (he : (registerSystem hashPassword).fire c e = some c') : Served rows reqs c' := by
  cases e with
  | env e => cases e
  | run t newId =>
    obtain ⟨th, m, hth, hm, rfl⟩ := fire_run _ he
    have hstep := step_cases hm
    obtain ⟨users', th', os⟩ := m
    cases hstep with
    | taken hsome =>
      rw [Table.view_of_idle _ _ (hinv.idle hth (by simp))] at hsome
      refine h.quiet hth rfl ?_
      rintro req rfl
      exact hsome
    | free hnone => exact h.quiet hth rfl fun req heq => heq
    | inserted hemail hfree hnone => exact h.quiet hth rfl fun req heq => heq
    | conflict hsome =>
      rw [Table.view_of_idle _ _ (hinv.idle hth (by simp))] at hsome
      refine h.quiet hth rfl ?_
      rintro req rfl
      exact hsome
    | @created r user =>
      -- the only step that shows a row to the others, and it is a row that nobody has
      have hcommitted : (c.shared.commit User.email t).committed = c.shared.committed ++ [user] :=
        hinv.view_committing hth
      have hemail := (hinv.fits t _ hth).1
      have hkept : c.shared.committed.map User.email
          ⊆ (c.shared.commit User.email t).committed.map User.email := by
        rw [hcommitted, List.map_append]
        exact List.subset_append_left _ _
      refine ⟨by rw [after_threads, List.length_set, h.length], ?_, ?_⟩
      · refine forall_set (fun i x hx => ?_) ?_
        · obtain ⟨req, hreq, hx⟩ := h.requests i x hx
          exact ⟨req, hreq, hx.mono hkept⟩
        · obtain ⟨req, hreq, rfl⟩ := h.requests t _ hth
          refine ⟨r, hreq, ?_⟩
          show r.email ∈ (c.shared.view User.email t).map User.email
          rw [hinv.view_committing hth, ← hemail]
          simp
      · obtain ⟨added, hadded, hmem⟩ := h.added
        refine ⟨added ++ [user], ?_, ?_⟩
        · show c.shared.view User.email t = _
          rw [hinv.view_committing hth, hadded, List.append_assoc]
        · intro u hu
          rcases List.mem_append.mp hu with hold | hnew
          · exact hmem u hold
          · obtain ⟨req, hreq, rfl⟩ := h.requests t _ hth
            rw [List.mem_singleton.mp hnew, hemail]
            exact List.mem_map_of_mem (List.mem_of_getElem? hreq)

/-! ## The end -/

theorem Served.emails {c : RegisterConfig} (h : Served rows reqs c) (hover : Over c)
    (email : Str) : email ∈ c.shared.committed.map User.email ↔
      email ∈ rows.map User.email ∨ email ∈ reqs.map RegisterReq.email := by
  obtain ⟨added, hadded, hmem⟩ := h.added
  constructor
  · intro hemail
    rw [hadded, List.map_append, List.mem_append] at hemail
    refine hemail.imp_right fun hnew => ?_
    obtain ⟨user, huser, rfl⟩ := List.mem_map.mp hnew
    exact hmem user huser
  · rintro (hrow | hreq)
    · rw [hadded, List.map_append]
      exact List.mem_append_left _ hrow
    · obtain ⟨req, hmem', rfl⟩ := List.mem_map.mp hreq
      obtain ⟨t, ht⟩ := List.mem_iff_getElem?.mp hmem'
      have hlt : t < c.threads.length := by
        rw [h.length]
        exact (List.getElem?_eq_some_iff.mp ht).1
      obtain ⟨th, hth⟩ : ∃ th, c.threads[t]? = some th := ⟨_, List.getElem?_eq_getElem hlt⟩
      obtain ⟨req', hreq', hfor⟩ := h.requests t th hth
      rw [ht] at hreq'
      cases hreq'
      obtain ⟨answer, rfl⟩ := hover th (List.mem_of_getElem? hth)
      exact hfor

/--
**Concurrent registrations end**, however their statements interleave: after at most three for each
request, and from everywhere every request can still be answered.  Then the users from before are
there as they were, and each email that was asked for is there exactly once.
-/
theorem registrations_end (hashPassword : Str → Str) (rows : List User)
    (hrows : (rows.map User.email).Nodup) (reqs : List RegisterReq) {es : List (Event Int Empty)}
    {c : RegisterConfig}
    (hrun : (registerSystem hashPassword).exec (incoming rows reqs) es = some c) :
    es.length ≤ 3 * reqs.length ∧
      (∃ es' c', (registerSystem hashPassword).exec c es' = some c' ∧ Over c') ∧
      (Over c → rows <+: c.shared.committed ∧ ∀ email,
        (c.shared.committed.countP fun u => u.email == email)
          = if email ∈ rows.map User.email ∨ email ∈ reqs.map RegisterReq.email then 1 else 0) := by
  have hinv := registerInv_exec hashPassword (registerInv_incoming hrows reqs) hrun
  have hserved : Served rows reqs c :=
    (exec_invariant (I := fun c => RegisterInv c ∧ Served rows reqs c) _
      (fun _ _ _ hc he => ⟨hc.1.step he, hc.2.step hc.1 he⟩) es
      ⟨registerInv_incoming hrows reqs, served_incoming rows reqs⟩ hrun).2
  refine ⟨?_, ?_, fun hover => ⟨?_, fun email => ?_⟩⟩
  · have hlength := (works hashPassword).length_le es hrun
    have hstart : work Handler.work (incoming rows reqs).threads ≤ 3 * reqs.length := by
      refine (work_le (n := 3) fun th hth => ?_).trans_eq (by simp [incoming])
      obtain ⟨req, -, rfl⟩ := List.mem_map.mp hth
      exact Nat.le_refl 3
    omega
  · obtain ⟨es', c', -, hexec, -, hover⟩ := (works hashPassword).exists_end
      (I := RegisterInv) (P := fun _ => True) (fun _ _ _ _ hc he => hc.step he)
      (fun _ hc hopen => goes_on_of_not_over hashPassword hc hopen) hinv
    exact ⟨es', c', hexec, hover⟩
  · obtain ⟨added, hadded, -⟩ := hserved.added
    exact ⟨added, hadded.symm⟩
  · -- at most once because the column is unique, and at least once because it is served
    have hcount := List.nodup_iff_count_le_one.mp hinv.keyed.committed_nodup email
    have hemails := hserved.emails hover email
    rw [List.count, List.countP_map] at hcount
    split
    next hasked =>
      have hpos := List.count_pos_iff.mpr (hemails.mpr hasked)
      rw [List.count, List.countP_map] at hpos
      exact Nat.le_antisymm hcount hpos
    next hnot =>
      have hzero := List.count_eq_zero.mpr (mt hemails.mp hnot)
      rwa [List.count, List.countP_map] at hzero

theorem overtaken_answered : ∃ c,
    (registerSystem id).exec (incoming [] [ann, ann]) (overtaken ++ [.run 1 2]) = some c ∧
      ∃ created, c.threads = [.done created, .done .unhandled] :=
  ⟨_, rfl, _, rfl⟩

theorem registrations_end_overtaken : ∃ c,
    (registerSystem id).exec (incoming [] [ann, ann]) (overtaken ++ [.run 1 2]) = some c ∧ Over c ∧
      (c.shared.committed.countP fun u => u.email == ann.email) = 1 := by
  obtain ⟨c, hrun, created, hthreads⟩ := overtaken_answered
  have hover : Over c := by simp [Over, hthreads]
  have hend := (registrations_end id [] List.nodup_nil [ann, ann] hrun).2.2 hover
  exact ⟨c, hrun, hover, (hend.2 ann.email).trans (if_pos (by simp))⟩

end EnterpriseAssistant.Authn.Registration
