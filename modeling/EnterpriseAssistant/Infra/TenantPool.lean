import EnterpriseAssistant.Lib.Interleaving
import EnterpriseAssistant.Api.Request
import EnterpriseAssistant.Infra.Deps

/-!
# The tenant of a pooled connection

`get_db` of `app/infra/db/deps.py` under concurrency.  It writes `app.tenant_id` on the connection
of its first statement and then commits, which gives the connection back to the pool; the
statements of the request run on whatever connections the pool hands out later.

* `Inv.step` — a connection carries the tenant of the last `set_config` that was committed on it
* `tenant_isolated_iff` — which requests and pools are isolated in every run, and which runs are
-/

namespace EnterpriseAssistant.Infra.TenantPool

open Py Core Api Interleaving

/-! ## Requests, connections and the pool -/

/-- `TenantContextMiddleware.dispatch`: `request.state.workspace_id`, and the context. -/
def tenantDispatch (r : Request) (ctx : RequestContext) : Option Int × RequestContext :=
  (extractWorkspaceId r, { ctx with workspaceId := extractWorkspaceId r })

/-- What `get_db` writes for a request that the middleware has passed on. -/
def tenantId (r : Request) : Str :=
  tenantValue (tenantDispatch r .cleared).1 (tenantDispatch r .cleared).2.workspaceId

structure Connection where
  /-- `app.tenant_id` as the last commit has left it; `none` on a new connection -/
  committed : Option Str
  /-- what the open transaction has set it to -/
  pending : Option Str
  /-- the request whose session has checked it out -/
  heldBy : Option Nat
deriving DecidableEq, Repr

def Connection.fresh : Connection := { committed := none, pending := none, heldBy := none }

/-- `current_setting('app.tenant_id')` -/
def Connection.tenant (conn : Connection) : Option Str := conn.pending.or conn.committed

structure Pool where
  /-- `pool_size + max_overflow` -/
  capacity : Nat
  connections : List Connection
deriving DecidableEq, Repr

/-- Connection `c`; one that has not been opened is like a new one. -/
def Pool.conn (p : Pool) (c : Nat) : Connection := p.connections[c]?.getD .fresh

def Pool.change (p : Pool) (c : Nat) (f : Connection → Connection) : Pool :=
  { p with connections := p.connections.modify c f }

/-- Where a session gets its connection from. -/
inductive Pick where
  /-- an idle one, by number -/
  | idle (c : Nat)
  /-- an idle one that is past `pool_recycle` or does not answer the ping, and is opened again -/
  | replaced (c : Nat)
  | opened
deriving DecidableEq, Repr

/-- The number of the connection that request `t` checks out. -/
def Pool.checkout (p : Pool) (t : Nat) : Pick → Option (Nat × Pool)
  | .idle c =>
    if c < p.connections.length ∧ (p.conn c).heldBy = none then
      some (c, p.change c fun conn => { conn with heldBy := some t })
    else none
  | .replaced c =>
    if c < p.connections.length ∧ (p.conn c).heldBy = none then
      some (c, p.change c fun _ => { Connection.fresh with heldBy := some t })
    else none
  | .opened =>
    if p.connections.length < p.capacity then
      some (p.connections.length,
        { p with connections := p.connections ++ [{ Connection.fresh with heldBy := some t }] })
    else none

/-- `session.commit()` gives the connection back. -/
def Pool.commit (p : Pool) (c : Nat) : Pool :=
  p.change c fun conn => { committed := conn.tenant, pending := none, heldBy := none }

/-- So does `session.rollback()`, which undoes a `set_config` of the transaction. -/
def Pool.rollback (p : Pool) (c : Nat) : Pool :=
  p.change c fun conn => { conn with pending := none, heldBy := none }

/-- `set_config('app.tenant_id', v, false)` -/
def Pool.setConfig (p : Pool) (c : Nat) (v : Str) : Pool :=
  p.change c fun conn => { conn with pending := some v }

inductive Phase where
  /-- `get_db`, before `set_config` -/
  | entering
  /-- `get_db`, before its commit -/
  | configured (c : Nat)
  /-- the body, with the connection of its open transaction -/
  | yielded (held : Option Nat)
  | closed
deriving DecidableEq, Repr

structure Session where
  req : Request
  phase : Phase
deriving DecidableEq, Repr

inductive Choice where
  /-- the next statement; `pick` is the connection if one has to be checked out -/
  | execute (pick : Pick)
  | commit
  | rollback
  /-- the body returns or raises, or the request is cancelled -/
  | close
deriving DecidableEq, Repr

inductive Obs where
  /-- `get_db` has committed its `set_config` -/
  | configured (t : Nat) (req : Request) (c : Nat)
  /-- the connection has been opened again -/
  | replaced (c : Nat)
  /-- a later transaction of the session has checked out a connection -/
  | checkedOut (t : Nat) (req : Request) (c : Nat)
  /-- a statement of the body has run, under this setting -/
  | statement (t : Nat) (req : Request) (c : Nat) (tenant : Option Str)
deriving DecidableEq, Repr

/-! ## The steps -/

abbrev PoolMove := Move Pool Session Obs

def handOut : Pick → List Obs
  | .replaced c => [.replaced c]
  | .idle _ | .opened => []

/-- A statement of the body on the connection that the session holds. -/
def statementOn (p : Pool) (t : Nat) (req : Request) (c : Nat) : PoolMove :=
  { shared := p
    thread := { req := req, phase := .yielded (some c) }
    obs := [.statement t req c (p.conn c).tenant] }

def sessionStep (p : Pool) (t : Nat) (s : Session) (ch : Choice) : Option PoolMove :=
  match s.phase, ch with
  | .entering, .execute pick =>
    -- `set_config` is the first statement of the session, so it checks the connection out
    (p.checkout t pick).map fun (c, p) =>
      { shared := p.setConfig c (tenantId s.req)
        thread := { s with phase := .configured c }
        obs := handOut pick }
  | .configured c, .commit =>
    some
      { shared := p.commit c
        thread := { s with phase := .yielded none }
        obs := [.configured t s.req c] }
  | .yielded none, .execute pick =>
    (p.checkout t pick).map fun (c, p) =>
      let m := statementOn p t s.req c
      { m with obs := m.obs ++ .checkedOut t s.req c :: handOut pick }
  | .yielded (some c), .execute _ => some (statementOn p t s.req c)
  | .yielded none, .commit | .yielded none, .rollback => some { shared := p, thread := s, obs := [] }
  | .yielded (some c), .commit =>
    some { shared := p.commit c, thread := { s with phase := .yielded none }, obs := [] }
  | .yielded (some c), .rollback =>
    some { shared := p.rollback c, thread := { s with phase := .yielded none }, obs := [] }
  | .configured c, .close | .yielded (some c), .close =>
    some { shared := p.rollback c, thread := { s with phase := .closed }, obs := [] }
  | .entering, .close | .yielded none, .close =>
    some { shared := p, thread := { s with phase := .closed }, obs := [] }
  | _, _ => none

/-- Nothing happens to the pool but what the sessions do. -/
def poolSystem : System Pool Session Choice Empty Obs where
  step := sessionStep
  env _ e := nomatch e

abbrev PoolConfig := Config Pool Session Obs

/-- These requests have come in and no connection has been made. -/
def entering (capacity : Nat) (reqs : List Request) : PoolConfig :=
  .start { capacity := capacity, connections := [] }
    (reqs.map fun r => { req := r, phase := .entering })

/-! ## What is asked of a run -/

/-- A statement runs under the workspace id of its own request, or under `0`. -/
def Obs.Isolated : Obs → Prop
  | .statement _ req _ tenant =>
    tenant = some (match extractWorkspaceId req with
      | some n => str n
      | none => "0".toList)
  | _ => True

def Isolated (h : List Obs) : Prop := ∀ o ∈ h, o.Isolated

/-- The request of the last `set_config` committed on the connection since it was opened. -/
def lastConfigured (c : Nat) : List Obs → Option Request
  | [] => none
  | .configured _ req c' :: h => if c' = c then some req else lastConfigured c h
  | .replaced c' :: h => if c' = c then none else lastConfigured c h
  | _ :: h => lastConfigured c h

/-- A connection that is checked out was last configured for the same workspace. -/
def Obs.OwnCheckout (o : Obs) (earlier : List Obs) : Prop :=
  match o with
  | .checkedOut _ req c =>
    ∃ req', lastConfigured c earlier = some req' ∧
      extractWorkspaceId req' = extractWorkspaceId req
  | _ => True

def OwnCheckouts (h : List Obs) : Prop := Throughout Obs.OwnCheckout h

/-- No connection has been opened again. -/
def Kept (h : List Obs) : Prop := ∀ c, .replaced c ∉ h

/-! ## What the operations do to the pool -/

theorem change_conn {p : Pool} {c : Nat} (h : c < p.connections.length)
    (f : Connection → Connection) (k : Nat) :
    (p.change c f).conn k = if k = c then f (p.conn c) else p.conn k := by
  unfold Pool.change Pool.conn
  simp only [List.getElem?_modify]
  by_cases hk : k = c
  · subst hk
    simp [List.getElem?_eq_getElem h]
  · simp [hk, Ne.symm hk]

@[simp] theorem change_length (p : Pool) (c : Nat) (f : Connection → Connection) :
    (p.change c f).connections.length = p.connections.length := by
  simp [Pool.change]

theorem conn_of_length_le {p : Pool} {c : Nat} (h : p.connections.length ≤ c) :
    p.conn c = .fresh := by
  unfold Pool.conn
  rw [List.getElem?_eq_none h]
  rfl

theorem lt_of_heldBy {p : Pool} {c t : Nat} (h : (p.conn c).heldBy = some t) :
    c < p.connections.length := by
  by_contra hge
  rw [conn_of_length_le (not_lt.mp hge)] at h
  cases h

/-- The connection as it is handed out. -/
def Pick.given (pick : Pick) (conn : Connection) : Connection :=
  match pick with
  | .replaced _ => .fresh
  | .idle _ | .opened => conn

/-- Connection `c` was idle, and request `t` holds it now. -/
structure CheckedOut (p : Pool) (t : Nat) (pick : Pick) (c : Nat) (p' : Pool) : Prop where
  idle : (p.conn c).heldBy = none
  number : ∀ k, pick = .replaced k → k = c
  capacity_eq : p'.capacity = p.capacity
  lt : c < p'.connections.length
  length_le : p.connections.length ≤ p.capacity → p'.connections.length ≤ p.capacity
  conn_eq : ∀ k, p'.conn k =
    if k = c then { pick.given (p.conn c) with heldBy := some t } else p.conn k

theorem checkedOut_of_checkout {p p' : Pool} {t c : Nat} {pick : Pick}
    (h : p.checkout t pick = some (c, p')) : CheckedOut p t pick c p' := by
  cases pick with
  | idle k =>
    simp only [Pool.checkout, Option.ite_none_right_eq_some] at h
    obtain ⟨⟨hlt, hidle⟩, heq⟩ := h
    cases heq
    exact ⟨hidle, fun _ hk => (nomatch hk), rfl, by simpa using hlt, by simp, change_conn hlt _⟩
  | replaced k =>
    simp only [Pool.checkout, Option.ite_none_right_eq_some] at h
    obtain ⟨⟨hlt, hidle⟩, heq⟩ := h
    cases heq
    exact ⟨hidle, fun _ hk => (Pick.replaced.inj hk).symm, rfl, by simpa using hlt, by simp,
      change_conn hlt _⟩
  | opened =>
    simp only [Pool.checkout, Option.ite_none_right_eq_some] at h
    obtain ⟨hlt, heq⟩ := h
    cases heq
    have hnew : p.conn p.connections.length = .fresh := conn_of_length_le (le_refl _)
    refine ⟨by rw [hnew]; rfl, fun _ hk => (nomatch hk), rfl, by simp, fun _ => ?_, fun k => ?_⟩
    · simp only [List.length_append, List.length_singleton]
      exact hlt
    · by_cases hk : k = p.connections.length
      · subst hk
        rw [if_pos rfl, hnew]
        simp [Pool.conn, Pick.given]
      · rw [if_neg hk]
        unfold Pool.conn
        by_cases hlt : k < p.connections.length
        · rw [List.getElem?_append_left hlt]
        · rw [List.getElem?_eq_none (not_lt.mp hlt), List.getElem?_eq_none]
          simp only [List.length_append, List.length_singleton]
          omega

theorem CheckedOut.conn_self {p p' : Pool} {t c : Nat} {pick : Pick}
    (h : CheckedOut p t pick c p') :
    p'.conn c = { pick.given (p.conn c) with heldBy := some t } :=
  (h.conn_eq c).trans (if_pos rfl)

theorem CheckedOut.conn_ne {p p' : Pool} {t c : Nat} {pick : Pick} (h : CheckedOut p t pick c p')
    {k : Nat} (hk : k ≠ c) : p'.conn k = p.conn k :=
  (h.conn_eq k).trans (if_neg hk)

/-! ## What a session can do -/

def Session.holds (s : Session) : Option Nat :=
  match s.phase with
  | .configured c => some c
  | .yielded held => held
  | _ => none

/-- What its open transaction has set. -/
def Session.pending (s : Session) : Option Str :=
  match s.phase with
  | .configured _ => some (tenantId s.req)
  | _ => none

/-- Every step of a session. -/
inductive SessionStep (p : Pool) (t : Nat) (req : Request) : Phase → PoolMove → Prop where
  | configure {pick : Pick} {c : Nat} {p' : Pool} (h : CheckedOut p t pick c p') :
      SessionStep p t req .entering
        { shared := p'.setConfig c (tenantId req), thread := { req := req, phase := .configured c }
          obs := handOut pick }
  | begin (c : Nat) :
      SessionStep p t req (.configured c)
        { shared := p.commit c, thread := { req := req, phase := .yielded none }
          obs := [.configured t req c] }
  | checkOut {pick : Pick} {c : Nat} {p' : Pool} (h : CheckedOut p t pick c p') :
      SessionStep p t req (.yielded none)
        { shared := p', thread := { req := req, phase := .yielded (some c) }
          obs := .statement t req c (p'.conn c).tenant :: .checkedOut t req c :: handOut pick }
  | execute (c : Nat) :
      SessionStep p t req (.yielded (some c))
        { shared := p, thread := { req := req, phase := .yielded (some c) }
          obs := [.statement t req c (p.conn c).tenant] }
  | commit (c : Nat) :
      SessionStep p t req (.yielded (some c))
        { shared := p.commit c, thread := { req := req, phase := .yielded none }, obs := [] }
  | rollback {phase phase' : Phase} {c : Nat}
      (h : phase' = .closed ∧ phase = .configured c ∨
        (phase' = .closed ∨ phase' = .yielded none) ∧ phase = .yielded (some c)) :
      SessionStep p t req phase
        { shared := p.rollback c, thread := { req := req, phase := phase' }, obs := [] }
  | stay {phase phase' : Phase} (h : phase' = .closed ∨ (phase = .yielded none ∧ phase' = phase)) :
      SessionStep p t req phase
        { shared := p, thread := { req := req, phase := phase' }, obs := [] }

theorem sessionStep_cases {p : Pool} {t : Nat} {s : Session} {ch : Choice} {m : PoolMove}
    (h : sessionStep p t s ch = some m) : SessionStep p t s.req s.phase m := by
  unfold sessionStep at h
  split at h
  · next hphase =>
    obtain ⟨⟨c, p'⟩, hp', rfl⟩ := Option.map_eq_some_iff.mp h
    rw [hphase]
    exact .configure (checkedOut_of_checkout hp')
  · next hphase =>
    cases h
    rw [hphase]
    exact .begin _
  · next hphase =>
    obtain ⟨⟨c, p'⟩, hp', rfl⟩ := Option.map_eq_some_iff.mp h
    rw [hphase]
    exact .checkOut (checkedOut_of_checkout hp')
  · next hphase =>
    cases h
    rw [hphase]
    exact .execute _
  · next hphase =>
    cases h
    exact .stay (Or.inr ⟨hphase, rfl⟩)
  · next hphase =>
    cases h
    exact .stay (Or.inr ⟨hphase, rfl⟩)
  · next hphase =>
    cases h
    rw [hphase]
    exact .commit _
  · next hphase =>
    cases h
    exact .rollback (Or.inr ⟨Or.inr rfl, hphase⟩)
  · next hphase =>
    cases h
    exact .rollback (Or.inl ⟨rfl, hphase⟩)
  · next hphase =>
    cases h
    exact .rollback (Or.inr ⟨Or.inl rfl, hphase⟩)
  · cases h
    exact .stay (Or.inl rfl)
  · cases h
    exact .stay (Or.inl rfl)
  · cases h

/-! ## The settings and the last `set_config` -/

theorem tenantId_eq (r : Request) :
    tenantId r = match extractWorkspaceId r with
      | some n => str n
      | none => "0".toList := by
  unfold tenantId tenantDispatch tenantValue
  cases extractWorkspaceId r with
  | none => rfl
  | some n => rfl

/-- No workspace id prints as the `0` of a request without one. -/
theorem tenantId_inj {r r' : Request} :
    tenantId r = tenantId r' ↔ extractWorkspaceId r = extractWorkspaceId r' := by
  have hzero : "0".toList = str 0 := rfl
  refine ⟨fun h => ?_, fun h => by rw [tenantId_eq, tenantId_eq, h]⟩
  rw [tenantId_eq, tenantId_eq, hzero] at h
  cases hr : extractWorkspaceId r with
  | none =>
    cases hr' : extractWorkspaceId r' with
    | none => rfl
    | some n' =>
      have hpos := extractWorkspaceId_pos hr'
      simp only [hr, hr', str_inj] at h
      omega
  | some n =>
    cases hr' : extractWorkspaceId r' with
    | none =>
      have hpos := extractWorkspaceId_pos hr
      simp only [hr, hr', str_inj] at h
      omega
    | some n' =>
      simp only [hr, hr', str_inj] at h
      rw [h]

/-- A connection that was configured at some time, and has never been opened again. -/
theorem lastConfigured_of_mem {t c : Nat} {req : Request} :
    ∀ {h : List Obs}, Kept h → .configured t req c ∈ h → ∃ req', lastConfigured c h = some req'
  | .configured t' req' c' :: h, hkept, hmem => by
    simp only [lastConfigured]
    split
    · exact ⟨req', rfl⟩
    · next hc =>
      rcases List.mem_cons.mp hmem with heq | hmem
      · cases heq
        exact absurd rfl hc
      · exact lastConfigured_of_mem (fun k hk => hkept k (List.mem_cons_of_mem _ hk)) hmem
  | .replaced c' :: h, hkept, _ => absurd List.mem_cons_self (hkept c')
  | .checkedOut .. :: h, hkept, hmem =>
    lastConfigured_of_mem (h := h) (fun k hk => hkept k (List.mem_cons_of_mem _ hk))
      ((List.mem_cons.mp hmem).resolve_left fun heq => (nomatch heq))
  | .statement .. :: h, hkept, hmem =>
    lastConfigured_of_mem (h := h) (fun k hk => hkept k (List.mem_cons_of_mem _ hk))
      ((List.mem_cons.mp hmem).resolve_left fun heq => (nomatch heq))

theorem lastConfigured_mem {c : Nat} {req : Request} :
    ∀ {h : List Obs}, lastConfigured c h = some req → ∃ t, .configured t req c ∈ h
  | [], heq => nomatch heq
  | .configured t req' c' :: h, heq => by
    simp only [lastConfigured] at heq
    split at heq
    · next hc =>
      cases heq
      exact ⟨t, hc ▸ List.mem_cons_self⟩
    · obtain ⟨t', ht'⟩ := lastConfigured_mem heq
      exact ⟨t', List.mem_cons_of_mem _ ht'⟩
  | .replaced c' :: h, heq => by
    simp only [lastConfigured] at heq
    split at heq
    · cases heq
    · obtain ⟨t', ht'⟩ := lastConfigured_mem heq
      exact ⟨t', List.mem_cons_of_mem _ ht'⟩
  | .checkedOut .. :: h, heq => by
    obtain ⟨t', ht'⟩ := lastConfigured_mem (h := h) heq
    exact ⟨t', List.mem_cons_of_mem _ ht'⟩
  | .statement .. :: h, heq => by
    obtain ⟨t', ht'⟩ := lastConfigured_mem (h := h) heq
    exact ⟨t', List.mem_cons_of_mem _ ht'⟩

/-- What the last commits have left on the connections. -/
def Committed (p : Pool) (h : List Obs) : Prop :=
  ∀ k, (p.conn k).committed = (lastConfigured k h).map tenantId

theorem CheckedOut.committed {p p' : Pool} {t c : Nat} {pick : Pick} {h : List Obs}
    (hp' : CheckedOut p t pick c p') (hp : Committed p h) : Committed p' (handOut pick ++ h) := by
  intro k
  rw [hp'.conn_eq k]
  cases pick with
  | idle _ | opened =>
    split
    · next hk =>
      subst hk
      exact hp k
    · exact hp k
  | replaced c' =>
    obtain rfl := hp'.number c' rfl
    simp only [handOut, List.cons_append, List.nil_append, lastConfigured]
    by_cases hk : k = c'
    · rw [if_pos hk, if_pos hk.symm]
      rfl
    · rw [if_neg hk, if_neg (Ne.symm hk)]
      exact hp k

/-- What any step may observe. -/
def Obs.Possible (capacity : Nat) (reqs : List Request) (o : Obs) (earlier : List Obs) : Prop :=
  match o with
  | .configured _ req c => req ∈ reqs ∧ c < capacity
  | .checkedOut _ req c =>
    req ∈ reqs ∧ c < capacity ∧ ∃ t req' c', .configured t req' c' ∈ earlier
  | .replaced _ | .statement .. => True

theorem possible_handOut {capacity : Nat} {reqs : List Request} {pick : Pick} {h : List Obs}
    (hh : Throughout (Obs.Possible capacity reqs) h) :
    Throughout (Obs.Possible capacity reqs) (handOut pick ++ h) := by
  refine hh.append fun o ho _ => ?_
  cases pick with
  | idle _ | opened => cases ho
  | replaced k =>
    cases List.mem_singleton.mp ho
    trivial

/-- What a session that holds the connection knows of it. -/
def Holding (p : Pool) (t : Nat) (s : Session) : Prop :=
  ∀ k, s.holds = some k → (p.conn k).heldBy = some t ∧ (p.conn k).pending = s.pending

/-- What holds in every reachable configuration. -/
structure Inv (capacity : Nat) (reqs : List Request) (c : PoolConfig) : Prop where
  capacity_eq : c.shared.capacity = capacity
  length_le : c.shared.connections.length ≤ capacity
  committed : Committed c.shared c.history
  idle : ∀ k, (c.shared.conn k).heldBy = none → (c.shared.conn k).pending = none
  holding : ∀ (t : Nat) (s : Session), c.threads[t]? = some s → Holding c.shared t s
  req_mem : ∀ (t : Nat) (s : Session), c.threads[t]? = some s → s.req ∈ reqs
  begun : ∀ (t : Nat) (s : Session), c.threads[t]? = some s → ∀ held, s.phase = .yielded held →
    ∃ t' req k, .configured t' req k ∈ c.history
  possible : Throughout (Obs.Possible capacity reqs) c.history

theorem inv_entering (capacity : Nat) (reqs : List Request) :
    Inv capacity reqs (entering capacity reqs) := by
  have hthreads : ∀ (t : Nat) (s : Session), (entering capacity reqs).threads[t]? = some s →
      ∃ r ∈ reqs, s = { req := r, phase := .entering } := by
    intro t s hs
    simp only [entering, Config.start_threads, List.getElem?_map, Option.map_eq_some_iff] at hs
    obtain ⟨r, hr, rfl⟩ := hs
    exact ⟨r, List.mem_of_getElem? hr, rfl⟩
  refine ⟨rfl, Nat.zero_le _, fun k => rfl, fun k _ => rfl, ?_, ?_, ?_, throughout_nil _⟩
  · intro t s hs k hk
    obtain ⟨r, -, rfl⟩ := hthreads t s hs
    cases hk
  · intro t s hs
    obtain ⟨r, hr, rfl⟩ := hthreads t s hs
    exact hr
  · intro t s hs held hheld
    obtain ⟨r, -, rfl⟩ := hthreads t s hs
    cases hheld

variable {capacity : Nat} {reqs : List Request} {c : PoolConfig}

/-- Two sessions never hold one connection. -/
theorem Inv.ne_of_holds (h : Inv capacity reqs c) {t i k : Nat} {s : Session}
    (hs : c.threads[i]? = some s) (hk : s.holds = some k) {k' : Nat} (hne : i ≠ t)
    (hk' : (c.shared.conn k').heldBy = some t ∨ (c.shared.conn k').heldBy = none) : k ≠ k' := by
  rintro rfl
  rw [(h.holding i s hs k hk).1] at hk'
  rcases hk' with heq | heq
  · exact hne (Option.some.inj heq)
  · cases heq

/-- The other sessions see nothing of what session `t` does to its own connection. -/
theorem Inv.holding_others (h : Inv capacity reqs c) {t k : Nat} {p' : Pool}
    (hmine : (c.shared.conn k).heldBy = some t ∨ (c.shared.conn k).heldBy = none)
    (hconn : ∀ k', k' ≠ k → p'.conn k' = c.shared.conn k') (i : Nat) (s : Session) (hne : i ≠ t)
    (hs : c.threads[i]? = some s) : Holding p' i s := by
  intro k' hk'
  rw [hconn k' (h.ne_of_holds hs hk' hne hmine)]
  exact h.holding i s hs k' hk'

/-- `get_db` executes `set_config` on a connection it has checked out. -/
theorem Inv.configure (h : Inv capacity reqs c) {t k : Nat} {req : Request} {pick : Pick}
    {p' : Pool} (hreq : req ∈ reqs) (hp' : CheckedOut c.shared t pick k p') :
    Inv capacity reqs (System.after c t
      { shared := p'.setConfig k (tenantId req), thread := { req := req, phase := .configured k }
        obs := handOut pick }) := by
  have hcommitted := hp'.committed h.committed
  have hconn : ∀ k', (p'.setConfig k (tenantId req)).conn k' = _ := change_conn hp'.lt _
  refine
    { capacity_eq := hp'.capacity_eq.trans h.capacity_eq
      length_le := ?_
      committed := fun k' => ?_
      idle := fun k' => ?_
      holding := forall_set_of_ne (h.holding_others (Or.inr hp'.idle) fun k' hk' => ?_) ?_
      req_mem := forall_set h.req_mem hreq
      begun := forall_set (fun i s hs held hheld => ?_) fun held hheld => by cases hheld
      possible := possible_handOut h.possible }
  · rw [System.after_shared, Pool.setConfig, change_length]
    exact h.capacity_eq ▸ hp'.length_le (h.capacity_eq.symm ▸ h.length_le)
  · rw [System.after_shared, System.after_history, ← hcommitted k', hconn k']
    split
    · next hk => rw [hk]
    · rfl
  · rw [System.after_shared, hconn k']
    split
    · rw [hp'.conn_self]
      exact fun hnone => nomatch hnone
    · next hk =>
      rw [hp'.conn_ne hk]
      exact h.idle k'
  · rw [System.after_shared, hconn k', if_neg hk', hp'.conn_ne hk']
  · rintro k' ⟨⟩
    rw [System.after_shared, hconn k, if_pos rfl, hp'.conn_self]
    exact ⟨rfl, rfl⟩
  · obtain ⟨t', req', k', hmem⟩ := h.begun i s hs held hheld
    exact ⟨t', req', k', List.mem_append_right _ hmem⟩

/-- A statement of the body opens the next transaction. -/
theorem Inv.checkOut (h : Inv capacity reqs c) {t k : Nat} {req : Request} {pick : Pick}
    {p' : Pool} {v : Option Str} (hreq : req ∈ reqs)
    (hbegun : ∃ t' req k, .configured t' req k ∈ c.history)
    (hp' : CheckedOut c.shared t pick k p') :
    Inv capacity reqs (System.after c t
      { shared := p', thread := { req := req, phase := .yielded (some k) }
        obs := .statement t req k v :: .checkedOut t req k :: handOut pick }) := by
  have hconfigured : ∀ {os : List Obs}, ∃ t' req k, .configured t' req k ∈ os ++ c.history := by
    obtain ⟨t', req', k', hmem⟩ := hbegun
    exact fun {_} => ⟨t', req', k', List.mem_append_right _ hmem⟩
  have hlt : k < capacity :=
    hp'.lt.trans_le (h.capacity_eq ▸ hp'.length_le (h.capacity_eq.symm ▸ h.length_le))
  refine
    { capacity_eq := hp'.capacity_eq.trans h.capacity_eq
      length_le := h.capacity_eq ▸ hp'.length_le (h.capacity_eq.symm ▸ h.length_le)
      committed := hp'.committed h.committed
      idle := fun k' => ?_
      holding := forall_set_of_ne (h.holding_others (Or.inr hp'.idle) fun k' => hp'.conn_ne) ?_
      req_mem := forall_set h.req_mem hreq
      begun := fun _ _ _ _ _ => hconfigured
      possible := Throughout.cons trivial (Throughout.cons ⟨hreq, hlt, hconfigured⟩
        (possible_handOut h.possible)) }
  · rw [System.after_shared]
    by_cases hk : k' = k
    · rw [hk, hp'.conn_self]
      exact fun hnone => nomatch hnone
    · rw [hp'.conn_ne hk]
      exact h.idle k'
  · rintro k' ⟨⟩
    rw [System.after_shared, hp'.conn_self]
    refine ⟨rfl, ?_⟩
    cases pick with
    | idle _ | opened => exact h.idle k hp'.idle
    | replaced _ => rfl

/-- The end of a transaction gives the connection back, with what is committed on it then. -/
theorem Inv.giveBack (h : Inv capacity reqs c) {t k : Nat} {req : Request} {phase' : Phase}
    {g : Connection → Option Str} (os : List Obs) (hreq : req ∈ reqs)
    (hmine : (c.shared.conn k).heldBy = some t)
    (hphase' : phase' = .closed ∨ phase' = .yielded none)
    (hcommitted : g (c.shared.conn k) = (lastConfigured k (os ++ c.history)).map tenantId)
    (hothers : ∀ k', k' ≠ k → lastConfigured k' (os ++ c.history) = lastConfigured k' c.history)
    (hbegun : phase' = .yielded none → ∃ t' req k, .configured t' req k ∈ os ++ c.history)
    (hpossible : Throughout (Obs.Possible capacity reqs) (os ++ c.history)) :
    Inv capacity reqs (System.after c t
      { shared := c.shared.change k fun conn =>
          { committed := g conn, pending := none, heldBy := none }
        thread := { req := req, phase := phase' }, obs := os }) := by
  have hconn := change_conn (lt_of_heldBy hmine) fun conn =>
    { committed := g conn, pending := none, heldBy := none }
  refine
    { capacity_eq := h.capacity_eq
      length_le := by simpa using h.length_le
      committed := fun k' => ?_
      idle := fun k' => ?_
      holding := forall_set_of_ne (h.holding_others (Or.inl hmine) fun k' hk' => ?_) ?_
      req_mem := forall_set h.req_mem hreq
      begun := forall_set (fun i s hs held hheld => ?_) fun held hheld => hbegun ?_
      possible := hpossible }
  · rw [System.after_shared, System.after_history, hconn k']
    split
    · next hk =>
      subst hk
      exact hcommitted
    · next hk => exact (h.committed k').trans (by rw [hothers k' hk])
  · rw [System.after_shared, hconn k']
    split
    · exact fun _ => rfl
    · exact h.idle k'
  · rw [System.after_shared, hconn k', if_neg hk']
  · intro k' hk'
    rcases hphase' with rfl | rfl
    · cases hk'
    · cases hk'
  · obtain ⟨t', req', k', hmem⟩ := h.begun i s hs held hheld
    exact ⟨t', req', k', List.mem_append_right _ hmem⟩
  · exact hphase'.resolve_left fun hclosed => nomatch hclosed.symm.trans hheld

/-- `get_db` commits its `set_config`. -/
theorem Inv.begin (h : Inv capacity reqs c) {t k : Nat} {req : Request}
    (hth : c.threads[t]? = some { req := req, phase := .configured k }) :
    Inv capacity reqs (System.after c t
      { shared := c.shared.commit k, thread := { req := req, phase := .yielded none }
        obs := [.configured t req k] }) := by
  obtain ⟨hmine, hpending⟩ := h.holding t _ hth k rfl
  have hreq : req ∈ reqs := h.req_mem t _ hth
  refine h.giveBack (g := Connection.tenant) [_] hreq hmine (Or.inr rfl) ?_ (fun k' hk' => ?_)
    (fun _ => ⟨t, req, k, List.mem_cons_self⟩) (Throughout.cons ⟨hreq, ?_⟩ h.possible)
  · simp [Connection.tenant, hpending, Session.pending, lastConfigured]
  · exact if_neg (Ne.symm hk')
  · exact (lt_of_heldBy hmine).trans_le h.length_le

/-- A transaction of the body has set nothing, so that its commit and its rollback are alike. -/
theorem Inv.tenant_eq (h : Inv capacity reqs c) {t k : Nat} {req : Request}
    (hth : c.threads[t]? = some { req := req, phase := .yielded (some k) }) :
    (c.shared.conn k).tenant = (lastConfigured k c.history).map tenantId := by
  rw [Connection.tenant, (h.holding t _ hth k rfl).2, ← h.committed k]
  rfl

theorem Inv.step {e : Event Choice Empty} {c' : PoolConfig} (h : Inv capacity reqs c)
    (he : poolSystem.fire c e = some c') : Inv capacity reqs c' := by
  cases e with
  | env e => exact nomatch e
  | run t ch =>
    obtain ⟨⟨req, phase⟩, m, hth, hm, rfl⟩ := poolSystem.fire_run he
    have hstep : SessionStep c.shared t req phase m := sessionStep_cases hm
    have hreq : req ∈ reqs := h.req_mem t _ hth
    have hbegun := h.begun t _ hth
    cases hstep with
    | configure hp' => exact h.configure hreq hp'
    | begin k => exact h.begin hth
    | checkOut hp' => exact h.checkOut hreq (hbegun none rfl) hp'
    | execute k =>
      have hconfigured := hbegun (some k) rfl
      exact
        { capacity_eq := h.capacity_eq
          length_le := h.length_le
          committed := h.committed
          idle := h.idle
          holding := forall_set h.holding (h.holding t _ hth)
          req_mem := forall_set h.req_mem hreq
          begun := forall_set
            (fun i s hs held hheld =>
              (h.begun i s hs held hheld).imp fun _ => Exists.imp fun _ => Exists.imp fun _ =>
                List.mem_cons_of_mem _)
            fun _ _ => hconfigured.imp fun _ => Exists.imp fun _ => Exists.imp fun _ =>
              List.mem_cons_of_mem _
          possible := Throughout.cons trivial h.possible }
    | commit k =>
      exact h.giveBack (g := Connection.tenant) [] hreq (h.holding t _ hth k rfl).1
        (Or.inr rfl) (h.tenant_eq hth) (fun _ _ => rfl) (fun _ => hbegun (some k) rfl) h.possible
    | @rollback _ phase' k hphase =>
      have hmine : (c.shared.conn k).heldBy = some t := by
        rcases hphase with ⟨-, rfl⟩ | ⟨-, rfl⟩
        · exact (h.holding t _ hth k rfl).1
        · exact (h.holding t _ hth k rfl).1
      refine h.giveBack (g := Connection.committed) [] hreq hmine ?_ (h.committed k)
        (fun _ _ => rfl) (fun hopen => ?_) h.possible
      · rcases hphase with ⟨rfl, -⟩ | ⟨hphase', -⟩
        · exact Or.inl rfl
        · exact hphase'
      · rcases hphase with ⟨rfl, -⟩ | ⟨-, rfl⟩
        · cases hopen
        · exact hbegun (some k) rfl
    | stay hphase' =>
      refine
        { capacity_eq := h.capacity_eq
          length_le := h.length_le
          committed := h.committed
          idle := h.idle
          holding := forall_set h.holding fun k' hk' => ?_
          req_mem := forall_set h.req_mem hreq
          begun := forall_set h.begun fun held hheld => ?_
          possible := h.possible }
      · -- it holds nothing, before or afterwards
        rcases hphase' with rfl | ⟨rfl, rfl⟩
        · cases hk'
        · cases hk'
      · rcases hphase' with rfl | ⟨rfl, rfl⟩
        · cases hheld
        · exact hbegun held hheld

/-! ## Isolated runs -/

@[simp] theorem isolated_statement {t : Nat} {req : Request} {k : Nat} {v : Option Str}
    {h : List Obs} : Isolated (.statement t req k v :: h) ↔ v = some (tenantId req) ∧ Isolated h := by
  rw [tenantId_eq]
  exact List.forall_mem_cons

@[simp] theorem isolated_configured {t : Nat} {req : Request} {k : Nat} {h : List Obs} :
    Isolated (.configured t req k :: h) ↔ Isolated h :=
  List.forall_mem_cons.trans (and_iff_right trivial)

@[simp] theorem isolated_checkedOut {t : Nat} {req : Request} {k : Nat} {h : List Obs} :
    Isolated (.checkedOut t req k :: h) ↔ Isolated h :=
  List.forall_mem_cons.trans (and_iff_right trivial)

@[simp] theorem isolated_handOut {pick : Pick} {h : List Obs} :
    Isolated (handOut pick ++ h) ↔ Isolated h := by
  cases pick with
  | idle _ | opened => exact Iff.rfl
  | replaced k => exact List.forall_mem_cons.trans (and_iff_right trivial)

@[simp] theorem ownCheckouts_statement {t : Nat} {req : Request} {k : Nat} {v : Option Str}
    {h : List Obs} : OwnCheckouts (.statement t req k v :: h) ↔ OwnCheckouts h :=
  throughout_cons.trans (and_iff_right trivial)

@[simp] theorem ownCheckouts_configured {t : Nat} {req : Request} {k : Nat} {h : List Obs} :
    OwnCheckouts (.configured t req k :: h) ↔ OwnCheckouts h :=
  throughout_cons.trans (and_iff_right trivial)

@[simp] theorem ownCheckouts_handOut {pick : Pick} {h : List Obs} :
    OwnCheckouts (handOut pick ++ h) ↔ OwnCheckouts h := by
  cases pick with
  | idle _ | opened => exact Iff.rfl
  | replaced k => exact throughout_cons.trans (and_iff_right trivial)

/-- A checkout is of an own connection when the setting on it is that of the request. -/
theorem ownCheckouts_checkedOut {t : Nat} {req : Request} {k : Nat} {h : List Obs} :
    OwnCheckouts (.checkedOut t req k :: h) ↔
      (lastConfigured k h).map tenantId = some (tenantId req) ∧ OwnCheckouts h := by
  refine throughout_cons.trans (and_congr_left fun _ => ?_)
  simp only [Obs.OwnCheckout, Option.map_eq_some_iff, tenantId_inj]

/-- What is committed on the connection of an open transaction is the tenant of its session. -/
def Session.Own (p : Pool) (s : Session) : Prop :=
  ∀ k, s.phase = .yielded (some k) → (p.conn k).committed = some (tenantId s.req)

/-- A run so far is isolated when its checkouts were of own connections, and in such a run every
open transaction has its own. -/
structure Agree (c : PoolConfig) : Prop where
  isolated_iff : Isolated c.history ↔ OwnCheckouts c.history
  own : OwnCheckouts c.history → ∀ (t : Nat) (s : Session), c.threads[t]? = some s → s.Own c.shared

theorem agree_entering (capacity : Nat) (reqs : List Request) :
    Agree (entering capacity reqs) := by
  refine ⟨iff_of_true (fun o ho => nomatch ho) (throughout_nil _), fun _ t s hs k hk => ?_⟩
  simp only [entering, Config.start_threads, List.getElem?_map, Option.map_eq_some_iff] at hs
  obtain ⟨r, -, rfl⟩ := hs
  cases hk

/-- The other sessions keep their own connections. -/
theorem Inv.own_others (h : Inv capacity reqs c) {t k : Nat} {p' : Pool}
    (hmine : (c.shared.conn k).heldBy = some t ∨ (c.shared.conn k).heldBy = none)
    (hconn : ∀ k', k' ≠ k → p'.conn k' = c.shared.conn k')
    (hown : ∀ (t : Nat) (s : Session), c.threads[t]? = some s → s.Own c.shared) (i : Nat)
    (s : Session) (hne : i ≠ t) (hs : c.threads[i]? = some s) : s.Own p' := by
  intro k' hk'
  rw [hconn k' (h.ne_of_holds hs (by rw [Session.holds, hk']) hne hmine)]
  exact hown i s hs k' hk'

theorem Inv.own_giveBack (h : Inv capacity reqs c) {t k : Nat} {f : Connection → Connection}
    {th : Session} (hmine : (c.shared.conn k).heldBy = some t)
    (hphase : th.phase = .closed ∨ th.phase = .yielded none)
    (hown : ∀ (t : Nat) (s : Session), c.threads[t]? = some s → s.Own c.shared) :
    ∀ (i : Nat) (s : Session), (c.threads.set t th)[i]? = some s →
      s.Own (c.shared.change k f) := by
  have hconn := change_conn (lt_of_heldBy hmine) f
  refine forall_set_of_ne (h.own_others (Or.inl hmine) (fun k' hk' => ?_) hown) fun k' hk' => ?_
  · rw [hconn k', if_neg hk']
  · rcases hphase with hclosed | hopen
    · cases hclosed.symm.trans hk'
    · cases hopen.symm.trans hk'

theorem Agree.step {e : Event Choice Empty} {c' : PoolConfig} (hinv : Inv capacity reqs c)
    (h : Agree c) (he : poolSystem.fire c e = some c') : Agree c' := by
  cases e with
  | env e => exact nomatch e
  | run t ch =>
    obtain ⟨⟨req, phase⟩, m, hth, hm, rfl⟩ := poolSystem.fire_run he
    have hstep : SessionStep c.shared t req phase m := sessionStep_cases hm
    cases hstep with
    | @configure pick k p' hp' =>
      refine ⟨?_, fun hown => ?_⟩
      · rw [System.after_history, isolated_handOut, ownCheckouts_handOut]
        exact h.isolated_iff
      · rw [System.after_history, ownCheckouts_handOut] at hown
        -- a connection in use was not idle, so its setting has not been overwritten
        refine forall_set_of_ne (hinv.own_others (Or.inr hp'.idle) (fun k' hk' => ?_) (h.own hown))
          fun k' hk' => nomatch hk'
        rw [System.after_shared, Pool.setConfig, change_conn hp'.lt, if_neg hk', hp'.conn_ne hk']
    | begin k =>
      refine ⟨by simpa using h.isolated_iff, fun hown => ?_⟩
      exact hinv.own_giveBack (hinv.holding t _ hth k rfl).1 (Or.inr rfl)
        (h.own (ownCheckouts_configured.mp hown))
    | @checkOut pick k p' hp' =>
      have hcommitted : (p'.conn k).committed = (lastConfigured k (handOut pick ++ c.history)).map
          tenantId := hp'.committed hinv.committed k
      have htenant : (p'.conn k).tenant = (p'.conn k).committed := by
        rw [hp'.conn_self]
        cases pick with
        | idle _ | opened => simp [Connection.tenant, Pick.given, hinv.idle k hp'.idle]
        | replaced _ => rfl
      refine ⟨?_, fun hown => ?_⟩
      · rw [System.after_history, List.cons_append, List.cons_append, isolated_statement,
          isolated_checkedOut, isolated_handOut, h.isolated_iff, ownCheckouts_statement,
          ownCheckouts_checkedOut, ownCheckouts_handOut, htenant, hcommitted]
      · rw [System.after_history, List.cons_append, List.cons_append, ownCheckouts_statement,
          ownCheckouts_checkedOut, ownCheckouts_handOut] at hown
        refine forall_set_of_ne
          (hinv.own_others (Or.inr hp'.idle) (fun k' => hp'.conn_ne) (h.own hown.2)) ?_
        rintro k' ⟨⟩
        exact hcommitted.trans hown.1
    | execute k =>
      refine ⟨?_, fun hown => ?_⟩
      · show Isolated (.statement t req k (c.shared.conn k).tenant :: c.history) ↔ _
        rw [isolated_statement, h.isolated_iff]
        refine Iff.trans ?_ ownCheckouts_statement.symm
        refine and_iff_right_of_imp fun hown => ?_
        rw [hinv.tenant_eq hth, ← hinv.committed k]
        exact h.own hown t _ hth k rfl
      · have hold := h.own (ownCheckouts_statement.mp hown)
        exact forall_set hold (hold t _ hth)
    | commit k =>
      exact ⟨h.isolated_iff, fun hown =>
        hinv.own_giveBack (hinv.holding t _ hth k rfl).1 (Or.inr rfl) (h.own hown)⟩
    | @rollback _ phase' k hphase =>
      refine ⟨h.isolated_iff, fun hown => ?_⟩
      rcases hphase with ⟨hphase', rfl⟩ | ⟨hphase', rfl⟩
      · exact hinv.own_giveBack (hinv.holding t _ hth k rfl).1 (Or.inl hphase') (h.own hown)
      · exact hinv.own_giveBack (hinv.holding t _ hth k rfl).1 hphase' (h.own hown)
    | stay hphase' =>
      refine ⟨h.isolated_iff, fun hown => forall_set (h.own hown) fun k' hk' => ?_⟩
      rcases hphase' with rfl | ⟨rfl, rfl⟩
      · cases hk'
      · cases hk'

/-- What holds after every run. -/
theorem reached {es : List (Event Choice Empty)}
    (h : poolSystem.exec (entering capacity reqs) es = some c) : Inv capacity reqs c ∧ Agree c :=
  poolSystem.exec_invariant (I := fun c => Inv capacity reqs c ∧ Agree c)
    (fun _ _ _ hc he => ⟨hc.1.step he, hc.2.step hc.1 he⟩) es
    ⟨inv_entering capacity reqs, agree_entering capacity reqs⟩ h

/-! ## Isolated pools -/

/-- Where nothing is executed behind `get_db`. -/
def NoTenant (capacity : Nat) (reqs : List Request) : Prop := capacity = 0 ∨ reqs = []

/-- Where there is nothing to mix up: one connection and one workspace. -/
def OneTenant (capacity : Nat) (reqs : List Request) : Prop :=
  NoTenant capacity reqs ∨
    capacity = 1 ∧ ∀ r ∈ reqs, ∀ r' ∈ reqs, extractWorkspaceId r = extractWorkspaceId r'

theorem ownCheckouts_of_noTenant (h : NoTenant capacity reqs) {hist : List Obs}
    (hist_possible : Throughout (Obs.Possible capacity reqs) hist) : OwnCheckouts hist := by
  rintro later (_ | _ | ⟨t, req, c⟩ | _) earlier heq
  · trivial
  · trivial
  · obtain ⟨hreq, hc, -⟩ := hist_possible later _ earlier heq
    rcases h with rfl | rfl
    · exact absurd hc (Nat.not_lt_zero c)
    · exact absurd hreq List.not_mem_nil
  · trivial

theorem ownCheckouts_of_oneTenant (h : OneTenant capacity reqs) {hist : List Obs}
    (hist_possible : Throughout (Obs.Possible capacity reqs) hist) (hist_kept : Kept hist) :
    OwnCheckouts hist := by
  rcases h with hnone | ⟨rfl, hsame⟩
  · exact ownCheckouts_of_noTenant hnone hist_possible
  rintro later (_ | _ | ⟨t, req, c⟩ | _) earlier heq
  · trivial
  · trivial
  · obtain ⟨hreq, hc, t', req₀, c', hmem₀⟩ := hist_possible later _ earlier heq
    have hconfigured : ∀ {t : Nat} {req : Request} {k : Nat}, .configured t req k ∈ earlier →
        req ∈ reqs ∧ k < 1 := by
      intro t req k hmem
      obtain ⟨l₁, l₂, hsplit⟩ := List.append_of_mem hmem
      exact hist_possible (later ++ .checkedOut _ _ c :: l₁) _ l₂ (by
        rw [heq, hsplit, List.append_assoc, List.cons_append])
    -- the only connection is number 0
    obtain rfl : c' = c := by
      have := (hconfigured hmem₀).2
      omega
    obtain ⟨req', hlast⟩ := lastConfigured_of_mem
      (fun k hk => hist_kept k (heq ▸ List.mem_append_right _ (List.mem_cons_of_mem _ hk))) hmem₀
    obtain ⟨t'', hmem⟩ := lastConfigured_mem hlast
    exact ⟨req', hlast, hsame req' (hconfigured hmem).1 req hreq⟩
  · trivial

/-- The body's first statement goes to a connection that has just been opened again. -/
theorem reopened (n : Nat) (r : Request) (reqs : List Request) :
    ∃ c, poolSystem.exec (entering (n + 1) (r :: reqs))
        [.run 0 (.execute .opened), .run 0 .commit, .run 0 (.execute (.replaced 0))] = some c ∧
      .statement 0 r 0 none ∈ c.history :=
  ⟨_, rfl, List.mem_cons_self⟩

theorem noTenant_of_isolated
    (h : ∀ es c, poolSystem.exec (entering capacity reqs) es = some c → Isolated c.history) :
    NoTenant capacity reqs := by
  match capacity, reqs with
  | 0, _ => exact Or.inl rfl
  | _, [] => exact Or.inr rfl
  | n + 1, r :: reqs =>
    obtain ⟨c, hc, hmem⟩ := reopened n r reqs
    have hseen := h _ c hc _ hmem
    cases hseen

/-- The body's first statement goes to a second connection. -/
theorem second_connection (n : Nat) (r : Request) (reqs : List Request) :
    ∃ c, poolSystem.exec (entering (n + 2) (r :: reqs))
        [.run 0 (.execute .opened), .run 0 .commit, .run 0 (.execute .opened)] = some c ∧
      c.history = [.statement 0 r 1 none, .checkedOut 0 r 1, .configured 0 r 0] :=
  ⟨_, rfl, rfl⟩

/-- Request `i` has left `get_db` when request `j` passes through, on the same connection. -/
def retag (i j : Nat) : List (Event Choice Empty) :=
  [.run i (.execute .opened), .run i .commit, .run j (.execute (.idle 0)), .run j .commit,
    .run i (.execute (.idle 0))]

theorem retag_run {i j : Nat} {r r' : Request} (hi : reqs[i]? = some r) (hj : reqs[j]? = some r')
    (hne : i ≠ j) : ∃ c, poolSystem.exec (entering 1 reqs) (retag i j) = some c ∧
      c.history = [.statement i r 0 (some (tenantId r')), .checkedOut i r 0, .configured j r' 0,
        .configured i r 0] := by
  have hthread : ∀ {k : Nat} {req : Request}, reqs[k]? = some req →
      (entering 1 reqs).threads[k]? = some { req := req, phase := .entering } := by
    intro k req hk
    simp [entering, hk]
  have hlt := (List.getElem?_eq_some_iff.mp (hthread hi)).1
  have hlt' := (List.getElem?_eq_some_iff.mp (hthread hj)).1
  unfold retag
  -- `i` goes through `get_db`, then `j` does
  rw [poolSystem.exec_run (hthread hi) rfl,
    poolSystem.exec_run (t := i) (List.getElem?_set_self hlt) rfl]
  rw [poolSystem.exec_run (t := j) ((List.getElem?_set_ne hne).trans
      ((List.getElem?_set_ne hne).trans (hthread hj))) rfl,
    poolSystem.exec_run (t := j) (List.getElem?_set_self (by simpa using hlt')) rfl]
  rw [poolSystem.exec_run (t := i) ((List.getElem?_set_ne hne.symm).trans
    ((List.getElem?_set_ne hne.symm).trans (List.getElem?_set_self (by simpa using hlt)))) rfl]
  exact ⟨_, rfl, rfl⟩

theorem oneTenant_of_isolated
    (h : ∀ es c, poolSystem.exec (entering capacity reqs) es = some c → Kept c.history →
      Isolated c.history) : OneTenant capacity reqs := by
  match capacity, reqs with
  | 0, _ => exact Or.inl (Or.inl rfl)
  | _, [] => exact Or.inl (Or.inr rfl)
  | n + 2, r :: reqs =>
    obtain ⟨c, hc, hhist⟩ := second_connection n r reqs
    have hseen := h _ c hc (by simp [hhist, Kept])
    rw [hhist, isolated_statement] at hseen
    cases hseen.1
  | 1, r₀ :: reqs =>
    refine Or.inr ⟨rfl, fun r hr r' hr' => ?_⟩
    obtain ⟨i, hi⟩ := List.mem_iff_getElem?.mp hr
    obtain ⟨j, hj⟩ := List.mem_iff_getElem?.mp hr'
    by_cases hij : i = j
    · subst hij
      rw [hi] at hj
      cases hj
      rfl
    · obtain ⟨c, hc, hhist⟩ := retag_run hi hj hij
      have hseen := h _ c hc (by simp [hhist, Kept])
      rw [hhist, isolated_statement] at hseen
      exact (tenantId_inj.mp (Option.some.inj hseen.1)).symm

/--
**Tenant isolation** holds in every run only where nothing is executed behind `get_db`; as long as
no connection is opened again, it holds in every run of a pool with a single connection that serves
a single workspace, and of no other pool and requests.

A single run is isolated exactly when every connection that a session checks out behind `get_db`
was last configured, since it was opened, by a request for the same workspace.
-/
theorem tenant_isolated_iff (capacity : Nat) (reqs : List Request) :
    ((∀ es c, poolSystem.exec (entering capacity reqs) es = some c → Isolated c.history) ↔
        NoTenant capacity reqs) ∧
      ((∀ es c, poolSystem.exec (entering capacity reqs) es = some c → Kept c.history →
          Isolated c.history) ↔ OneTenant capacity reqs) ∧
      ∀ es c, poolSystem.exec (entering capacity reqs) es = some c →
        (Isolated c.history ↔ OwnCheckouts c.history) := by
  refine ⟨⟨noTenant_of_isolated, fun hnone es c hc => ?_⟩,
    ⟨oneTenant_of_isolated, fun hone es c hc hkept => ?_⟩, fun es c hc => ?_⟩
  · obtain ⟨hinv, hagree⟩ := reached hc
    exact hagree.isolated_iff.mpr (ownCheckouts_of_noTenant hnone hinv.possible)
  · obtain ⟨hinv, hagree⟩ := reached hc
    exact hagree.isolated_iff.mpr (ownCheckouts_of_oneTenant hone hinv.possible hkept)
  · exact (reached hc).2.isolated_iff

/-! ## Two workspaces -/

def listAssets (workspaceId : Int) : Request :=
  { method := "GET".toList, path := "/workspaces/".toList ++ str workspaceId ++ "/assets".toList
    headers := [], query := [], client := none }

/-- A request for workspace 1 reads under workspace 2. -/
def crossed : List (Event Choice Empty) := retag 0 1

theorem crossed_run : ∃ c, poolSystem.exec (entering 5 [listAssets 1, listAssets 2]) crossed
    = some c ∧ .statement 0 (listAssets 1) 0 (some (str 2)) ∈ c.history := by
  refine ⟨_, rfl, ?_⟩
  decide +kernel

theorem tenant_isolated_iff_crossed : ∃ c,
    poolSystem.exec (entering 5 [listAssets 1, listAssets 2]) crossed = some c ∧
      (Isolated c.history ↔ OwnCheckouts c.history) := by
  obtain ⟨c, hc, -⟩ := crossed_run
  exact ⟨c, hc, (tenant_isolated_iff 5 [listAssets 1, listAssets 2]).2.2 crossed c hc⟩

theorem reads_under_other_tenant :
    ¬∀ capacity reqs es c, poolSystem.exec (entering capacity reqs) es = some c →
      Isolated c.history := by
  intro h
  obtain ⟨c, hc, hmem⟩ := crossed_run
  have hseen := h 5 _ crossed c hc _ hmem
  have hmine : extractWorkspaceId (listAssets 1) = some 1 := by decide +kernel
  simp only [Obs.Isolated, hmine, Option.some.injEq, str_inj] at hseen
  omega

end EnterpriseAssistant.Infra.TenantPool
