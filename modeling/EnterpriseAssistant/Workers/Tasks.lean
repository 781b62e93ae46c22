import EnterpriseAssistant.Kb.Machine

/-!
# Worker tasks

`ingest_asset` of `app/workers/tasks/kb_ingest.py`, one after the other in one process.  `get_state`
makes one engine for the process and `run_async` a loop for every task, and a connection belongs to
the loop under which it was opened.

* `WorkerInv.step` — whose the connections are
* `own_loop_iff` — which sequences of tasks keep to their own loops, and which runs do
-/

namespace EnterpriseAssistant.Workers

open Py Core Infra Kb Kb.Machine Interleaving System

structure Connection where
  /-- the loop under which it was opened -/
  loop : Nat
  /-- the execution that has opened it -/
  openedBy : Nat
deriving DecidableEq, Repr

/-- What `WorkerState` keeps from task to task: the idle connections in the pool of its engine. -/
structure WorkerState where
  idle : List Connection

structure Process where
  db : Database
  /-- `_state` -/
  state : Option WorkerState
  /-- the running loop -/
  running : Option Nat
  /-- how many loops `asyncio.run` has made -/
  loops : Nat

/-- `get_state` -/
def getState (p : Process) : Process :=
  { p with state := some (p.state.getD { idle := [] }) }

/-- `run_async`: the loop in which the coroutine runs. -/
def runAsync (p : Process) : Nat × Process :=
  match p.running with
  | some loop => (loop, p)
  | none => (p.loops, { p with running := some p.loops, loops := p.loops + 1 })

def Process.idle (p : Process) : List Connection := (p.state.getD { idle := [] }).idle

/-- One execution of `ingest_asset`. -/
inductive Execution where
  | waiting (assetId : Int)
  /-- `run_ingestion` runs in `loop`, with the connection of its open transaction -/
  | running (loop : Nat) (task : Task) (held : Option Connection)
  | finished

/-- Where a session gets its connection from. -/
inductive Pick where
  /-- an idle one, by number -/
  | idle (i : Nat)
  /-- an idle one that is past `pool_recycle`, and is opened again -/
  | recycled (i : Nat)
  | opened
deriving DecidableEq, Repr

inductive Choice where
  | start
  /-- the next thing that `run_ingestion` does; `pick` where a session checks out a connection -/
  | go (ch : Machine.Choice) (pick : Option Pick)
  | finish

inductive Obs where
  | started (t loop : Nat)
  /-- a session of execution `t` is given an idle connection -/
  | handedOut (t : Nat) (conn : Connection)
  /-- execution `t`, which runs in `loop`, sends a statement -/
  | used (t loop : Nat) (conn : Connection)
deriving DecidableEq, Repr

/-! ## The steps -/

/-- The connection, and what is idle then. -/
def checkout (idle : List Connection) (t loop : Nat) : Pick → Option (Connection × List Connection)
  | .idle i => idle[i]?.map fun conn => (conn, idle.eraseIdx i)
  | .recycled i =>
    if i < idle.length then some ({ loop := loop, openedBy := t }, idle.eraseIdx i) else none
  | .opened => if idle = [] then some ({ loop := loop, openedBy := t }, []) else none

/-- Behind the step a select has begun a transaction that is still open. -/
def inTransaction : Task → Bool
  | .ingestStart _ | .ingestFinish _ _ _ | .ingestFail _ _ _ => true
  | _ => false

/-- The session is about to close, and has no statement to send. -/
def atExit : Task → Bool
  | .ingestLeave _ _ => true
  | _ => false

/-- `sniff` raises, or connecting does. -/
def raisesFirst : Machine.Choice → Bool
  | .raises _ => true
  | .go _ => false

def handOut (t : Nat) (conn : Connection) : Pick → List Obs
  | .idle _ => [.handedOut t conn]
  | .recycled _ | .opened => []

/-- The connection of the step, and what is idle meanwhile. -/
def connect (idle : List Connection) (t loop : Nat) (task : Task) (held : Option Connection)
    (ch : Machine.Choice) (pick : Option Pick) :
    Option (Option Connection × List Connection × List Obs) :=
  match held, pick with
  | some conn, none => some (some conn, idle, [.used t loop conn])
  | some _, some _ => none
  | none, none => if atExit task || raisesFirst ch then some (none, idle, []) else none
  | none, some pick =>
    if atExit task then none
    else
      (checkout idle t loop pick).map fun (conn, idle) =>
        (some conn, idle, .used t loop conn :: handOut t conn pick)

abbrev WorkerMove := Move Process Execution Obs

/-- `run_ingestion` has moved; a transaction that is over gives its connection back to the pool. -/
def moved (p : Process) (loop : Nat) (conn : Option Connection) (idle : List Connection)
    (obs : List Obs) (m : KbMove) : WorkerMove :=
  if inTransaction m.thread then
    { shared := { p with db := m.shared, state := some { idle := idle } }
      thread := .running loop m.thread conn, obs := obs }
  else
    { shared := { p with db := m.shared, state := some { idle := idle ++ conn.toList } }
      thread := .running loop m.thread none, obs := obs }

section Steps

variable (guessType : Str → Option Str) (errorText : Exn → Str)

def goStep (p : Process) (t loop : Nat) (task : Task) (held : Option Connection)
    (ch : Machine.Choice) (pick : Option Pick) : Option WorkerMove :=
  match connect p.idle t loop task held ch pick,
    (kbSystem guessType errorText).step p.db t task ch with
  | some (conn, idle, obs), some m => some (moved p loop conn idle obs m)
  | _, _ => none

/-- The process executes one task at a time. -/
def startStep (p : Process) (t : Nat) (assetId : Int) : Option WorkerMove :=
  if p.running = none then
    let (loop, p) := runAsync (getState p)
    some { shared := p, thread := .running loop (.ingest assetId) none, obs := [.started t loop] }
  else none

/-- `asyncio.run` closes its loop. -/
def finishStep (p : Process) : Task → Option WorkerMove
  | .ingested _ | .ended =>
    some { shared := { p with running := none }, thread := .finished, obs := [] }
  | _ => none

def workerSystem : System Process Execution Choice Empty Obs where
  step p t x ch :=
    match x, ch with
    | .waiting assetId, .start => startStep p t assetId
    | .running loop task held, .go ch pick => goStep guessType errorText p t loop task held ch pick
    | .running _ task _, .finish => finishStep p task
    | _, _ => none
  env _ e := nomatch e

end Steps

abbrev WorkerConfig := Config Process Execution Obs

/-- A process that has just started, and the tasks that it is going to execute. -/
def fresh (db : Database) (tasks : List Int) : WorkerConfig :=
  .start { db := db, state := none, running := none, loops := 0 } (tasks.map .waiting)

/-! ## What a step does -/

/-- How a step gets its connection. -/
inductive Connected (idle : List Connection) (t loop : Nat) :
    Option Connection → Option Connection → List Connection → List Obs → Prop where
  | without : Connected idle t loop none none idle []
  | held (conn : Connection) :
      Connected idle t loop (some conn) (some conn) idle [.used t loop conn]
  | handedOut {conn : Connection} {idle' : List Connection} (hmem : conn ∈ idle)
      (hrest : ∀ x ∈ idle', x ∈ idle) :
      Connected idle t loop none (some conn) idle' [.used t loop conn, .handedOut t conn]
  | opened {idle' : List Connection} (hrest : ∀ x ∈ idle', x ∈ idle) :
      Connected idle t loop none (some { loop := loop, openedBy := t }) idle'
        [.used t loop { loop := loop, openedBy := t }]

theorem connect_cases {idle : List Connection} {t loop : Nat} {task : Task}
    {held : Option Connection} {ch : Machine.Choice} {pick : Option Pick}
    {conn : Option Connection} {idle' : List Connection} {obs : List Obs}
    (h : connect idle t loop task held ch pick = some (conn, idle', obs)) :
    Connected idle t loop held conn idle' obs := by
  unfold connect at h
  split at h
  · cases h
    exact .held _
  · cases h
  · split at h
    · cases h
      exact .without
    · cases h
  · next pick =>
    split at h
    · cases h
    · obtain ⟨⟨conn', idle''⟩, hout, heq⟩ := Option.map_eq_some_iff.mp h
      cases heq
      cases pick with
      | idle i =>
        obtain ⟨x, hx, heq⟩ := Option.map_eq_some_iff.mp hout
        cases heq
        exact .handedOut (List.mem_of_getElem? hx) fun y hy => List.mem_of_mem_eraseIdx hy
      | recycled i =>
        simp only [checkout] at hout
        split at hout
        · cases hout
          exact .opened fun y hy => List.mem_of_mem_eraseIdx hy
        · cases hout
      | opened =>
        simp only [checkout] at hout
        split at hout
        · cases hout
          exact .opened fun y hy => nomatch hy
        · cases hout

/-- A step of execution `t`: what is idle and what is running then. -/
inductive WorkerStep (p : Process) (t : Nat) :
    Execution → Process → Execution → List Obs → Prop where
  | start {assetId : Int} (hidle : p.running = none) :
      WorkerStep p t (.waiting assetId)
        { db := p.db, state := some { idle := p.idle }, running := some p.loops
          loops := p.loops + 1 }
        (.running p.loops (.ingest assetId) none) [.started t p.loops]
  | go {loop : Nat} {task task' : Task} {held conn held' : Option Connection} {p' : Process}
      {idle' : List Connection} {obs : List Obs}
      (hconnected : Connected p.idle t loop held conn idle' obs)
      (hloops : p'.loops = p.loops)
      (hheld : ∀ x, held' = some x → conn = some x)
      (hidle : ∀ x ∈ p'.idle, x ∈ idle' ∨ conn = some x) :
      WorkerStep p t (.running loop task held) p' (.running loop task' held') obs
  | finish {loop : Nat} {task : Task} {held : Option Connection} :
      WorkerStep p t (.running loop task held) { p with running := none } .finished []

theorem step_cases {guessType : Str → Option Str} {errorText : Exn → Str} {p : Process} {t : Nat}
    {x : Execution} {ch : Choice} {m : WorkerMove}
    (h : (workerSystem guessType errorText).step p t x ch = some m) :
    WorkerStep p t x m.shared m.thread m.obs := by
  simp only [workerSystem] at h
  split at h
  · simp only [startStep] at h
    split at h
    · next hnone =>
      cases h
      have hrun : runAsync (getState p) = (p.loops, { getState p with
          running := some p.loops, loops := p.loops + 1 }) := by
        simp [runAsync, getState, hnone]
      rw [hrun]
      exact .start hnone
    · cases h
  · unfold goStep at h
    split at h
    · next conn idle obs m' hconnect hstep =>
      cases h
      unfold moved
      split
      · exact .go (connect_cases hconnect) rfl (fun _ hx => hx) fun x hx => Or.inl hx
      · refine .go (connect_cases hconnect) rfl (fun _ hx => nomatch hx) fun x hx => ?_
        rcases List.mem_append.mp hx with hx | hx
        · exact Or.inl hx
        · exact Or.inr (Option.mem_toList.mp hx)
    · cases h
  · unfold finishStep at h
    split at h
    · cases h
      exact .finish
    · cases h
      exact .finish
    · cases h
  · cases h

/-! ## Whose the connections are -/

/-- The execution that has opened the connection ran in the loop of the connection. -/
def Connection.Known (conn : Connection) (h : List Obs) : Prop :=
  .started conn.openedBy conn.loop ∈ h

/-- Execution `t` has opened the connection, or has been given it idle. -/
def GivenTo (t : Nat) (conn : Connection) (h : List Obs) : Prop :=
  conn.openedBy = t ∨ .handedOut t conn ∈ h

structure HistoryInv (h : List Obs) : Prop where
  /-- an execution has one loop -/
  loop_unique : ∀ t loop loop', .started t loop ∈ h → .started t loop' ∈ h → loop = loop'
  /-- a loop has one execution -/
  execution_unique : ∀ t t' loop, .started t loop ∈ h → .started t' loop ∈ h → t = t'
  used : ∀ t loop conn, .used t loop conn ∈ h →
    .started t loop ∈ h ∧ conn.Known h ∧ GivenTo t conn h
  handedOut : ∀ t conn, .handedOut t conn ∈ h → ∃ loop, .used t loop conn ∈ h

def Execution.Fits (t : Nat) (h : List Obs) : Execution → Prop
  | .waiting _ => ∀ loop, .started t loop ∉ h
  | .running loop _ held =>
    .started t loop ∈ h ∧ ∀ conn, held = some conn → conn.Known h ∧ GivenTo t conn h
  | .finished => True

structure WorkerInv (tasks : List Int) (c : WorkerConfig) : Prop where
  length : c.threads.length = tasks.length
  history : HistoryInv c.history
  started : ∀ t loop, .started t loop ∈ c.history → loop < c.shared.loops ∧ t < tasks.length
  idle : ∀ conn ∈ c.shared.idle, conn.Known c.history
  fits : ∀ (t : Nat) (x : Execution), c.threads[t]? = some x → x.Fits t c.history

theorem historyInv_nil : HistoryInv [] where
  loop_unique _ _ _ h := nomatch h
  execution_unique _ _ _ h := nomatch h
  used _ _ _ h := nomatch h
  handedOut _ _ h := nomatch h

theorem workerInv_fresh (db : Database) (tasks : List Int) : WorkerInv tasks (fresh db tasks) where
  length := List.length_map _
  history := historyInv_nil
  started _ _ h := nomatch h
  idle _ h := nomatch h
  fits t x hx := by
    obtain ⟨assetId, -, rfl⟩ := List.mem_map.mp (List.mem_of_getElem? hx)
    exact fun loop h => nomatch h

theorem Connection.Known.append {conn : Connection} {h : List Obs} (hknown : conn.Known h)
    (os : List Obs) : conn.Known (os ++ h) :=
  List.mem_append_right os hknown

theorem GivenTo.append {t : Nat} {conn : Connection} {h : List Obs} (hgiven : GivenTo t conn h)
    (os : List Obs) : GivenTo t conn (os ++ h) :=
  hgiven.imp_right (List.mem_append_right os)

/-- What is observed of one execution leaves the others as they are. -/
theorem Execution.Fits.append {t : Nat} {h : List Obs} {x : Execution} (hfits : x.Fits t h)
    {os : List Obs} (hos : ∀ loop, .started t loop ∉ os) : x.Fits t (os ++ h) := by
  cases x with
  | waiting assetId =>
    intro loop hmem
    rcases List.mem_append.mp hmem with hnew | hold
    · exact hos loop hnew
    · exact hfits loop hold
  | running loop task held =>
    refine ⟨List.mem_append_right os hfits.1, fun conn hconn => ?_⟩
    obtain ⟨hknown, hgiven⟩ := hfits.2 conn hconn
    exact ⟨hknown.append os, hgiven.append os⟩
  | finished => trivial

/-- The first observation of an execution: its loop is a new one. -/
theorem HistoryInv.started {h : List Obs} (hinv : HistoryInv h) {t loop : Nat}
    (ht : ∀ loop', .started t loop' ∉ h) (hloop : ∀ t', .started t' loop ∉ h) :
    HistoryInv (.started t loop :: h) where
  loop_unique t' l l' hl hl' := by
    rcases List.mem_cons.mp hl with heq | hl
    · rcases List.mem_cons.mp hl' with heq' | hl'
      · cases heq
        cases heq'
        rfl
      · cases heq
        exact absurd hl' (ht l')
    · rcases List.mem_cons.mp hl' with heq' | hl'
      · cases heq'
        exact absurd hl (ht l)
      · exact hinv.loop_unique t' l l' hl hl'
  execution_unique t₁ t₂ l hl hl' := by
    rcases List.mem_cons.mp hl with heq | hl
    · rcases List.mem_cons.mp hl' with heq' | hl'
      · cases heq
        cases heq'
        rfl
      · cases heq
        exact absurd hl' (hloop t₂)
    · rcases List.mem_cons.mp hl' with heq' | hl'
      · cases heq'
        exact absurd hl (hloop t₁)
      · exact hinv.execution_unique t₁ t₂ l hl hl'
  used t' l conn hused := by
    rcases List.mem_cons.mp hused with heq | hused
    · cases heq
    · obtain ⟨hstarted, hknown, hgiven⟩ := hinv.used t' l conn hused
      exact ⟨List.mem_cons_of_mem _ hstarted, hknown.append [_], hgiven.append [_]⟩
  handedOut t' conn hout := by
    rcases List.mem_cons.mp hout with heq | hout
    · cases heq
    · obtain ⟨l, hused⟩ := hinv.handedOut t' conn hout
      exact ⟨l, List.mem_cons_of_mem _ hused⟩

/-- A statement of execution `t` on a connection that it has opened or is given now. -/
theorem HistoryInv.used_cons {h : List Obs} (hinv : HistoryInv h) {t loop : Nat}
    {conn : Connection} (out : List Obs) (hstarted : .started t loop ∈ h) (hknown : conn.Known h)
    (hout : ∀ o ∈ out, o = .handedOut t conn) (hgiven : GivenTo t conn (out ++ h)) :
    HistoryInv (.used t loop conn :: (out ++ h)) := by
  have hnew : ∀ {t' l}, .started t' l ∈ .used t loop conn :: (out ++ h) → .started t' l ∈ h := by
    intro t' l hmem
    rcases List.mem_cons.mp hmem with heq | hmem
    · cases heq
    · rcases List.mem_append.mp hmem with hmem | hold
      · cases hout _ hmem
      · exact hold
  refine ⟨?_, ?_, ?_, ?_⟩
  · exact fun t' l l' hl hl' => hinv.loop_unique t' l l' (hnew hl) (hnew hl')
  · exact fun t₁ t₂ l hl hl' => hinv.execution_unique t₁ t₂ l (hnew hl) (hnew hl')
  · intro t' l x hused
    have hold : .used t' l x ∈ h → .started t' l ∈ h ∧ x.Known h ∧ GivenTo t' x h :=
      hinv.used t' l x
    rcases List.mem_cons.mp hused with heq | hmem
    · cases heq
      refine ⟨List.mem_cons_of_mem _ (List.mem_append_right _ hstarted), ?_, hgiven.append [_]⟩
      exact (hknown.append out).append [_]
    · rcases List.mem_append.mp hmem with hmem | hmem
      · cases hout _ hmem
      · obtain ⟨h₁, h₂, h₃⟩ := hold hmem
        refine ⟨List.mem_cons_of_mem _ (List.mem_append_right _ h₁), ?_, ?_⟩
        · exact (h₂.append out).append [_]
        · exact (h₃.append out).append [_]
  · intro t' x hmem
    rcases List.mem_cons.mp hmem with heq | hmem
    · cases heq
    · rcases List.mem_append.mp hmem with hmem | hmem
      · cases hout _ hmem
        exact ⟨loop, List.mem_cons_self⟩
      · obtain ⟨l, hused⟩ := hinv.handedOut t' x hmem
        exact ⟨l, List.mem_cons_of_mem _ (List.mem_append_right _ hused)⟩

/-- The connection of a step is known, and is of the execution. -/
theorem Connected.spec {idle idle' : List Connection} {t loop : Nat}
    {held conn : Option Connection} {obs h : List Obs}
    (hconnected : Connected idle t loop held conn idle' obs) (hinv : HistoryInv h)
    (hstarted : .started t loop ∈ h)
    (hheld : ∀ x, held = some x → x.Known h ∧ GivenTo t x h) (hidle : ∀ x ∈ idle, x.Known h) :
    HistoryInv (obs ++ h) ∧ (∀ x, conn = some x → x.Known h ∧ GivenTo t x (obs ++ h)) ∧
      (∀ x ∈ idle', x.Known h) ∧ ∀ t' l, .started t' l ∉ obs := by
  cases hconnected with
  | without => exact ⟨hinv, fun x hx => (nomatch hx), hidle, fun _ _ hmem => nomatch hmem⟩
  | held y =>
    obtain ⟨hknown, hgiven⟩ := hheld y rfl
    refine ⟨hinv.used_cons [] hstarted hknown (fun _ ho => nomatch ho) hgiven, ?_, hidle,
      ?_⟩
    · intro x hx
      cases hx
      exact ⟨hknown, hgiven.append _⟩
    · simp
  | @handedOut y _ hmem hrest =>
    have hgiven : GivenTo t y ([.handedOut t y] ++ h) := Or.inr List.mem_cons_self
    refine ⟨hinv.used_cons [.handedOut t y] hstarted (hidle y hmem) ?_ hgiven, ?_, ?_, ?_⟩
    · exact fun o ho => List.mem_singleton.mp ho
    · intro x hx
      cases hx
      exact ⟨hidle _ hmem, hgiven.append [_]⟩
    · exact fun x hx => hidle x (hrest x hx)
    · simp
  | opened hrest =>
    have hgiven : GivenTo t { loop := loop, openedBy := t } h := Or.inl rfl
    refine ⟨hinv.used_cons [] hstarted hstarted (fun _ ho => nomatch ho) hgiven, ?_, ?_,
      ?_⟩
    · intro x hx
      cases hx
      exact ⟨hstarted, hgiven.append _⟩
    · exact fun x hx => hidle x (hrest x hx)
    · simp

/-- Every step keeps track of whose the connections are. -/
theorem WorkerInv.step {guessType : Str → Option Str} {errorText : Exn → Str} {tasks : List Int}
    {c : WorkerConfig} {e : Event Choice Empty} {c' : WorkerConfig} (hinv : WorkerInv tasks c)
    (he : (workerSystem guessType errorText).fire c e = some c') : WorkerInv tasks c' := by
  cases e with
  | env e => cases e
  | run t ch =>
    obtain ⟨x, m, hx, hm, rfl⟩ := fire_run _ he
    have hstep := step_cases hm
    have hlt : t < tasks.length := by
      rw [← hinv.length]
      exact (List.getElem?_eq_some_iff.mp hx).1
    have hfits := hinv.fits t x hx
    obtain ⟨p', x', obs⟩ := m
    have hlength : (c.threads.set t x').length = tasks.length := by
      rw [List.length_set]
      exact hinv.length
    cases hstep with
    | start hnone =>
      have hloop : ∀ t', .started t' c.shared.loops ∉ c.history := fun t' hmem =>
        absurd (hinv.started t' _ hmem).1 (Nat.lt_irrefl _)
      refine ⟨hlength, hinv.history.started hfits hloop, ?_, ?_, ?_⟩
      · intro t' l hmem
        rcases List.mem_cons.mp hmem with heq | hmem
        · cases heq
          exact ⟨Nat.lt_succ_self _, hlt⟩
        · obtain ⟨hl, ht⟩ := hinv.started t' l hmem
          exact ⟨Nat.lt_succ_of_lt hl, ht⟩
      · exact fun conn hconn => (hinv.idle conn hconn).append [_]
      · refine forall_set_of_ne (fun i y hne hy => ?_) ?_
        · have hother : ∀ l, .started i l ∉ [Obs.started t c.shared.loops] := by
            intro l hmem
            cases List.mem_singleton.mp hmem
            exact hne rfl
          exact (hinv.fits i y hy).append hother
        · exact ⟨List.mem_cons_self, fun conn hconn => nomatch hconn⟩
    | go hconnected hloops hheld hidle =>
      obtain ⟨hhistory, hconn, hrest, hnone⟩ :=
        hconnected.spec hinv.history hfits.1 hfits.2 hinv.idle
      refine ⟨hlength, hhistory, ?_, ?_, ?_⟩
      · intro t' l hmem
        rcases List.mem_append.mp hmem with hnew | hold
        · exact absurd hnew (hnone t' l)
        · rw [after_shared, hloops]
          exact hinv.started t' l hold
      · intro conn hmem
        rcases hidle conn hmem with hmem | heq
        · exact (hrest conn hmem).append _
        · exact (hconn conn heq).1.append _
      · refine forall_set_of_ne (fun i y _ hy => (hinv.fits i y hy).append (hnone i)) ?_
        refine ⟨List.mem_append_right _ hfits.1, fun conn heq => ?_⟩
        obtain ⟨hknown, hgiven⟩ := hconn conn (hheld conn heq)
        exact ⟨hknown.append _, hgiven⟩
    | finish =>
      exact ⟨hlength, hinv.history, hinv.started, hinv.idle, forall_set hinv.fits trivial⟩

/-! ## Own loops -/

/-- Every connection that an execution has used was opened under the loop of the execution. -/
def OwnLoops (h : List Obs) : Prop := ∀ t loop conn, .used t loop conn ∈ h → conn.loop = loop

/-- No execution has been given an idle connection that another one has opened. -/
def OwnConnections (h : List Obs) : Prop := ∀ t conn, .handedOut t conn ∈ h → conn.openedBy = t

theorem HistoryInv.ownLoops_iff {h : List Obs} (hinv : HistoryInv h) :
    OwnLoops h ↔ OwnConnections h := by
  constructor
  · intro hown t conn hout
    obtain ⟨loop, hused⟩ := hinv.handedOut t conn hout
    obtain ⟨hstarted, hknown, -⟩ := hinv.used t loop conn hused
    have hloop : conn.loop = loop := hown t loop conn hused
    exact hinv.execution_unique _ _ loop (hloop ▸ hknown) hstarted
  · intro hown t loop conn hused
    obtain ⟨hstarted, hknown, hgiven⟩ := hinv.used t loop conn hused
    have hmine : conn.openedBy = t := by
      rcases hgiven with hopened | hout
      · exact hopened
      · exact hown t conn hout
    exact hinv.loop_unique t _ _ (hmine ▸ hknown) hstarted

/-- A single execution is given its own connections only. -/
theorem WorkerInv.ownConnections {tasks : List Int} {c : WorkerConfig} (hinv : WorkerInv tasks c)
    (hone : tasks.length ≤ 1) : OwnConnections c.history := by
  intro t conn hout
  obtain ⟨loop, hused⟩ := hinv.history.handedOut t conn hout
  obtain ⟨hstarted, hknown, -⟩ := hinv.history.used t loop conn hused
  have ht := (hinv.started t loop hstarted).2
  have ht' := (hinv.started _ _ hknown).2
  omega

section Runs

variable (guessType : Str → Option Str) (errorText : Exn → Str)

/-- What holds after every run. -/
theorem reached {db : Database} {tasks : List Int} {es : List (Event Choice Empty)}
    {c : WorkerConfig} (h : (workerSystem guessType errorText).exec (fresh db tasks) es = some c) :
    WorkerInv tasks c :=
  exec_invariant _ (fun _ _ _ hc he => hc.step he) es (workerInv_fresh db tasks) h

/-- The first select of `run_ingestion`: there is nothing to ingest, or the first block follows. -/
theorem first_select (db : Database) (t : Nat) (assetId : Int) :
    ∃ m, (kbSystem guessType errorText).step db t (.ingest assetId) (.go 0) = some m ∧
      m.shared = db ∧ (m.thread = .ingested none ∨ ∃ asset, m.thread = .ingestStart asset) := by
  refine ⟨_, rfl, ?_⟩
  unfold loadLive
  split
  · exact ⟨rfl, Or.inl rfl⟩
  · split
    · exact ⟨rfl, Or.inl rfl⟩
    · refine ⟨rfl, ?_⟩
      simp only
      split
      · exact Or.inl rfl
      · exact Or.inr ⟨_, rfl⟩

/-- The connection that the first execution of the process opens. -/
def firstConnection : Connection := { loop := 0, openedBy := 0 }

/-- The first execution is over, and has left its connection behind. -/
structure LeftBehind (assetId : Int) (c : WorkerConfig) : Prop where
  idle : c.shared.idle = [firstConnection]
  running : c.shared.running = none
  loops : c.shared.loops = 1
  waiting : c.threads[1]? = some (.waiting assetId)

theorem exec_go {c : WorkerConfig} {t loop : Nat} {task : Task} {held conn : Option Connection}
    {ch : Machine.Choice} {pick : Option Pick} {idle : List Connection} {obs : List Obs}
    {m : KbMove} (hx : c.threads[t]? = some (.running loop task held))
    (hconnect : connect c.shared.idle t loop task held ch pick = some (conn, idle, obs))
    (hm : (kbSystem guessType errorText).step c.shared.db t task ch = some m)
    (es : List (Event Choice Empty)) :
    (workerSystem guessType errorText).exec c (.run t (.go ch pick) :: es) =
      (workerSystem guessType errorText).exec (after c t (moved c.shared loop conn idle obs m))
        es := by
  refine exec_run _ hx ?_ es
  show goStep guessType errorText c.shared t loop task held ch pick = _
  rw [goStep, hconnect, hm]

theorem exists_leftBehind (db : Database) (a b : Int) (tasks : List Int) :
    ∃ es c, (workerSystem guessType errorText).exec (fresh db (a :: b :: tasks)) es = some c ∧
      LeftBehind b c := by
  obtain ⟨⟨db', th, obs⟩, hselect, hdb, hth⟩ := first_select guessType errorText db 0 a
  obtain rfl : db' = db := hdb
  rcases hth with hdone | ⟨asset, hblock⟩
  · obtain rfl : th = .ingested none := hdone
    refine ⟨[.run 0 .start, .run 0 (.go (.go 0) (some .opened)), .run 0 .finish], ?_⟩
    rw [exec_run _ rfl rfl, exec_go guessType errorText rfl rfl hselect, exec_run _ rfl rfl]
    exact ⟨_, rfl, rfl, rfl, rfl, rfl⟩
  · -- the select has begun a transaction, and `db.begin()` raises
    obtain rfl : th = .ingestStart asset := hblock
    refine ⟨[.run 0 .start, .run 0 (.go (.go 0) (some .opened)), .run 0 (.go (.raises []) none),
      .run 0 .finish], ?_⟩
    rw [exec_run _ rfl rfl, exec_go guessType errorText rfl rfl hselect, exec_run _ rfl rfl,
      exec_run _ rfl rfl]
    exact ⟨_, rfl, rfl, rfl, rfl, rfl⟩

/-- The second execution is given the connection of the first. -/
theorem exists_foreign (db : Database) (a b : Int) (tasks : List Int) :
    ∃ es c, (workerSystem guessType errorText).exec (fresh db (a :: b :: tasks)) es = some c ∧
      .used 1 1 firstConnection ∈ c.history := by
  obtain ⟨es, c, hrun, hleft⟩ := exists_leftBehind guessType errorText db a b tasks
  let m₁ : WorkerMove :=
    { shared := { getState c.shared with running := some 1, loops := 2 }
      thread := .running 1 (.ingest b) none, obs := [.started 1 1] }
  have hstart : (workerSystem guessType errorText).step c.shared 1 (.waiting b) .start
      = some m₁ := by
    simp [workerSystem, startStep, runAsync, getState, hleft.running, hleft.loops, m₁]
  have hx : (after c 1 m₁).threads[1]? = some (.running 1 (.ingest b) none) :=
    List.getElem?_set_self (List.getElem?_eq_some_iff.mp hleft.waiting).1
  have hpool : connect (after c 1 m₁).shared.idle 1 1 (.ingest b) none (.go 0) (some (.idle 0)) =
      some (some firstConnection, [],
        [.used 1 1 firstConnection, .handedOut 1 firstConnection]) := by
    have hidle : (after c 1 m₁).shared.idle = [firstConnection] := hleft.idle
    rw [hidle]
    rfl
  obtain ⟨m, hselect, -, -⟩ := first_select guessType errorText (after c 1 m₁).shared.db 1 b
  refine ⟨es ++ [.run 1 .start, .run 1 (.go (.go 0) (some (.idle 0)))], ?_⟩
  rw [exec_append, hrun, Option.bind_some, exec_run _ hleft.waiting hstart,
    exec_go guessType errorText hx hpool hselect]
  refine ⟨_, rfl, ?_⟩
  unfold moved
  split
  · exact List.mem_cons_self
  · exact List.mem_cons_self

end Runs

/--
**A worker keeps to its own loops** in every run exactly when it executes no more than one task in
its life.

A single run does exactly when no execution is given an idle connection that another one has opened.
-/
theorem own_loop_iff (guessType : Str → Option Str) (errorText : Exn → Str) (db : Database)
    (tasks : List Int) :
    ((∀ es c, (workerSystem guessType errorText).exec (fresh db tasks) es = some c →
        OwnLoops c.history) ↔ tasks.length ≤ 1) ∧
      ∀ es c, (workerSystem guessType errorText).exec (fresh db tasks) es = some c →
        (OwnLoops c.history ↔ OwnConnections c.history) := by
  refine ⟨⟨fun h => ?_, fun hone es c hrun => ?_⟩, fun es c hrun => ?_⟩
  · match tasks with
    | [] => exact Nat.zero_le 1
    | [_] => exact Nat.le_refl 1
    | a :: b :: tasks =>
      obtain ⟨es, c, hrun, hused⟩ := exists_foreign guessType errorText db a b tasks
      have hloop := h es c hrun 1 1 firstConnection hused
      cases hloop
  · have hinv := reached guessType errorText hrun
    exact hinv.history.ownLoops_iff.mpr (hinv.ownConnections hone)
  · exact (reached guessType errorText hrun).history.ownLoops_iff

/-! ## Two tasks -/

def noAssets : Database :=
  { users := [], roles := [], permissions := [], rolePermissions := [], grants := []
    workspaces := [], projects := [], assets := [], jobs := [] }

/-- Both tasks are for assets that are gone. -/
def goneAssets : List (Event Choice Empty) :=
  [.run 0 .start, .run 0 (.go (.go 0) (some .opened)), .run 0 .finish, .run 1 .start,
    .run 1 (.go (.go 0) (some (.idle 0)))]

theorem goneAssets_run : ∃ c,
    (workerSystem (fun _ => none) fun _ => []).exec (fresh noAssets [1, 2]) goneAssets = some c ∧
      .used 1 1 firstConnection ∈ c.history :=
  ⟨_, rfl, List.mem_cons_self⟩

theorem own_loop_iff_goneAssets : ∃ c,
    (workerSystem (fun _ => none) fun _ => []).exec (fresh noAssets [1, 2]) goneAssets = some c ∧
      (OwnLoops c.history ↔ OwnConnections c.history) := by
  obtain ⟨c, hrun, -⟩ := goneAssets_run
  exact ⟨c, hrun, (own_loop_iff (fun _ => none) (fun _ => []) noAssets [1, 2]).2 goneAssets c hrun⟩

theorem other_loop_used :
    ¬∀ (guessType : Str → Option Str) (errorText : Exn → Str) (db : Database) (tasks : List Int)
      es c, (workerSystem guessType errorText).exec (fresh db tasks) es = some c →
        OwnLoops c.history := by
  intro h
  obtain ⟨c, hrun, hused⟩ := goneAssets_run
  have hloop := h _ _ noAssets [1, 2] goneAssets c hrun 1 1 firstConnection hused
  cases hloop

end EnterpriseAssistant.Workers
