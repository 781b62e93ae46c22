import EnterpriseAssistant.Lib.Program

/-!
# A database session with autobegin

The session of an object-relational mapper over a database `δ`: the first statement on an idle
session opens a transaction, `commit` and `rollback` end it, and a block `begin()` commits when its
body returns and rolls back when it raises.  Each call of `begin()` is noted with whether it found
the session idle.

A program works on a session and on other state `γ` that the session has no part in.

* `beginBlock_execute_ok` — what a block has committed when it returns
* `Began` — the programs that never call `begin()`
* `beginBlock_begins` — the calls behind a block over such a program
-/

namespace SqlSession

open Program Prog

structure Session (δ : Type) where
  /-- what everybody else sees -/
  committed : δ
  /-- what the open transaction sees -/
  transaction : Option δ
  /-- for every call of `begin()` whether no transaction was open, newest first -/
  begins : List Bool

namespace Session

variable {δ : Type}

/-- A session that has not been used. -/
def idle (d : δ) : Session δ := { committed := d, transaction := none, begins := [] }

/-- What the next statement sees. -/
def view (s : Session δ) : δ := s.transaction.getD s.committed

def inTransaction (s : Session δ) : Bool := s.transaction.isSome

/-- The open transaction now sees `d`; autobegin opens one where there was none. -/
def seeing (s : Session δ) (d : δ) : Session δ := { s with transaction := some d }

def commit (s : Session δ) : Session δ := { s with committed := s.view, transaction := none }

def rollback (s : Session δ) : Session δ := { s with transaction := none }

/-- `begin()` is called. -/
def noteBegin (s : Session δ) : Session δ := { s with begins := (!s.inTransaction) :: s.begins }

@[simp] theorem idle_view (d : δ) : (idle d).view = d := rfl

@[simp] theorem seeing_view (s : Session δ) (d : δ) : (s.seeing d).view = d := rfl

end Session

/-- The state of a program: the session, and what else the program changes. -/
structure State (δ γ : Type) where
  session : Session δ
  rest : γ

variable {δ γ ε α β : Type}

abbrev SqlProg (δ γ ε : Type) := Prog (State δ γ) ε

namespace State

def onSession (f : Session δ → Session δ) (s : State δ γ) : State δ γ :=
  { s with session := f s.session }

@[simp] theorem onSession_session (f : Session δ → Session δ) (s : State δ γ) :
    (s.onSession f).session = f s.session := rfl

end State

/-- What `begin()` does while a transaction is open. -/
inductive BeginRule where
  /-- it raises -/
  | refuse
  /-- the block runs in the open transaction and ends it -/
  | join
deriving DecidableEq, Repr

/-! ## Statements and transactions -/

/-- One statement: it sees the transaction's database, and changes it or raises. -/
def execute (f : δ → Except ε (α × δ)) : SqlProg δ γ ε α := fun s =>
  match f s.session.view with
  | .ok (a, d) => (.ok a, s.onSession fun x => x.seeing d)
  | .error e => (.error e, s.onSession fun x => x.seeing x.view)

/-- A statement that only reads. -/
def select (f : δ → α) : SqlProg δ γ ε α := execute fun d => .ok (f d, d)

def commit : SqlProg δ γ ε Unit := update (State.onSession Session.commit)

/-- `async with session.begin(): body`; `refused` is what a refused `begin()` raises. -/
def beginBlock (rule : BeginRule) (refused : ε) (body : SqlProg δ γ ε α) :
    SqlProg δ γ ε α := fun s =>
  if s.session.inTransaction ∧ rule = .refuse then
    (.error refused, s.onSession Session.noteBegin)
  else
    match body (s.onSession fun x => x.noteBegin.seeing x.view) with
    | (.ok a, s') => (.ok a, s'.onSession Session.commit)
    | (.error e, s') => (.error e, s'.onSession Session.rollback)

@[simp] theorem select_run (f : δ → α) (s : State δ γ) :
    (select f : SqlProg δ γ ε α) s
      = (.ok (f s.session.view), s.onSession fun x => x.seeing x.view) := rfl

theorem execute_run {f : δ → Except ε (α × δ)} {d d' : δ} {a : α} (h : f d = .ok (a, d'))
    (x : Session δ) (r : γ) :
    (execute f : SqlProg δ γ ε α) ⟨x.seeing d, r⟩ = (.ok a, ⟨x.seeing d', r⟩) := by
  unfold execute
  rw [Session.seeing_view, h]
  rfl

/-- A loop of statements that cannot fail, in an open transaction. -/
theorem forEach_execute_run (l : List α) (f : α → δ → δ) (x : Session δ) (d : δ) (r : γ) :
    (forEach l fun a => execute fun d => .ok ((), f a d) : SqlProg δ γ ε Unit) ⟨x.seeing d, r⟩
      = (.ok (), ⟨x.seeing (l.foldl (fun d a => f a d) d), r⟩) := by
  induction l generalizing d with
  | nil => rfl
  | cons a l ih => exact ih (f a d)

/-- A block on an idle session commits what its body sees in the end. -/
theorem beginBlock_idle_ok {rule : BeginRule} {refused : ε} {body : SqlProg δ γ ε α} {d d' : δ}
    {r r' : γ} {a : α}
    (h : body ⟨(Session.idle d).noteBegin.seeing d, r⟩
      = (.ok a, ⟨(Session.idle d).noteBegin.seeing d', r'⟩)) :
    beginBlock rule refused body ⟨.idle d, r⟩
      = (.ok a, ⟨{ Session.idle d' with begins := [true] }, r'⟩) := by
  have hstart : State.onSession (fun x => x.noteBegin.seeing x.view) ⟨Session.idle d, r⟩
      = (⟨(Session.idle d).noteBegin.seeing d, r⟩ : State δ γ) := rfl
  unfold beginBlock
  rw [if_neg (fun hin => Bool.false_ne_true hin.1), hstart, h]
  rfl

/-- A block of one statement that returns has committed what the statement made of the view. -/
theorem beginBlock_execute_ok {rule : BeginRule} {refused : ε} {f : δ → Except ε (α × δ)}
    {s s' : State δ γ} {a : α} (h : beginBlock rule refused (execute f) s = (.ok a, s')) :
    ∃ d, f s.session.view = .ok (a, d) ∧ s'.session.committed = d ∧ s'.session.transaction = none ∧
      s'.rest = s.rest := by
  unfold beginBlock execute at h
  split at h
  · cases h
  · simp only [State.onSession_session, Session.seeing_view] at h
    cases hf : f s.session.view with
    | error e => simp [hf] at h
    | ok r =>
      obtain ⟨b, d⟩ := r
      simp only [hf, Prod.mk.injEq, Except.ok.injEq] at h
      obtain ⟨rfl, rfl⟩ := h
      exact ⟨d, rfl, rfl, rfl, rfl⟩

/-! ## Programs that only read -/

/-- A transaction is open that sees `v`, and the calls of `begin()` so far are `bs`. -/
structure Reading (v : δ) (bs : List Bool) (s : State δ γ) : Prop where
  view : s.session.view = v
  inTransaction : s.session.inTransaction = true
  begins : s.session.begins = bs

theorem keeps_select_reading {v : δ} {bs : List Bool} (f : δ → α) :
    Keeps (Reading v bs) (select f : SqlProg δ γ ε α) := by
  intro s hs
  rw [select_run]
  exact ⟨hs.view, rfl, hs.begins⟩

/-! ## Programs that never begin -/

/-- The calls of `begin()` so far are `bs`. -/
def Began (bs : List Bool) (s : State δ γ) : Prop := s.session.begins = bs

theorem keeps_execute (bs : List Bool) (f : δ → Except ε (α × δ)) :
    Keeps (Began bs) (execute f : SqlProg δ γ ε α) := by
  intro s hs
  unfold execute
  split
  · exact hs
  · exact hs

theorem keeps_select (bs : List Bool) (f : δ → α) :
    Keeps (Began bs) (select f : SqlProg δ γ ε α) := keeps_execute bs _

/-- A block over a body that never begins adds its own call, and nothing else. -/
theorem beginBlock_begins (rule : BeginRule) (refused : ε) {body : SqlProg δ γ ε α}
    (hbody : ∀ bs, Keeps (Began bs) body) (s : State δ γ) :
    (beginBlock rule refused body s).2.session.begins
      = (!s.session.inTransaction) :: s.session.begins := by
  unfold beginBlock
  split
  · rfl
  · have hkeep := hbody ((!s.session.inTransaction) :: s.session.begins)
      (s.onSession fun x => x.noteBegin.seeing x.view) rfl
    split
    · next a s' heq =>
      rw [heq] at hkeep
      exact hkeep
    · next e s' heq =>
      rw [heq] at hkeep
      exact hkeep

theorem beginBlock_bind_begins (rule : BeginRule) (refused : ε) {body : SqlProg δ γ ε α}
    {f : α → SqlProg δ γ ε β} (hbody : ∀ bs, Keeps (Began bs) body)
    (hf : ∀ a bs, Keeps (Began bs) (f a)) (s : State δ γ) :
    ((beginBlock rule refused body >>= f) s).2.session.begins
      = (!s.session.inTransaction) :: s.session.begins := by
  have hblock := beginBlock_begins rule refused hbody s
  rw [bind_run]
  split
  · next a s' heq =>
    rw [heq] at hblock
    exact hf a _ s' hblock
  · next e s' heq =>
    rw [heq] at hblock
    exact hblock

end SqlSession
