import Mathlib.Data.List.Basic

/-!
# Programs that raise

A program changes a state, and returns a value or raises an exception; what it has done to the
state stays done when it raises.  This is the meaning of a coroutine that nothing interleaves with.

* `Keeps` — a program preserves a property of the state on every path, exceptions included
-/

namespace Program

/-- A program over the state `σ` that raises exceptions `ε`. -/
def Prog (σ ε α : Type) : Type := σ → Except ε α × σ

namespace Prog

variable {σ ε α β : Type}

instance : Monad (Prog σ ε) where
  pure a := fun s => (.ok a, s)
  bind m f := fun s =>
    match m s with
    | (.ok a, s') => f a s'
    | (.error e, s') => (.error e, s')

/-- `raise e`. -/
def raise (e : ε) : Prog σ ε α := fun s => (.error e, s)

/-- What has been computed already, without the state. -/
def ofExcept (r : Except ε α) : Prog σ ε α := fun s => (r, s)

/-- The exceptions of the program under another type. -/
def mapError {δ : Type} (f : δ → ε) (m : Prog σ δ α) : Prog σ ε α := fun s =>
  match m s with
  | (.ok a, s') => (.ok a, s')
  | (.error e, s') => (.error (f e), s')

/-- A change of the state alone. -/
def update (f : σ → σ) : Prog σ ε Unit := fun s => (.ok (), f s)

/-- `try: m except Exception as e: h e`. -/
def tryExcept (m : Prog σ ε α) (h : ε → Prog σ ε α) : Prog σ ε α := fun s =>
  match m s with
  | (.ok a, s') => (.ok a, s')
  | (.error e, s') => h e s'

/-- `try: m finally: ..` where the last part only changes the state. -/
def finallyUpdate (m : Prog σ ε α) (f : σ → σ) : Prog σ ε α := fun s => ((m s).1, f (m s).2)

/-- `for a in l: f a`. -/
def forEach : List α → (α → Prog σ ε Unit) → Prog σ ε Unit
  | [], _ => pure ()
  | a :: l, f => do
    f a
    forEach l f

/-! ## Running -/

@[simp] theorem pure_run (a : α) (s : σ) : (pure a : Prog σ ε α) s = (.ok a, s) := rfl

@[simp] theorem raise_run (e : ε) (s : σ) : (raise e : Prog σ ε α) s = (.error e, s) := rfl

@[simp] theorem update_run (f : σ → σ) (s : σ) : (update f : Prog σ ε Unit) s = (.ok (), f s) := rfl

theorem bind_run (m : Prog σ ε α) (f : α → Prog σ ε β) (s : σ) :
    (m >>= f) s =
      match m s with
      | (.ok a, s') => f a s'
      | (.error e, s') => (.error e, s') := rfl

theorem bind_ok {m : Prog σ ε α} {s s' : σ} {a : α} (h : m s = (.ok a, s'))
    (f : α → Prog σ ε β) : (m >>= f) s = f a s' := by
  rw [bind_run, h]

theorem bind_error {m : Prog σ ε α} {s s' : σ} {e : ε} (h : m s = (.error e, s'))
    (f : α → Prog σ ε β) : (m >>= f) s = (.error e, s') := by
  rw [bind_run, h]

theorem bind_eq_ok {m : Prog σ ε α} {f : α → Prog σ ε β} {s s' : σ} {b : β} :
    (m >>= f) s = (.ok b, s') ↔ ∃ a s₁, m s = (.ok a, s₁) ∧ f a s₁ = (.ok b, s') := by
  rw [bind_run]
  constructor
  · intro h
    split at h
    · next a s₁ heq => exact ⟨a, s₁, heq, h⟩
    · cases h
  · rintro ⟨a, s₁, heq, h⟩
    rw [heq]
    exact h

theorem bind_eq_error {m : Prog σ ε α} {f : α → Prog σ ε β} {s s' : σ} {e : ε} :
    (m >>= f) s = (.error e, s') ↔
      m s = (.error e, s') ∨ ∃ a s₁, m s = (.ok a, s₁) ∧ f a s₁ = (.error e, s') := by
  rw [bind_run]
  split <;> next h => simp [h]

@[simp] theorem ofExcept_eq {r r' : Except ε α} {s s' : σ} :
    (ofExcept r : Prog σ ε α) s = (r', s') ↔ r = r' ∧ s = s' := Prod.mk.injEq _ _ _ _ ▸ Iff.rfl

theorem mapError_eq_ok {δ : Type} {f : δ → ε} {m : Prog σ δ α} {s s' : σ} {a : α} :
    mapError f m s = (.ok a, s') ↔ m s = (.ok a, s') := by
  unfold mapError
  split <;> next h => simp [h]

theorem mapError_eq_error {δ : Type} {f : δ → ε} {m : Prog σ δ α} {s s' : σ} {e : ε} :
    mapError f m s = (.error e, s') ↔ ∃ d, m s = (.error d, s') ∧ f d = e := by
  unfold mapError
  split
  · next h => simp [h]
  · next h =>
    rw [h]
    constructor
    · intro heq
      cases heq
      exact ⟨_, rfl, rfl⟩
    · rintro ⟨d, heq, rfl⟩
      cases heq
      rfl

/-! ## Properties that a program preserves -/

/-- Whatever path the program takes, it preserves `I`. -/
def Keeps (I : σ → Prop) (m : Prog σ ε α) : Prop := ∀ s, I s → I (m s).2

variable {I : σ → Prop}

theorem keeps_pure (a : α) : Keeps I (pure a : Prog σ ε α) := fun _ hs => hs

theorem keeps_raise (e : ε) : Keeps I (raise e : Prog σ ε α) := fun _ hs => hs

theorem Keeps.bind {m : Prog σ ε α} {f : α → Prog σ ε β} (hm : Keeps I m)
    (hf : ∀ a, Keeps I (f a)) : Keeps I (m >>= f) := by
  intro s hs
  have hs' := hm s hs
  rw [bind_run]
  split
  · next a s' heq =>
    rw [heq] at hs'
    exact hf a s' hs'
  · next e s' heq =>
    rw [heq] at hs'
    exact hs'

theorem Keeps.tryExcept {m : Prog σ ε α} {h : ε → Prog σ ε α} (hm : Keeps I m)
    (hh : ∀ e, Keeps I (h e)) : Keeps I (Prog.tryExcept m h) := by
  intro s hs
  have hs' := hm s hs
  unfold Prog.tryExcept
  split
  · next a s' heq =>
    rw [heq] at hs'
    exact hs'
  · next e s' heq =>
    rw [heq] at hs'
    exact hh e s' hs'

theorem Keeps.forEach {f : α → Prog σ ε Unit} (hf : ∀ a, Keeps I (f a)) :
    ∀ l : List α, Keeps I (Prog.forEach l f)
  | [] => keeps_pure ()
  | a :: l => (hf a).bind fun _ => Keeps.forEach hf l

end Prog

end Program
