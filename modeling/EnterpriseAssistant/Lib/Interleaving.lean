import Mathlib.Algebra.Ring.Int.Defs
import Mathlib.Data.List.Basic

/-!
# Threads interleaved over a shared state

A party of a concurrent system is a *thread*: a local state that moves by atomic steps over a
state shared with the other threads.  The step function is guarded and executable: the choice
in its argument carries everything the environment decides (which connection the pool hands
out, whether a call raises), and `none` means that the choice is not possible here.

What a step makes observable goes to a history, newest first.  Properties of runs are stated
either as invariants of the configurations (`exec_invariant`) or about every step of a run
(`EachStep`), and the two meet in `EachStep.of_invariant`.  Where every step leaves less to do, runs
end (`Works.exists_end`).
-/

namespace Interleaving

universe u

/-- What one atomic step of a thread leaves behind. -/
structure Move (σ θ ω : Type u) where
  shared : σ
  thread : θ
  obs : List ω

/-- The atomic steps of a thread and of the environment. -/
structure System (σ θ χ η ω : Type u) where
  step : σ → Nat → θ → χ → Option (Move σ θ ω)
  env : σ → η → Option σ

/-- The shared state, the threads by number, and the observations so far (newest first). -/
structure Config (σ θ ω : Type u) where
  shared : σ
  threads : List θ
  history : List ω

/-- One event of a run: thread `t` moves by a choice, or the environment acts. -/
inductive Event (χ η : Type u) where
  | run (t : Nat) (ch : χ)
  | env (e : η)

variable {σ θ χ η ω : Type u}

/-- The configuration before anything has happened. -/
def Config.start (s : σ) (ths : List θ) : Config σ θ ω :=
  { shared := s, threads := ths, history := [] }

@[simp] theorem Config.start_shared (s : σ) (ths : List θ) :
    (Config.start s ths : Config σ θ ω).shared = s := rfl

@[simp] theorem Config.start_threads (s : σ) (ths : List θ) :
    (Config.start s ths : Config σ θ ω).threads = ths := rfl

@[simp] theorem Config.start_history (s : σ) (ths : List θ) :
    (Config.start s ths : Config σ θ ω).history = [] := rfl

namespace System

variable (S : System σ θ χ η ω)

/-- The configuration after thread `t` has made the move `m`. -/
def after (c : Config σ θ ω) (t : Nat) (m : Move σ θ ω) : Config σ θ ω :=
  { shared := m.shared, threads := c.threads.set t m.thread, history := m.obs ++ c.history }

@[simp] theorem after_shared (c : Config σ θ ω) (t : Nat) (m : Move σ θ ω) :
    (after c t m).shared = m.shared := rfl

@[simp] theorem after_threads (c : Config σ θ ω) (t : Nat) (m : Move σ θ ω) :
    (after c t m).threads = c.threads.set t m.thread := rfl

@[simp] theorem after_history (c : Config σ θ ω) (t : Nat) (m : Move σ θ ω) :
    (after c t m).history = m.obs ++ c.history := rfl

/-- One event. -/
def fire (c : Config σ θ ω) : Event χ η → Option (Config σ θ ω)
  | .run t ch =>
    match c.threads[t]? with
    | none => none
    | some th => (S.step c.shared t th ch).map (after c t)
  | .env e => (S.env c.shared e).map fun s => { c with shared := s }

/-- A run: one event after the other. -/
def exec (c : Config σ θ ω) : List (Event χ η) → Option (Config σ θ ω)
  | [] => some c
  | e :: es =>
    match S.fire c e with
    | none => none
    | some c' => exec c' es

/-! ## What an event can do -/

theorem fire_run {c c' : Config σ θ ω} {t : Nat} {ch : χ} (h : S.fire c (.run t ch) = some c') :
    ∃ th m, c.threads[t]? = some th ∧ S.step c.shared t th ch = some m ∧ c' = after c t m := by
  simp only [fire] at h
  split at h
  · cases h
  · next th hth =>
    obtain ⟨m, hm, hc⟩ := Option.map_eq_some_iff.mp h
    exact ⟨th, m, hth, hm, hc.symm⟩

theorem fire_env {c c' : Config σ θ ω} {e : η} (h : S.fire c (.env e) = some c') :
    ∃ s, S.env c.shared e = some s ∧ c' = { c with shared := s } := by
  obtain ⟨s, hs, hc⟩ := Option.map_eq_some_iff.mp h
  exact ⟨s, hs, hc.symm⟩

/-- Thread `t` moves when its step function says so. -/
theorem fire_run_eq {c : Config σ θ ω} {t : Nat} {ch : χ} {th : θ} {m : Move σ θ ω}
    (hth : c.threads[t]? = some th) (hm : S.step c.shared t th ch = some m) :
    S.fire c (.run t ch) = some (after c t m) := by
  simp only [fire, hth, hm, Option.map_some]

/-! ## Runs -/

theorem exec_cons {c c₁ : Config σ θ ω} {e : Event χ η} (h : S.fire c e = some c₁)
    (es : List (Event χ η)) : S.exec c (e :: es) = S.exec c₁ es := by
  simp only [exec, h]

/-- A run whose first event is a step of thread `t`. -/
theorem exec_run {c : Config σ θ ω} {t : Nat} {ch : χ} {th : θ} {m : Move σ θ ω}
    (hth : c.threads[t]? = some th) (hm : S.step c.shared t th ch = some m)
    (es : List (Event χ η)) : S.exec c (.run t ch :: es) = S.exec (after c t m) es :=
  S.exec_cons (S.fire_run_eq hth hm) es

theorem exec_append : ∀ (es₁ es₂ : List (Event χ η)) (c : Config σ θ ω),
    S.exec c (es₁ ++ es₂) = (S.exec c es₁).bind fun c₁ => S.exec c₁ es₂
  | [], _, _ => rfl
  | e :: es₁, es₂, c => by
    simp only [List.cons_append, exec]
    cases S.fire c e with
    | none => rfl
    | some c₁ => exact exec_append es₁ es₂ c₁

/--
**The invariant rule.**

What every event preserves, every run preserves.
-/
theorem exec_invariant {I : Config σ θ ω → Prop}
    (hstep : ∀ c e c', I c → S.fire c e = some c' → I c') :
    ∀ (es : List (Event χ η)) {c c' : Config σ θ ω}, I c → S.exec c es = some c' → I c'
  | [], c, c', hc, h => by
    cases h
    exact hc
  | e :: es, c, c', hc, h => by
    simp only [exec] at h
    split at h
    · cases h
    · next c₁ he => exact exec_invariant hstep es (hstep c e c₁ hc he) h

/-! ## Statements about every step of a run -/

/-- `P` holds of every step of the run of `es` from `c`. -/
def EachStep (P : Config σ θ ω → Event χ η → Config σ θ ω → Prop) (c : Config σ θ ω)
    (es : List (Event χ η)) : Prop :=
  ∀ pre e post c₁ c₂, es = pre ++ e :: post → S.exec c pre = some c₁ → S.fire c₁ e = some c₂ →
    P c₁ e c₂

variable {S} {P Q : Config σ θ ω → Event χ η → Config σ θ ω → Prop}

theorem EachStep.head {c c₁ : Config σ θ ω} {e : Event χ η} {es : List (Event χ η)}
    (h : S.EachStep P c (e :: es)) (he : S.fire c e = some c₁) : P c e c₁ :=
  h [] e es c c₁ rfl rfl he

theorem EachStep.tail {c c₁ : Config σ θ ω} {e : Event χ η} {es : List (Event χ η)}
    (h : S.EachStep P c (e :: es)) (he : S.fire c e = some c₁) : S.EachStep P c₁ es := by
  intro pre e' post d₁ d₂ hes hpre hfire
  refine h (e :: pre) e' post d₁ d₂ ?_ ?_ hfire
  · rw [hes, List.cons_append]
  · rw [exec_cons S he]
    exact hpre

theorem EachStep.cons {c c₁ : Config σ θ ω} {e : Event χ η} {es : List (Event χ η)}
    (he : S.fire c e = some c₁) (hP : P c e c₁) (h : S.EachStep P c₁ es) :
    S.EachStep P c (e :: es) := by
  intro pre e' post d₁ d₂ hes hpre hfire
  cases pre with
  | nil =>
    obtain ⟨rfl, rfl⟩ := List.cons.inj hes
    cases hpre
    rw [he] at hfire
    cases hfire
    exact hP
  | cons e₀ pre =>
    obtain ⟨rfl, htail⟩ := List.cons.inj hes
    rw [exec_cons S he] at hpre
    exact h pre e' post d₁ d₂ htail hpre hfire

theorem eachStep_nil (c : Config σ θ ω) : S.EachStep P c [] := by
  intro pre e post d₁ d₂ hes
  simp at hes

theorem EachStep.take {c : Config σ θ ω} {es₁ es₂ : List (Event χ η)}
    (h : S.EachStep P c (es₁ ++ es₂)) : S.EachStep P c es₁ := by
  intro pre e post c₁ c₂ hes
  exact h pre e (post ++ es₂) c₁ c₂ (by rw [hes, List.append_assoc, List.cons_append])

theorem EachStep.and {c : Config σ θ ω} {es : List (Event χ η)} (hP : S.EachStep P c es)
    (hQ : S.EachStep Q c es) : S.EachStep (fun c e c' => P c e c' ∧ Q c e c') c es :=
  fun pre e post c₁ c₂ hes hpre hfire =>
    ⟨hP pre e post c₁ c₂ hes hpre hfire, hQ pre e post c₁ c₂ hes hpre hfire⟩

/-- An invariant that only the steps satisfying `P` preserve holds along a run of such steps. -/
theorem exec_invariant_of_eachStep {I : Config σ θ ω → Prop}
    (hstep : ∀ c e c', I c → S.fire c e = some c' → P c e c' → I c') :
    ∀ (es : List (Event χ η)) {c c' : Config σ θ ω}, I c → S.EachStep P c es →
      S.exec c es = some c' → I c'
  | [], c, c', hc, _, h => by
    cases h
    exact hc
  | e :: es, c, c', hc, hP, h => by
    simp only [exec] at h
    split at h
    · cases h
    · next c₁ he =>
      exact exec_invariant_of_eachStep hstep es (hstep c e c₁ hc he (hP.head he)) (hP.tail he) h

/--
**The rule for properties of steps.**

Where `P` is what an invariant needs to be preserved, and `Q` follows from both, a run of `P`-steps
is a run of `Q`-steps.
-/
theorem EachStep.of_invariant {I : Config σ θ ω → Prop} {c : Config σ θ ω} {es : List (Event χ η)}
    (h : S.EachStep P c es) (hc : I c)
    (hstep : ∀ c e c', I c → S.fire c e = some c' → P c e c' → I c')
    (hPQ : ∀ c e c', I c → S.fire c e = some c' → P c e c' → Q c e c') : S.EachStep Q c es := by
  rintro pre e post c₁ c₂ rfl hpre hfire
  have hI : I c₁ := exec_invariant_of_eachStep hstep pre hc h.take hpre
  exact hPQ c₁ e c₂ hI hfire (h pre e post c₁ c₂ rfl hpre hfire)

end System

/-! ## Statements about every observation of a history -/

/-- `P` holds of every observation and what had been observed before it. -/
def Throughout (P : ω → List ω → Prop) (h : List ω) : Prop :=
  ∀ later o earlier, h = later ++ o :: earlier → P o earlier

theorem throughout_nil (P : ω → List ω → Prop) : Throughout P [] := by
  intro later o earlier h
  simp at h

theorem Throughout.cons {P : ω → List ω → Prop} {o : ω} {h : List ω} (ho : P o h)
    (hh : Throughout P h) : Throughout P (o :: h) := by
  intro later o' earlier heq
  cases later with
  | nil =>
    obtain ⟨rfl, rfl⟩ := List.cons.inj heq
    exact ho
  | cons x later => exact hh later o' earlier (List.cons.inj heq).2

theorem throughout_cons {P : ω → List ω → Prop} {o : ω} {h : List ω} :
    Throughout P (o :: h) ↔ P o h ∧ Throughout P h := by
  refine ⟨fun hh => ⟨hh [] o h rfl, ?_⟩, fun hh => Throughout.cons hh.1 hh.2⟩
  intro later o' earlier heq
  exact hh (o :: later) o' earlier (by rw [heq, List.cons_append])

/-- More observations, of which `P` holds whatever came before them. -/
theorem Throughout.append {P : ω → List ω → Prop} {os h : List ω} (hh : Throughout P h)
    (hos : ∀ o ∈ os, ∀ earlier, P o earlier) : Throughout P (os ++ h) := by
  induction os with
  | nil => exact hh
  | cons o os ih =>
    refine Throughout.cons (hos o List.mem_cons_self _) (ih ?_)
    exact fun o' ho' => hos o' (List.mem_cons_of_mem _ ho')

/-- What holds throughout a history held throughout the history up to some point. -/
theorem Throughout.earlier {P : ω → List ω → Prop} {h : List ω} (later : List ω)
    (hh : Throughout P (later ++ h)) : Throughout P h := by
  intro later' o earlier heq
  exact hh (later ++ later') o earlier (by rw [heq, List.append_assoc])

/-! ## The other threads -/

/-- A fact about every thread, by number, after the move of one thread. -/
theorem forall_set_of_ne {Q : Nat → θ → Prop} {ths : List θ} {t : Nat} {th' : θ}
    (h : ∀ i th, i ≠ t → ths[i]? = some th → Q i th) (ht : Q t th') :
    ∀ i th, (ths.set t th')[i]? = some th → Q i th := by
  intro i th hi
  rw [List.getElem?_set] at hi
  split at hi
  · next heq =>
    split at hi
    · cases hi
      exact heq ▸ ht
    · cases hi
  · next hne => exact h i th (Ne.symm hne) hi

theorem forall_set {Q : Nat → θ → Prop} {ths : List θ} {t : Nat} {th' : θ}
    (h : ∀ i th, ths[i]? = some th → Q i th) (ht : Q t th') :
    ∀ i th, (ths.set t th')[i]? = some th → Q i th :=
  forall_set_of_ne (fun i th _ => h i th) ht

/-- Counting threads after one of them has moved. -/
theorem countP_set_of_getElem? {p : θ → Bool} {ths : List θ} {t : Nat} {th : θ} (th' : θ)
    (h : ths[t]? = some th) :
    (ths.set t th').countP p + (if p th then 1 else 0)
      = ths.countP p + (if p th' then 1 else 0) := by
  obtain ⟨hlt, hget⟩ := List.getElem?_eq_some_iff.mp h
  have hle : (if p th then 1 else 0) ≤ ths.countP p := by
    have := List.boole_getElem_le_countP (p := p) hlt
    rwa [hget] at this
  rw [List.countP_set hlt, hget]
  omega

/-- What the threads weigh together after one of them has moved. -/
theorem sum_set_of_getElem? {f : θ → Int} {ths : List θ} {t : Nat} {th : θ} (th' : θ)
    (h : ths[t]? = some th) :
    ((ths.set t th').map f).sum + f th = (ths.map f).sum + f th' := by
  induction ths generalizing t with
  | nil => cases h
  | cons x ths ih =>
    cases t with
    | zero =>
      cases h
      simp only [List.set_cons_zero, List.map_cons, List.sum_cons]
      omega
    | succ t =>
      have htail := ih h
      simp only [List.set_cons_succ, List.map_cons, List.sum_cons]
      omega

/-- The same, where the weight of a thread depends on what it has begun as. -/
theorem sum_zipWith_set {f : θ → θ → Int} {ths₀ ths : List θ} {t : Nat} {th₀ th : θ} (th' : θ)
    (h₀ : ths₀[t]? = some th₀) (h : ths[t]? = some th) :
    (List.zipWith f ths₀ (ths.set t th')).sum + f th₀ th
      = (List.zipWith f ths₀ ths).sum + f th₀ th' := by
  induction ths generalizing t ths₀ with
  | nil => cases h
  | cons x ths ih =>
    cases ths₀ with
    | nil => cases h₀
    | cons x₀ ths₀ =>
      cases t with
      | zero =>
        cases h₀
        cases h
        simp only [List.set_cons_zero, List.zipWith_cons_cons, List.sum_cons]
        omega
      | succ t =>
        have htail := ih (t := t) h₀ h
        simp only [List.set_cons_succ, List.zipWith_cons_cons, List.sum_cons]
        omega

/-- At the beginning of a run. -/
theorem sum_zipWith_self {f : θ → θ → Int} {ths : List θ} (h : ∀ th ∈ ths, f th th = 0) :
    (List.zipWith f ths ths).sum = 0 := by
  induction ths with
  | nil => rfl
  | cons th ths ih =>
    obtain ⟨hth, hths⟩ := List.forall_mem_cons.mp h
    rw [List.zipWith_cons_cons, List.sum_cons, hth, ih hths, Int.add_zero]

/-! ## Runs that end -/

/-- What the threads have still to do together. -/
def work (w : θ → Nat) : List θ → Nat
  | [] => 0
  | th :: ths => w th + work w ths

theorem work_set {w : θ → Nat} {ths : List θ} {t : Nat} {th : θ} (th' : θ)
    (h : ths[t]? = some th) : work w (ths.set t th') + w th = work w ths + w th' := by
  induction ths generalizing t with
  | nil => cases h
  | cons x ths ih =>
    cases t with
    | zero =>
      cases h
      simp only [List.set_cons_zero, work]
      omega
    | succ t =>
      have htail := ih h
      simp only [List.set_cons_succ, work]
      omega

theorem work_le {w : θ → Nat} {n : Nat} {ths : List θ} (h : ∀ th ∈ ths, w th ≤ n) :
    work w ths ≤ n * ths.length := by
  induction ths with
  | nil => exact Nat.zero_le _
  | cons th ths ih =>
    obtain ⟨hth, hths⟩ := List.forall_mem_cons.mp h
    have hrest := ih hths
    rw [work, List.length_cons, Nat.mul_succ]
    omega

namespace System

variable {S : System σ θ χ η ω} {w : θ → Nat}

/-- A step of a thread leaves it less to do. -/
def Works (S : System σ θ χ η ω) (w : θ → Nat) : Prop :=
  ∀ s t th ch m, S.step s t th ch = some m → w m.thread < w th

variable [IsEmpty η]

theorem Works.fire (hw : S.Works w) {c c' : Config σ θ ω} {e : Event χ η}
    (h : S.fire c e = some c') : work w c'.threads < work w c.threads := by
  cases e with
  | env e => exact isEmptyElim e
  | run t ch =>
    obtain ⟨th, m, hth, hm, rfl⟩ := S.fire_run h
    have hless := hw _ _ _ _ _ hm
    have hset := work_set (w := w) m.thread hth
    rw [after_threads]
    omega

/-- **A run is no longer than what there is to do.** -/
theorem Works.length_le (hw : S.Works w) : ∀ (es : List (Event χ η)) {c c' : Config σ θ ω},
    S.exec c es = some c' → es.length + work w c'.threads ≤ work w c.threads
  | [], c, c', h => by
    cases h
    exact Nat.le_of_eq (Nat.zero_add _)
  | e :: es, c, c', h => by
    simp only [exec] at h
    split at h
    · cases h
    next c₁ he =>
    have hfirst := hw.fire he
    have hrest := hw.length_le es h
    rw [List.length_cons]
    omega

/--
**The rule for runs that end.**

Where an invariant lets some event of a kind happen as long as the run is not over, such events can
bring it to its end from everywhere.
-/
theorem Works.exists_end (hw : S.Works w) {I Over : Config σ θ ω → Prop} {P : Event χ η → Prop}
    (hstep : ∀ c e c', P e → I c → S.fire c e = some c' → I c')
    (hgo : ∀ c, I c → ¬Over c → ∃ e c', P e ∧ S.fire c e = some c') {c : Config σ θ ω} (hc : I c) :
    ∃ es c', (∀ e ∈ es, P e) ∧ S.exec c es = some c' ∧ I c' ∧ Over c' := by
  induction hn : work w c.threads using Nat.strongRecOn generalizing c with
  | ind n ih =>
    by_cases hover : Over c
    · exact ⟨[], c, List.forall_mem_nil P, rfl, hc, hover⟩
    · obtain ⟨e, c₁, hP, he⟩ := hgo c hc hover
      obtain ⟨es, c', hPs, hexec, hc', hover'⟩ :=
        ih _ (hn ▸ hw.fire he) (hstep c e c₁ hP hc he) rfl
      exact ⟨e :: es, c', List.forall_mem_cons.mpr ⟨hP, hPs⟩, by rw [exec_cons S he, hexec], hc',
        hover'⟩

end System

end Interleaving
