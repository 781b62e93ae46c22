import EnterpriseAssistant.Lib.Interleaving

/-!
# Runs that are serial

Threads that work on the shared state in their last step only, and then do what they would do with
it in one piece.  A step that does not count, such as one that raises, may end a thread but leaves
the shared state.

* `Serial.exec_eq` — a run is the threads in one piece, in the order of their last steps
* `Serial.run` — the same for a run from its beginning, and whose turn it has been
-/

namespace Interleaving

universe u

variable {σ θ χ η ω : Type u} {α : Type}

namespace System

/-- The threads that answer in a run, in the order in which they do. -/
def turns (S : System σ θ χ η ω) (answer : θ → Option α) (counts : χ → Bool) :
    Config σ θ ω → List (Event χ η) → List Nat
  | _, [] => []
  | c, e :: es =>
    match S.fire c e with
    | none => []
    | some c' =>
      match e with
      | .run t ch =>
        if counts ch && (c'.threads[t]?.bind answer).isSome then t :: turns S answer counts c' es
        else turns S answer counts c' es
      | .env _ => turns S answer counts c' es

/-- The answers of the threads `ths`, in one piece and one after the other, and the state behind
them. -/
def inTurn (whole : θ → σ → α × σ) (ths : List θ) : σ → List Nat → List (Nat × α) × σ
  | s, [] => ([], s)
  | s, t :: ts =>
    match ths[t]? with
    | none => inTurn whole ths s ts
    | some th =>
      let answered := inTurn whole ths (whole th s).2 ts
      ((t, (whole th s).1) :: answered.1, answered.2)

/-- `Knows s th₀ th`: a thread that has started as `th₀` may be `th` where the state is `s`. -/
structure Serial (S : System σ θ χ η ω) (answer : θ → Option α) (counts : χ → Bool)
    (whole : θ → σ → α × σ) (Knows : σ → θ → θ → Prop) : Prop where
  finished : ∀ s t th ch, (answer th).isSome = true → S.step s t th ch = none
  quiet : ∀ s t th₀ th ch m, Knows s th₀ th → S.step s t th ch = some m →
    counts ch = false ∨ answer m.thread = none → m.shared = s ∧ Knows s th₀ m.thread
  last : ∀ s t th₀ th ch m a, Knows s th₀ th → S.step s t th ch = some m → counts ch = true →
    answer m.thread = some a → whole th₀ s = (a, m.shared) ∧ Knows m.shared th₀ m.thread
  /-- nobody's last step takes from the others what they know -/
  others : ∀ s th₀ th th₁, Knows s th₀ th → Knows (whole th₁ s).2 th₀ th

namespace Serial

variable {S : System σ θ χ η ω} {answer : θ → Option α} {counts : χ → Bool}
  {whole : θ → σ → α × σ} {Knows : σ → θ → θ → Prop} [IsEmpty η]

/-- What a thread has answered, it has answered. -/
theorem answered_step (h : Serial S answer counts whole Knows) {c c' : Config σ θ ω}
    {e : Event χ η} (he : S.fire c e = some c') {t : Nat} {a : α}
    (ha : c.threads[t]?.bind answer = some a) : c'.threads[t]?.bind answer = some a := by
  cases e with
  | env e => exact isEmptyElim e
  | run i ch =>
    obtain ⟨th, m, hth, hm, rfl⟩ := S.fire_run he
    have hne : i ≠ t := by
      rintro rfl
      rw [hth, Option.bind_some] at ha
      rw [h.finished _ _ _ _ (Option.isSome_of_mem ha)] at hm
      cases hm
    rw [after_threads, List.getElem?_set_ne hne]
    exact ha

theorem answered_exec (h : Serial S answer counts whole Knows) (es : List (Event χ η))
    {c c' : Config σ θ ω} (hexec : S.exec c es = some c') {t : Nat} {a : α}
    (ha : c.threads[t]?.bind answer = some a) : c'.threads[t]?.bind answer = some a :=
  exec_invariant (I := fun c => c.threads[t]?.bind answer = some a) S
    (fun _ _ _ hc he => h.answered_step he hc) es ha hexec

/-- What each thread knows. -/
def Informed (Knows : σ → θ → θ → Prop) (ths : List θ) (c : Config σ θ ω) : Prop :=
  ∀ (t : Nat) (th : θ), c.threads[t]? = some th → ∃ th₀, ths[t]? = some th₀ ∧ Knows c.shared th₀ th

/--
**A run is serial**: the threads in one piece, in the order in which they have answered, give the
same answers and leave the same state.
-/
theorem exec_eq (h : Serial S answer counts whole Knows) {ths : List θ} (es : List (Event χ η)) :
    ∀ {c c' : Config σ θ ω}, Informed Knows ths c → S.exec c es = some c' →
      let serial := inTurn whole ths c.shared (S.turns answer counts c es)
      serial.2 = c'.shared ∧ ∀ x ∈ serial.1, c'.threads[x.1]?.bind answer = some x.2 := by
  induction es with
  | nil =>
    intro c c' _ hexec
    cases hexec
    exact ⟨rfl, fun x hx => nomatch hx⟩
  | cons e es ih =>
    intro c c' hc hexec
    simp only [exec] at hexec
    split at hexec
    · cases hexec
    next c₁ he =>
    cases e with
    | env e => exact isEmptyElim e
    | run t ch =>
      obtain ⟨th, m, hth, hm, rfl⟩ := S.fire_run he
      obtain ⟨th₀, hth₀, hknows⟩ := hc t th hth
      have hlt := (List.getElem?_eq_some_iff.mp hth).1
      have hself : (after c t m).threads[t]? = some m.thread := List.getElem?_set_self hlt
      simp only [turns, he, hself, Option.bind_some]
      by_cases hlast : (counts ch && (answer m.thread).isSome) = true
      · rw [if_pos hlast]
        obtain ⟨hcounts, hsome⟩ := Bool.and_eq_true_iff.mp hlast
        obtain ⟨a, ha⟩ := Option.isSome_iff_exists.mp hsome
        obtain ⟨hwhole, hknows'⟩ := h.last _ _ _ _ _ _ _ hknows hm hcounts ha
        -- what the others have read stays true, whatever the whole thread does
        have hinformed : Informed Knows ths (after c t m) := by
          refine forall_set_of_ne (fun i x _ hx => ?_) ⟨th₀, hth₀, hknows'⟩
          obtain ⟨x₀, hx₀, hx⟩ := hc i x hx
          have hother := h.others c.shared x₀ x th₀ hx
          rw [hwhole] at hother
          exact ⟨x₀, hx₀, hother⟩
        obtain ⟨hshared, hanswers⟩ := ih hinformed hexec
        simp only [inTurn, hth₀, hwhole]
        refine ⟨hshared, fun x hx => ?_⟩
        rcases List.mem_cons.mp hx with rfl | hx
        · refine h.answered_exec es hexec ?_
          rw [hself, Option.bind_some, ha]
        · exact hanswers x hx
      · -- the step is nobody's last one: nothing is shared yet, and the order goes on unchanged
        rw [if_neg hlast]
        have hquiet : counts ch = false ∨ answer m.thread = none := by
          cases hcounts : counts ch with
          | false => exact Or.inl rfl
          | true => exact Or.inr (by simpa [hcounts] using hlast)
        obtain ⟨hshared, hknows'⟩ := h.quiet _ _ _ _ _ _ hknows hm hquiet
        have hinformed : Informed Knows ths (after c t m) := by
          intro i x hx
          rw [after_shared, hshared]
          exact forall_set_of_ne
            (Q := fun i x => ∃ x₀, ths[i]? = some x₀ ∧ Knows c.shared x₀ x)
            (fun i x _ hx => hc i x hx) ⟨th₀, hth₀, hknows'⟩ i x hx
        have hrest := ih hinformed hexec
        rw [after_shared, hshared] at hrest
        exact hrest

/-- Who answers in a run has not answered before. -/
theorem notMem_turns (h : Serial S answer counts whole Knows) (es : List (Event χ η)) :
    ∀ {c : Config σ θ ω} {t : Nat} {a : α}, c.threads[t]?.bind answer = some a →
      t ∉ S.turns answer counts c es := by
  induction es with
  | nil => exact fun _ => List.not_mem_nil
  | cons e es ih =>
    intro c t a ha hmem
    simp only [turns] at hmem
    split at hmem
    · cases hmem
    next c₁ he =>
    have hrest := ih (h.answered_step he ha)
    cases e with
    | env e => exact isEmptyElim e
    | run i ch =>
      obtain ⟨th, m, hth, hm, rfl⟩ := S.fire_run he
      have hne : t ≠ i := by
        rintro rfl
        rw [hth, Option.bind_some] at ha
        rw [h.finished _ _ _ _ (Option.isSome_of_mem ha)] at hm
        cases hm
      dsimp only at hmem
      split at hmem
      · exact hrest ((List.mem_cons.mp hmem).resolve_left hne)
      · exact hrest hmem

theorem nodup_turns (h : Serial S answer counts whole Knows) (es : List (Event χ η)) :
    ∀ c : Config σ θ ω, (S.turns answer counts c es).Nodup := by
  induction es with
  | nil => exact fun _ => List.nodup_nil
  | cons e es ih =>
    intro c
    simp only [turns]
    split
    · exact List.nodup_nil
    next c₁ he =>
    cases e with
    | env e => exact isEmptyElim e
    | run t ch =>
      dsimp only
      split
      · next hlast =>
        obtain ⟨a, ha⟩ := Option.isSome_iff_exists.mp (Bool.and_eq_true_iff.mp hlast).2
        exact List.nodup_cons.mpr ⟨h.notMem_turns es ha, ih c₁⟩
      · exact ih c₁

/-- A thread that has answered has had its turn, or it was ended by a step that does not count. -/
theorem mem_turns (es : List (Event χ η)) : ∀ {c c' : Config σ θ ω}, S.exec c es = some c' →
    ∀ {t : Nat}, c.threads[t]?.bind answer = none → (c'.threads[t]?.bind answer).isSome = true →
      t ∈ S.turns answer counts c es ∨ ∃ ch, counts ch = false ∧ Event.run t ch ∈ es := by
  induction es with
  | nil =>
    intro c c' hexec t hnone hsome
    cases hexec
    rw [hnone] at hsome
    cases hsome
  | cons e es ih =>
    intro c c' hexec t hnone hsome
    simp only [exec] at hexec
    split at hexec
    · cases hexec
    next c₁ he =>
    cases e with
    | env e => exact isEmptyElim e
    | run i ch =>
      simp only [turns, he]
      cases hnext : c₁.threads[t]?.bind answer with
      | none =>
        rcases ih hexec hnext hsome with hmem | ⟨ch', hch', hmem⟩
        · refine Or.inl ?_
          split
          · exact List.mem_cons_of_mem _ hmem
          · exact hmem
        · exact Or.inr ⟨ch', hch', List.mem_cons_of_mem _ hmem⟩
      | some a =>
        -- the thread answers in this step, and so the step is its own
        obtain ⟨th, m, hth, hm, rfl⟩ := S.fire_run he
        obtain rfl : i = t := by
          by_contra hne
          rw [after_threads, List.getElem?_set_ne hne, hnone] at hnext
          cases hnext
        cases hcounts : counts ch with
        | false => exact Or.inr ⟨ch, hcounts, List.mem_cons_self⟩
        | true =>
          refine Or.inl ?_
          rw [hnext]
          exact List.mem_cons_self

theorem lt_of_mem_turns (es : List (Event χ η)) : ∀ {c : Config σ θ ω} {t : Nat},
    t ∈ S.turns answer counts c es → t < c.threads.length := by
  induction es with
  | nil => exact fun hmem => nomatch hmem
  | cons e es ih =>
    intro c t hmem
    simp only [turns] at hmem
    split at hmem
    · cases hmem
    next c₁ he =>
    cases e with
    | env e => exact isEmptyElim e
    | run i ch =>
      obtain ⟨th, m, hth, -, rfl⟩ := S.fire_run he
      have hrest : t ∈ S.turns answer counts (after c i m) es → t < c.threads.length := fun h => by
        simpa using ih h
      dsimp only at hmem
      split at hmem
      · rcases List.mem_cons.mp hmem with rfl | hmem
        · exact (List.getElem?_eq_some_iff.mp hth).1
        · exact hrest hmem
      · exact hrest hmem

/-- Everybody whose turn it is gives an answer. -/
theorem map_fst_inTurn (whole : θ → σ → α × σ) {ths : List θ} {ts : List Nat}
    (h : ∀ t ∈ ts, t < ths.length) (s : σ) : (inTurn whole ths s ts).1.map Prod.fst = ts := by
  induction ts generalizing s with
  | nil => rfl
  | cons t ts ih =>
    obtain ⟨ht, hts⟩ := List.forall_mem_cons.mp h
    simp only [inTurn, List.getElem?_eq_getElem ht, List.map_cons, ih hts]

/-- **The rule for serial runs.** -/
theorem run (h : Serial S answer counts whole Knows) {s : σ} {ths : List θ}
    (hstart : ∀ th ∈ ths, Knows s th th) (hfresh : ∀ th ∈ ths, answer th = none)
    {es : List (Event χ η)} {c : Config σ θ ω} (hexec : S.exec (.start s ths) es = some c) :
    let order := S.turns answer counts (.start s ths) es
    let serial := inTurn whole ths s order
    order.Nodup ∧
      (∀ t : Nat, (c.threads[t]?.bind answer).isSome = true →
        t ∈ order ∨ ∃ ch, counts ch = false ∧ Event.run t ch ∈ es) ∧
      serial.1.map Prod.fst = order ∧
      (∀ x ∈ serial.1, c.threads[x.1]?.bind answer = some x.2) ∧ serial.2 = c.shared := by
  have hinformed : Informed Knows ths (.start s ths : Config σ θ ω) := fun t th hth =>
    ⟨th, hth, hstart th (List.mem_of_getElem? hth)⟩
  have hnone : ∀ t : Nat, (Config.start s ths : Config σ θ ω).threads[t]?.bind answer = none := by
    intro t
    rw [Config.start_threads]
    cases hth : ths[t]? with
    | none => rfl
    | some th => exact hfresh th (List.mem_of_getElem? hth)
  obtain ⟨hshared, hanswers⟩ := h.exec_eq es hinformed hexec
  have hlt : ∀ t ∈ S.turns answer counts (.start s ths) es, t < ths.length := fun t ht =>
    lt_of_mem_turns es ht
  exact ⟨h.nodup_turns es _, fun t ht => mem_turns es hexec (hnone t) ht,
    map_fst_inTurn whole hlt s, hanswers, hshared⟩

end Serial

end System

end Interleaving
