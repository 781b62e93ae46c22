import EnterpriseAssistant.Api.RateLimit

/-!
# The keys of the rate limits

The limiters of an application beside each other, each with its own `RateLimitSpec`, and any number
of requests at once.

A key is created by an `INCR` without a deadline.  Its creator attaches one, or deletes the key, or
ends with an internal error; nothing takes a deadline away again.

* `key_step` — what one call leaves of a key
* `keys_get_deadlines` — a key without a deadline has somebody to answer for it
* `keys_timed_of_over` — once all requests are over, it is one that has failed
-/

namespace EnterpriseAssistant.Api.RateLimit

open Py Core Interleaving

/-- The key of the next call to Redis. -/
def Dep.key (spec : RateLimitSpec) : Dep → Option Str
  | .incr ip now | .expire ip now _ | .delete ip now _ => some (keyOf spec ip now)
  | .enter _ | .passed | .refused _ | .raised => none

/-- A request in the dependency of one of the limiters. -/
structure Limited where
  spec : RateLimitSpec
  dep : Dep
  /-- the local `k`, since the first call to Redis -/
  k : Option Str

/-- The requests of all limiters over one Redis. -/
def limiterSystem (hz : Nat) : System Shared Limited Choice Tick Obs where
  step s t rq ch :=
    ((rateSystem rq.spec hz).step s t rq.dep ch).map fun m =>
      { shared := m.shared, obs := m.obs
        thread := { rq with dep := m.thread, k := (rq.dep.key rq.spec).or rq.k } }
  env s e := some { s with ticks := s.ticks + e.ticks }

abbrev LimiterConfig := Config Shared Limited Obs

/-- Neither is a request cut off between its calls, nor does an `INCR` raise that has been executed. -/
def Dep.Uncut : Dep → Choice → Prop
  | .incr _ _, ch => ch = .go ∨ ch.effective = false
  | .expire _ _ _, ch | .delete _ _ _, ch => ∀ effect, ch ≠ .otherError effect
  | _, _ => True

def Uncut (c : LimiterConfig) (e : Event Choice Tick) (_ : LimiterConfig) : Prop :=
  ∀ t ch rq, e = .run t ch → c.threads[t]? = some rq → rq.dep.Uncut ch

/-- Its `INCR` on the key has returned 1, and it has yet to come to the end of `EXPIRE` or `DEL`. -/
def Dep.Awaited (spec : RateLimitSpec) (k : Str) (th : Dep) : Prop :=
  ∃ ip now, keyOf spec ip now = k ∧ (th = .expire ip now 1 ∨ th = .delete ip now 1)

/-- It has ended with `error.internal`. -/
def Dep.Failed (th : Dep) : Prop := ∃ e, th = .refused e ∧ e.code = "error.internal"

/-! ## One call -/

section Step

variable {spec : RateLimitSpec} {hz : Nat} {s : Shared} {k : Str}

/-- What a call leaves of the key: a deadline, a creator, or a failure. -/
def Answered (spec : RateLimitSpec) (k : Str) (th : Dep) (m : RateMove) : Prop :=
  Redis.Timed m.shared.redis k ∨ m.thread.Awaited spec k ∨ (th.key spec = some k ∧ m.thread.Failed)

theorem failed_internalError (reason : String) : (Dep.refused (internalError reason)).Failed :=
  ⟨_, rfl, rfl⟩

@[simp] theorem decideStep_shared (ip : Str) (now n : Int) :
    (decideStep spec s ip now n).shared = s := by
  unfold decideStep
  split
  · rfl
  · rfl

theorem answered_incr {ip : Str} {now : Int} {ch : Choice} (huncut : (Dep.incr ip now).Uncut ch)
    (hk : keyOf spec ip now = k) (htimed : Redis.Timed s.redis k) :
    Answered spec k (.incr ip now) (incrStep spec s ip now ch) := by
  cases ch with
  | go =>
    simp only [incrStep]
    split
    · exact Or.inl htimed
    · next n redis hincr =>
      rw [hk] at hincr
      simp only [answeredStep, toInt]
      by_cases hn : n = 1
      · rw [if_pos hn]
        split
        · exact Or.inr (Or.inr ⟨congrArg some hk, failed_internalError _⟩)
        · exact Or.inr (Or.inl ⟨ip, now, hk, Or.inl (by rw [hn])⟩)
      · rw [if_neg hn]
        refine Or.inl ?_
        rw [decideStep_shared]
        exact (htimed.incrAt hincr).resolve_right hn
  | redisError effect | otherError effect =>
    obtain rfl : effect = false := by simpa [Dep.Uncut, Choice.effective] using huncut
    simp only [incrStep]
    split
    · exact Or.inl htimed
    · exact Or.inl htimed

theorem answered_expire {ip : Str} {now n : Int} {ch : Choice}
    (huncut : (Dep.expire ip now n).Uncut ch) (hk : keyOf spec ip now = k)
    (hbefore : Redis.Timed s.redis k ∨ (Dep.expire ip now n).Awaited spec k) :
    Answered spec k (.expire ip now n) (expireStep spec hz s ip now n ch) := by
  have hexpired : Redis.Timed (expired spec hz s ip now).redis k := by
    unfold expired
    rw [hk]
    exact Redis.timed_expireAt _ _ _ _
  cases ch with
  | go =>
    refine Or.inl ?_
    rw [expireStep, decideStep_shared]
    exact hexpired
  | redisError effect =>
    rcases hbefore with htimed | ⟨_, _, -, hdep | hdep⟩
    · refine Or.inl ?_
      cases effect with
      | false => exact htimed
      | true => exact hexpired
    · -- the creator goes on to the `DEL`
      cases hdep
      exact Or.inr (Or.inl ⟨ip, now, hk, Or.inr rfl⟩)
    · cases hdep
  | otherError effect => exact absurd rfl (huncut effect)

theorem answered_delete {ip : Str} {now n : Int} {ch : Choice}
    (huncut : (Dep.delete ip now n).Uncut ch) (hk : keyOf spec ip now = k) :
    Answered spec k (.delete ip now n) (deleteStep spec s ip now n ch) := by
  cases ch with
  | go =>
    refine Or.inl ?_
    rw [deleteStep, decideStep_shared, deleted, hk]
    exact Redis.timed_erase _ _
  | redisError effect => exact Or.inr (Or.inr ⟨congrArg some hk, failed_internalError _⟩)
  | otherError effect => exact absurd rfl (huncut effect)

/-- A call leaves the other keys as they are. -/
theorem step_other {t : Nat} {th : Dep} {ch : Choice} {m : RateMove}
    (h : (rateSystem spec hz).step s t th ch = some m) (hk : th.key spec ≠ some k) :
    m.shared.redis.lookup k = s.redis.lookup k := by
  have hne : ∀ {k' : Str}, th.key spec = some k' → k ≠ k' := by
    intro k' hk' heq
    exact hk (heq ▸ hk')
  cases th with
  | enter r =>
    cases h
    unfold enterStep
    simp only
    split
    · rfl
    · rfl
  | incr ip now =>
    cases h
    have hrow : ∀ {n : Int} {redis : Redis.TtlStore},
        Redis.incrAt s.ticks s.redis (keyOf spec ip now) = some (n, redis) →
        redis.lookup k = s.redis.lookup k := fun hincr => Redis.incrAt_other hincr (hne rfl)
    cases ch with
    | go =>
      simp only [incrStep]
      split
      · rfl
      · next n redis hincr =>
        simp only [answeredStep, toInt]
        split
        · split
          · exact hrow hincr
          · exact hrow hincr
        · rw [decideStep_shared]
          exact hrow hincr
    | redisError effect | otherError effect =>
      simp only [incrStep]
      split
      · rfl
      · next n redis hincr =>
        cases effect with
        | false => rfl
        | true => exact hrow hincr
  | expire ip now n =>
    cases h
    have hrow : (expired spec hz s ip now).redis.lookup k = s.redis.lookup k :=
      Redis.expireAt_other _ _ _ (hne rfl)
    cases ch with
    | go => rw [expireStep, decideStep_shared, hrow]
    | redisError effect | otherError effect =>
      cases effect with
      | false => rfl
      | true => exact hrow
  | delete ip now n =>
    cases h
    have hrow : (deleted spec s ip now).redis.lookup k = s.redis.lookup k :=
      AList.lookup_erase_ne (hne rfl)
    cases ch with
    | go => rw [deleteStep, decideStep_shared, hrow]
    | redisError effect | otherError effect =>
      cases effect with
      | false => rfl
      | true => exact hrow
  | passed => cases h
  | refused e => cases h
  | raised => cases h

/-- **One call.**  A key with a deadline, or with its creator at work, is answered for. -/
theorem key_step {t : Nat} {th : Dep} {ch : Choice} {m : RateMove}
    (h : (rateSystem spec hz).step s t th ch = some m) (huncut : th.Uncut ch)
    (hbefore : Redis.Timed s.redis k ∨ th.Awaited spec k) : Answered spec k th m := by
  by_cases hk : th.key spec = some k
  · cases th with
    | incr ip now =>
      cases h
      refine answered_incr huncut (Option.some.inj hk) (hbefore.resolve_right ?_)
      rintro ⟨_, _, -, hdep | hdep⟩
      · cases hdep
      · cases hdep
    | expire ip now n =>
      cases h
      exact answered_expire huncut (Option.some.inj hk) hbefore
    | delete ip now n =>
      cases h
      exact answered_delete huncut (Option.some.inj hk)
    | enter r => cases hk
    | passed => cases hk
    | refused e => cases hk
    | raised => cases hk
  · refine Or.inl ((hbefore.resolve_right ?_).congr (step_other h hk))
    rintro ⟨ip, now, rfl, rfl | rfl⟩
    · exact hk rfl
    · exact hk rfl

end Step

/-! ## What holds in every run -/

/-- It has created the key and is still at it, or it has failed with it. -/
def Limited.AnswersFor (k : Str) (rq : Limited) : Prop :=
  rq.dep.Awaited rq.spec k ∨ (rq.k = some k ∧ rq.dep.Failed)

def KeyInv (k : Str) (c : LimiterConfig) : Prop :=
  Redis.Timed c.shared.redis k ∨ ∃ (i : Nat) (rq : Limited), c.threads[i]? = some rq ∧ rq.AnswersFor k

theorem KeyInv.step {hz : Nat} {k : Str} {c c' : LimiterConfig} {e : Event Choice Tick}
    (hinv : KeyInv k c) (h : (limiterSystem hz).fire c e = some c') (huncut : Uncut c e c') :
    KeyInv k c' := by
  cases e with
  | env e =>
    obtain ⟨s, hs, rfl⟩ := System.fire_env _ h
    cases hs
    exact hinv
  | run t ch =>
    obtain ⟨rq, m, hrq, hm, rfl⟩ := System.fire_run _ h
    obtain ⟨m, hstep, rfl⟩ := Option.map_eq_some_iff.mp hm
    have hlt : t < c.threads.length := (List.getElem?_eq_some_iff.mp hrq).1
    -- the request that moves answers for the key afterwards, or nobody has to
    have hmoves : Redis.Timed c.shared.redis k ∨ rq.dep.Awaited rq.spec k →
        KeyInv k (System.after c t
          { shared := m.shared, obs := m.obs
            thread := { rq with dep := m.thread, k := (rq.dep.key rq.spec).or rq.k } }) := by
      intro hbefore
      have hself := List.getElem?_set_self (a :=
        ({ rq with dep := m.thread, k := (rq.dep.key rq.spec).or rq.k } : Limited)) hlt
      rcases key_step hstep (huncut t ch rq rfl hrq) hbefore with htimed | hawaited | ⟨hk, hfailed⟩
      · exact Or.inl htimed
      · exact Or.inr ⟨t, _, hself, Or.inl hawaited⟩
      · exact Or.inr ⟨t, _, hself, Or.inr ⟨by rw [hk]; rfl, hfailed⟩⟩
    rcases hinv with htimed | ⟨i, rq', hrq', hanswers⟩
    · exact hmoves (Or.inl htimed)
    · by_cases hi : t = i
      · subst hi
        cases hrq.symm.trans hrq'
        rcases hanswers with hawaited | ⟨-, e, hover, -⟩
        · exact hmoves (Or.inr hawaited)
        · rw [hover] at hstep
          cases hstep
      · refine Or.inr ⟨i, rq', ?_, hanswers⟩
        rw [System.after_threads, List.getElem?_set_ne hi]
        exact hrq'

theorem keyInv_run {hz : Nat} {k : Str} {s : Shared} {rqs : List Limited}
    {es : List (Event Choice Tick)} {c : LimiterConfig} (hstart : Redis.Timed s.redis k)
    (h : (limiterSystem hz).exec (.start s rqs) es = some c)
    (huncut : (limiterSystem hz).EachStep Uncut (.start s rqs) es) : KeyInv k c :=
  System.exec_invariant_of_eachStep (fun _ _ _ hc he hw => hc.step he hw) es (Or.inl hstart) huncut h

/--
**Keys do not become immortal.**

In every run in which no request is cut off, a key that is there has a deadline, or its creator has
yet to come to the end of `EXPIRE` or `DEL`, or a request on it has ended with `error.internal`.
-/
theorem keys_get_deadlines (hz : Nat) (s : Shared) (rqs : List Limited)
    (hstart : ∀ k e, rlRedisKeyPrefix ++ [':'] <+: k → Redis.find s.ticks s.redis k = some e →
      e.deadline.isSome = true)
    (es : List (Event Choice Tick)) (c : LimiterConfig)
    (h : (limiterSystem hz).exec (.start s rqs) es = some c)
    (huncut : (limiterSystem hz).EachStep Uncut (.start s rqs) es) (k : Str)
    (hk : rlRedisKeyPrefix ++ [':'] <+: k) (e : Redis.Entry)
    (he : Redis.find c.shared.ticks c.shared.redis k = some e) :
    e.deadline.isSome = true ∨ (∃ rq ∈ c.threads, rq.dep.Awaited rq.spec k) ∨
      ∃ rq ∈ c.threads, rq.k = some k ∧ rq.dep.Failed := by
  have hbegin : Redis.Timed s.redis k :=
    (Redis.timed_iff s.ticks).mpr fun e' he' => hstart k e' hk he'
  rcases keyInv_run hbegin h huncut with htimed | ⟨i, rq, hrq, hawaited | hfailed⟩
  · exact Or.inl ((Redis.timed_iff c.shared.ticks).mp htimed e he)
  · exact Or.inr (Or.inl ⟨rq, List.mem_of_getElem? hrq, hawaited⟩)
  · exact Or.inr (Or.inr ⟨rq, List.mem_of_getElem? hrq, hfailed⟩)

/-- Once every request is over, a key without a deadline is one that a request has failed with. -/
theorem keys_timed_of_over {hz : Nat} {s : Shared} {rqs : List Limited} {k : Str}
    (hstart : Redis.Timed s.redis k) {es : List (Event Choice Tick)} {c : LimiterConfig}
    (h : (limiterSystem hz).exec (.start s rqs) es = some c)
    (huncut : (limiterSystem hz).EachStep Uncut (.start s rqs) es)
    (hover : ∀ rq ∈ c.threads, rq.dep.key rq.spec = none)
    (hfailed : ∀ rq ∈ c.threads, rq.k = some k → ¬rq.dep.Failed) : Redis.Timed c.shared.redis k := by
  rcases keyInv_run hstart h huncut with htimed | ⟨i, rq, hrq, hawaited | ⟨hk, hfail⟩⟩
  · exact htimed
  · have hnone := hover rq (List.mem_of_getElem? hrq)
    obtain ⟨ip, now, -, hdep | hdep⟩ := hawaited
    · rw [hdep] at hnone
      cases hnone
    · rw [hdep] at hnone
      cases hnone
  · exact absurd hfail (hfailed rq (List.mem_of_getElem? hrq) hk)

/-! ## A key without a deadline -/

/-- A login whose `EXPIRE` fails; its `DEL` is still to come. -/
def beforeDelete : List (Event Choice Tick) := [go 0, go 0, .run 0 (.redisError false)]

def loginFromHome : Limited := { spec := perMinute, dep := .enter fromHome, k := none }

theorem beforeDelete_uncut : (limiterSystem 1000).EachStep Uncut
    (.start { redis := ∅, ticks := 125000 } [loginFromHome]) beforeDelete := by
  have hone : ∀ {c c' : LimiterConfig} {rq : Limited} {ch : Choice},
      c.threads[0]? = some rq → rq.dep.Uncut ch → Uncut c (.run 0 ch) c' := by
    intro c c' rq ch hrq huncut t ch' rq' heq hrq'
    cases heq
    cases hrq.symm.trans hrq'
    exact huncut
  exact .cons rfl (hone rfl trivial) (.cons rfl (hone rfl (Or.inl rfl))
    (.cons rfl (hone rfl fun _ => Choice.noConfusion) (System.eachStep_nil _)))

theorem keys_get_deadlines_beforeDelete : ∃ c e,
    (limiterSystem 1000).exec (.start { redis := ∅, ticks := 125000 } [loginFromHome]) beforeDelete
        = some c ∧
      Redis.find c.shared.ticks c.shared.redis "rl:login:10.0.0.7:2".toList = some e ∧
      (e.deadline.isSome = true ∨
        (∃ rq ∈ c.threads, rq.dep.Awaited rq.spec "rl:login:10.0.0.7:2".toList) ∨
          ∃ rq ∈ c.threads, rq.k = some "rl:login:10.0.0.7:2".toList ∧ rq.dep.Failed) := by
  refine ⟨_, { value := str 1, deadline := none }, rfl, rfl, ?_⟩
  refine keys_get_deadlines 1000 { redis := ∅, ticks := 125000 } [loginFromHome] ?_ beforeDelete _
    rfl beforeDelete_uncut _ ?_ _ rfl
  · intro k e _ he
    cases he
  · exact List.isPrefixOf_iff_prefix.mp (by decide)

end EnterpriseAssistant.Api.RateLimit
