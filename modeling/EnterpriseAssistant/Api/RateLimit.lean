import Mathlib.Algebra.Order.BigOperators.Group.List
import Mathlib.Algebra.Order.Group.Int
import EnterpriseAssistant.Lib.Interleaving
import EnterpriseAssistant.Lib.RedisTtl
import EnterpriseAssistant.Api.Request
import EnterpriseAssistant.Audit.Service

/-!
# Rate limits

`rate_limit_ip` of `app/api/middleware/rate_limit.py`, for any number of requests at once.  The
dependency is cut at its Redis calls; the clock of the application and of Redis counts ticks, `hz` to
the second, and moves on whenever it likes.

The counter of a window can start again only behind a `DEL`, and a `DEL` is behind an `EXPIRE` that
has failed.  So each failed `EXPIRE` pays for as many requests as the limit, once more.

* `charge_step` — what one step owes and what it pays
* `rate_limit_bound` — the requests of a window that are let through
-/

namespace EnterpriseAssistant.Api.RateLimit

open Py Core Audit Interleaving

/-! ## The dependency -/

structure RateLimitSpec where
  name : Str
  limit : Int
  windowSeconds : Int

/-- `RL_REDIS_KEY_PREFIX` -/
def rlRedisKeyPrefix : Str := "rl".toList

def bucketKey (pre identifier : Str) (bucket : Int) : Str :=
  rlRedisKeyPrefix ++ ':' :: (pre ++ ':' :: (identifier ++ ':' :: str bucket))

/-- `_key_fixed_window` -/
def keyFixedWindow (pre identifier : Str) (windowSeconds nowTs : Int) : Str :=
  bucketKey pre identifier (nowTs.fdiv windowSeconds)

/-- What Redis may answer. -/
inductive Reply where
  | nil
  | int (n : Int)
  | text (s : Str)

/-- `_to_int` -/
def toInt : Reply → Option Int
  | .nil => none
  | .int n => some n
  | .text s => intLimited? (strip s)

/-- `raise_err("error.internal", meta={"where": "rate_limit", "reason": reason})`. -/
def internalError (reason : String) : AppError :=
  err "error.internal" none none
    (some [("where", .str "rate_limit".toList), ("reason", .str reason.toList)])

def rateLimited (spec : RateLimitSpec) : AppError :=
  err "error.rate_limited" none none
    (some [("name", .str spec.name), ("limit", .int spec.limit),
      ("window_seconds", .int spec.windowSeconds)])

/-- What is recorded about a request over the limit. -/
def limitedArgs (spec : RateLimitSpec) (ip : Str) : RecordArgs Meta :=
  { action := "http.rate_limited", status := "deny", httpStatus := some 429
    «meta» := some [("name", .str spec.name), ("limit", .int spec.limit),
      ("window_seconds", .int spec.windowSeconds), ("ip", .str ip)]
    errorCode := some "error.rate_limited".toList }

/-- `_dep`, at its next call. -/
inductive Dep where
  /-- before the clock is read -/
  | enter (r : Request)
  | incr (ip : Str) (now : Int)
  | expire (ip : Str) (now n : Int)
  /-- in the `except`, before `DEL` -/
  | delete (ip : Str) (now n : Int)
  | passed
  | refused (e : AppError)
  /-- an exception that is not an `AppError` has left it -/
  | raised
deriving DecidableEq, Repr

inductive Choice where
  | go
  /-- the call raises `RedisError`, with or without having had its effect -/
  | redisError (effect : Bool)
  /-- something else is raised -/
  | otherError (effect : Bool)
deriving DecidableEq, Repr

inductive Obs where
  | passed (ip : Str) (bucket : Int)
  /-- `EXPIRE` has raised `RedisError` -/
  | expireFailed (ip : Str) (bucket : Int)
  | recorded (args : RecordArgs Meta)
deriving DecidableEq, Repr

structure Shared where
  redis : Redis.TtlStore
  ticks : Nat

/-- So many ticks go by. -/
structure Tick where
  ticks : Nat

abbrev RateMove := Move Shared Dep Obs

section Steps

variable (spec : RateLimitSpec) (hz : Nat)

/-- The window that a time falls into. -/
def bucket (now : Int) : Int := now.fdiv spec.windowSeconds

/-- `int(time.time())` -/
def seconds (ticks : Nat) : Int := ((ticks / hz : Nat) : Int)

/-- The last `if` of the dependency. -/
def decideStep (s : Shared) (ip : Str) (now n : Int) : RateMove :=
  if n > spec.limit then
    { shared := s, thread := .refused (rateLimited spec), obs := [.recorded (limitedArgs spec ip)] }
  else { shared := s, thread := .passed, obs := [.passed ip (bucket spec now)] }

def enterStep (s : Shared) (r : Request) : RateMove :=
  let ip := (orNone (getRealIp r)).getD "unknown".toList
  -- `now_ts // window_seconds`
  if spec.windowSeconds = 0 then { shared := s, thread := .raised, obs := [] }
  else { shared := s, thread := .incr ip (seconds hz s.ticks), obs := [] }

/-- What follows the answer of `INCR`, up to the next call. -/
def answeredStep (s : Shared) (ip : Str) (now : Int) (reply : Reply) : RateMove :=
  match toInt reply with
  | none => { shared := s, thread := .refused (internalError "bad_redis_incr"), obs := [] }
  | some n =>
    if n = 1 then
      if spec.windowSeconds ≤ 0 then
        { shared := s, thread := .refused (internalError "bad_window_seconds"), obs := [] }
      else { shared := s, thread := .expire ip now n, obs := [] }
    else decideStep spec s ip now n

def keyOf (ip : Str) (now : Int) : Str := keyFixedWindow spec.name ip spec.windowSeconds now

def incrStep (s : Shared) (ip : Str) (now : Int) : Choice → RateMove
  | .go =>
    match Redis.incrAt s.ticks s.redis (keyOf spec ip now) with
    -- the value is not a number: `ResponseError`
    | none => { shared := s, thread := .raised, obs := [] }
    | some (n, redis) => answeredStep spec { s with redis := redis } ip now (.int n)
  | .redisError effect | .otherError effect =>
    match Redis.incrAt s.ticks s.redis (keyOf spec ip now) with
    | none => { shared := s, thread := .raised, obs := [] }
    | some (_, redis) =>
      { shared := if effect then { s with redis := redis } else s, thread := .raised, obs := [] }

/-- The state behind `EXPIRE`. -/
def expired (s : Shared) (ip : Str) (now : Int) : Shared :=
  { s with
    redis := Redis.expireAt s.ticks (spec.windowSeconds.toNat * hz) s.redis (keyOf spec ip now) }

def expireStep (s : Shared) (ip : Str) (now n : Int) : Choice → RateMove
  | .go => decideStep spec (expired spec hz s ip now) ip now n
  | .redisError effect =>
    { shared := if effect then expired spec hz s ip now else s
      thread := .delete ip now n
      obs := [.expireFailed ip (bucket spec now)] }
  | .otherError effect =>
    { shared := if effect then expired spec hz s ip now else s, thread := .raised, obs := [] }

/-- The state behind `DEL`. -/
def deleted (s : Shared) (ip : Str) (now : Int) : Shared :=
  { s with redis := s.redis.erase (keyOf spec ip now) }

def deleteStep (s : Shared) (ip : Str) (now n : Int) : Choice → RateMove
  | .go => decideStep spec (deleted spec s ip now) ip now n
  | .redisError effect =>
    { shared := if effect then deleted spec s ip now else s
      thread := .refused (internalError "redis_expire_failed"), obs := [] }
  | .otherError effect =>
    { shared := if effect then deleted spec s ip now else s, thread := .raised, obs := [] }

def rateSystem : System Shared Dep Choice Tick Obs where
  step s _ th ch :=
    match th with
    | .enter r => some (enterStep spec hz s r)
    | .incr ip now => some (incrStep spec s ip now ch)
    | .expire ip now n => some (expireStep spec hz s ip now n ch)
    | .delete ip now n => some (deleteStep spec s ip now n ch)
    | .passed | .refused _ | .raised => none
  env s e := some { s with ticks := s.ticks + e.ticks }

end Steps

abbrev RateConfig := Config Shared Dep Obs

/-- A request that has just come in. -/
inductive Dep.Fresh : Dep → Prop where
  | enter (r : Request) : Fresh (.enter r)

/-- The call has its effect. -/
def Choice.effective : Choice → Bool
  | .go => true
  | .redisError effect | .otherError effect => effect

/-- `INCR` executes in the window of its request's clock read. -/
def InWindow (spec : RateLimitSpec) (hz : Nat) (c : RateConfig) (e : Event Choice Tick)
    (_ : RateConfig) : Prop :=
  ∀ t ch ip now, e = .run t ch → ch.effective = true → c.threads[t]? = some (.incr ip now) →
    bucket spec (seconds hz c.shared.ticks) = bucket spec now

/-! ## Windows -/

section Windows

variable {spec : RateLimitSpec} {hz : Nat} (hwindow : 1 ≤ spec.windowSeconds) (hhz : 0 < hz)

/-- The ticks of a window. -/
def windowTicks (spec : RateLimitSpec) (hz : Nat) : Int := spec.windowSeconds * hz

/-- The first tick behind the window. -/
def windowEnd (spec : RateLimitSpec) (hz : Nat) (b : Int) : Nat :=
  ((b + 1) * windowTicks spec hz).toNat

include hwindow hhz in
theorem windowTicks_pos : 0 < windowTicks spec hz :=
  Int.mul_pos (by omega) (by omega)

include hwindow hhz in
theorem bucket_seconds_iff {ticks : Nat} {b : Int} :
    bucket spec (seconds hz ticks) = b ↔
      b * windowTicks spec hz ≤ ticks ∧ ticks < windowEnd spec hz b := by
  have hpos := windowTicks_pos hwindow hhz
  have hdiv : bucket spec (seconds hz ticks) = (ticks : Int) / windowTicks spec hz := by
    rw [bucket, seconds, Int.fdiv_eq_ediv_of_nonneg _ (by omega), Int.natCast_ediv,
      Int.ediv_ediv_of_nonneg (by omega), windowTicks, Int.mul_comm]
  have hlow := Int.le_ediv_iff_mul_le (a := b) (b := (ticks : Int)) hpos
  have hhigh := Int.ediv_lt_iff_lt_mul (a := (ticks : Int)) (b := b + 1) hpos
  rw [hdiv, windowEnd, Int.lt_toNat, ← hlow, ← hhigh]
  omega

/-- The bucket is behind the last colon. -/
theorem bucketKey_inj {pre ip ip' : Str} {b b' : Int} :
    bucketKey pre ip b = bucketKey pre ip' b' ↔ ip = ip' ∧ b = b' := by
  constructor
  · intro h
    unfold bucketKey at h
    have htail := (List.cons.inj (List.append_cancel_left
      (List.cons.inj (List.append_cancel_left h)).2)).2
    have hcolon : ∀ n : Int, ':' ∉ (str n).reverse := fun n hmem =>
      notMem_str (by decide) (by decide) n (List.mem_reverse.mp hmem)
    have hsplit := congrArg (fun s => splitOnce ':' s.reverse) htail
    simp only [List.reverse_append, List.reverse_cons, List.append_assoc, List.singleton_append,
      splitOnce_append (hcolon _), Prod.mk.injEq, List.reverse_inj, str_inj] at hsplit
    exact ⟨hsplit.2, hsplit.1⟩
  · rintro ⟨rfl, rfl⟩
    rfl

end Windows

/-! ## What is owed and what is paid -/

section Charge

variable (spec : RateLimitSpec) (hz : Nat) (ip : Str) (b : Int)

/-- A request of this address and this window. -/
def Same (ip' : Str) (now : Int) : Prop := ip' = ip ∧ bucket spec now = b

instance (ip' : Str) (now : Int) : Decidable (Same spec ip b ip' now) :=
  inferInstanceAs (Decidable (_ ∧ _))

/-- One for a request within the limit. -/
def within (n : Int) : Int := if n ≤ spec.limit then 1 else 0

/-- What a request may still use up: its own admission, and with its `DEL` a whole round. -/
def Dep.owes : Dep → Int
  | .expire ip' now n => if Same spec ip b ip' now then within spec n else 0
  | .delete ip' now n => if Same spec ip b ip' now then spec.limit + within spec n else 0
  | _ => 0

/-- A failed `EXPIRE` pays for a round, an admission takes one. -/
def Obs.pays : Obs → Int
  | .passed ip' b' => if ip' = ip ∧ b' = b then -1 else 0
  | .expireFailed ip' b' => if ip' = ip ∧ b' = b then spec.limit else 0
  | .recorded _ => 0

/-- What the counter has used of the limit; all of it once the window is over. -/
def used (s : Shared) : Int :=
  if s.ticks < windowEnd spec hz b then
    min (Redis.stored s.redis (bucketKey spec.name ip b)) spec.limit
  else spec.limit

/-- The counter of the window is a count, and it does not expire before the window is over. -/
structure CounterOk (s : Shared) : Prop where
  outlives : Redis.Outlives (windowEnd spec hz b) s.redis (bucketKey spec.name ip b)
  nonneg : 0 ≤ Redis.stored s.redis (bucketKey spec.name ip b)

/-- A request of the window calls `EXPIRE` after the beginning of the window. -/
def Dep.InTime (ticks : Nat) : Dep → Prop
  | .expire ip' now _ => Same spec ip b ip' now → b * windowTicks spec hz ≤ ticks
  | _ => True

end Charge

section Spec

variable {spec : RateLimitSpec} {hz : Nat} {ip : Str} {b : Int}

theorem keyOf_eq_iff {ip' : Str} {now : Int} :
    keyOf spec ip' now = bucketKey spec.name ip b ↔ Same spec ip b ip' now := bucketKey_inj

theorem bucketKey_ne_keyOf {ip' : Str} {now : Int} (hsame : ¬Same spec ip b ip' now) :
    bucketKey spec.name ip b ≠ keyOf spec ip' now :=
  fun heq => hsame (keyOf_eq_iff.mp heq.symm)

theorem within_nonneg (n : Int) : 0 ≤ within spec n := by
  unfold within
  split
  · omega
  · omega

theorem used_le (s : Shared) : used spec hz ip b s ≤ spec.limit := by
  unfold used
  split
  · omega
  · omega

/-- A command on another key is not felt. -/
theorem counter_other {s s' : Shared} (hticks : s'.ticks = s.ticks)
    (hrow : s'.redis.lookup (bucketKey spec.name ip b) = s.redis.lookup (bucketKey spec.name ip b))
    (hok : CounterOk spec hz ip b s) :
    CounterOk spec hz ip b s' ∧ used spec hz ip b s' = used spec hz ip b s := by
  have hstored := Redis.lookup_congr hrow
  refine ⟨⟨fun e d he hd => hok.outlives e d (hrow ▸ he) hd, by rw [hstored]; exact hok.nonneg⟩, ?_⟩
  unfold used
  rw [hticks, hstored]

/-- What the last `if` admits is what it had been granted. -/
theorem decide_pays (s : Shared) (ip' : Str) (now n : Int) :
    (decideStep spec s ip' now n).shared = s ∧
      (decideStep spec s ip' now n).thread.owes spec ip b = 0 ∧
        (decideStep spec s ip' now n).thread.InTime spec hz ip b s.ticks ∧
          ((decideStep spec s ip' now n).obs.map (Obs.pays spec ip b)).sum
            = if Same spec ip b ip' now then -within spec n else 0 := by
  unfold decideStep within
  split
  · refine ⟨rfl, rfl, trivial, ?_⟩
    rw [if_neg (show ¬n ≤ spec.limit by omega)]
    simp [Obs.pays]
  · refine ⟨rfl, rfl, trivial, ?_⟩
    rw [if_pos (show n ≤ spec.limit by omega)]
    exact Int.add_zero _

/-- What a step leaves behind: the counter, and a balance that is not worse than before. -/
structure Charged (spec : RateLimitSpec) (hz : Nat) (ip : Str) (b : Int) (s : Shared) (th : Dep)
    (m : RateMove) : Prop where
  ticks : m.shared.ticks = s.ticks
  ok : CounterOk spec hz ip b m.shared
  inTime : m.thread.InTime spec hz ip b s.ticks
  balance : m.thread.owes spec ip b + used spec hz ip b s ≤
    th.owes spec ip b + (m.obs.map (Obs.pays spec ip b)).sum + used spec hz ip b m.shared

/-- A step that ends in the last `if`. -/
theorem charged_decide {s s' : Shared} {th : Dep} {ip' : Str} {now n : Int}
    (hticks : s'.ticks = s.ticks) (hok : CounterOk spec hz ip b s')
    (hbalance : (if Same spec ip b ip' now then within spec n else 0) + used spec hz ip b s ≤
      th.owes spec ip b + used spec hz ip b s') :
    Charged spec hz ip b s th (decideStep spec s' ip' now n) := by
  obtain ⟨hshared, howes, htime, hpays⟩ :=
    @decide_pays spec hz ip b s' ip' now n
  refine ⟨by rw [hshared, hticks], by rwa [hshared], by rwa [hticks] at htime, ?_⟩
  rw [howes, hpays, hshared]
  by_cases hsame : Same spec ip b ip' now
  · simp only [if_pos hsame] at hbalance ⊢
    omega
  · simp only [if_neg hsame] at hbalance ⊢
    omega

/-! ### The calls -/

variable {s : Shared} {ip' : Str} {now n : Int}

/-- `INCR`, when it executes in the window of the clock read. -/
theorem incr_counter {redis : Redis.TtlStore} (hwindow : 1 ≤ spec.windowSeconds) (hhz : 0 < hz)
    (hok : CounterOk spec hz ip b s)
    (hin : bucket spec (seconds hz s.ticks) = bucket spec now)
    (h : Redis.incrAt s.ticks s.redis (keyOf spec ip' now) = some (n, redis)) :
    CounterOk spec hz ip b { s with redis := redis } ∧
      (if Same spec ip b ip' now then within spec n else 0) + used spec hz ip b s
        ≤ used spec hz ip b { s with redis := redis } := by
  by_cases hsame : Same spec ip b ip' now
  · have hlt := ((bucket_seconds_iff hwindow hhz).mp (hin.trans hsame.2)).2
    rw [keyOf_eq_iff.mpr hsame] at h
    obtain ⟨hn, hstored, hout⟩ := hok.outlives.incrAt hlt h
    have hnonneg := hok.nonneg
    refine ⟨⟨hout, by rw [hstored]; omega⟩, ?_⟩
    unfold used within
    simp only [if_pos hsame, if_pos hlt, hstored]
    split
    · omega
    · omega
  · have hne := bucketKey_ne_keyOf hsame
    have hother : CounterOk spec hz ip b { s with redis := redis } ∧
        used spec hz ip b { s with redis := redis } = used spec hz ip b s :=
      counter_other (s := s) rfl (Redis.incrAt_other h hne) hok
    refine ⟨hother.1, ?_⟩
    rw [if_neg hsame, hother.2]
    omega

/-- `EXPIRE` sets a deadline behind the end of the window. -/
theorem expire_counter (hwindow : 1 ≤ spec.windowSeconds) (hok : CounterOk spec hz ip b s)
    (htime : (Dep.expire ip' now n).InTime spec hz ip b s.ticks) :
    CounterOk spec hz ip b (expired spec hz s ip' now) ∧
      used spec hz ip b (expired spec hz s ip' now) = used spec hz ip b s := by
  by_cases hsame : Same spec ip b ip' now
  · have hkey : keyOf spec ip' now = bucketKey spec.name ip b := keyOf_eq_iff.mpr hsame
    have hstored := Redis.stored_expireAt s.ticks (spec.windowSeconds.toNat * hz) s.redis
      (bucketKey spec.name ip b)
    have hreach : windowEnd spec hz b ≤ s.ticks + spec.windowSeconds.toNat * hz := by
      have hbegun : b * windowTicks spec hz ≤ s.ticks := htime hsame
      have hticks : ((spec.windowSeconds.toNat * hz : Nat) : Int) = windowTicks spec hz := by
        rw [Int.natCast_mul, Int.toNat_of_nonneg (by omega), windowTicks]
      rw [windowEnd, Int.toNat_le, Int.add_mul, Int.one_mul, Int.natCast_add, hticks]
      omega
    refine ⟨⟨?_, ?_⟩, ?_⟩
    · simp only [expired, hkey]
      exact hok.outlives.expireAt hreach
    · simp only [expired, hkey, hstored]
      exact hok.nonneg
    · simp only [used, expired, hkey, hstored]
  · have hne := bucketKey_ne_keyOf hsame
    exact counter_other rfl (Redis.expireAt_other _ _ _ hne) hok

/-- `DEL` gives back at most what the limit is. -/
theorem delete_counter (hlimit : 0 ≤ spec.limit) (hok : CounterOk spec hz ip b s) :
    CounterOk spec hz ip b (deleted spec s ip' now) ∧
      used spec hz ip b s ≤ used spec hz ip b (deleted spec s ip' now) +
        (if Same spec ip b ip' now then spec.limit else 0) := by
  by_cases hsame : Same spec ip b ip' now
  · have hkey : keyOf spec ip' now = bucketKey spec.name ip b := keyOf_eq_iff.mpr hsame
    have hstored := Redis.stored_erase s.redis (bucketKey spec.name ip b)
    have hle := @used_le spec hz ip b s
    refine ⟨⟨?_, ?_⟩, ?_⟩
    · simp only [deleted, hkey]
      exact Redis.outlives_of_none (AList.lookup_erase _ _)
    · simp only [deleted, hkey, hstored]
      omega
    · have hused : 0 ≤ used spec hz ip b (deleted spec s ip' now) := by
        unfold used
        simp only [deleted, hkey, hstored]
        split
        · omega
        · omega
      rw [if_pos hsame]
      omega
  · have hne := bucketKey_ne_keyOf hsame
    have hother : CounterOk spec hz ip b (deleted spec s ip' now) ∧
        used spec hz ip b (deleted spec s ip' now) = used spec hz ip b s :=
      counter_other (s := s) rfl (AList.lookup_erase_ne hne) hok
    refine ⟨hother.1, ?_⟩
    rw [if_neg hsame, hother.2]
    omega

/-! ### The steps -/

theorem charged_raised {s' : Shared} {th : Dep} {th' : Dep} (hticks : s'.ticks = s.ticks)
    (hok : CounterOk spec hz ip b s') (hth' : th'.owes spec ip b = 0)
    (htime : th'.InTime spec hz ip b s.ticks)
    (hbalance : used spec hz ip b s ≤ th.owes spec ip b + used spec hz ip b s') :
    Charged spec hz ip b s th { shared := s', thread := th', obs := [] } where
  ticks := hticks
  ok := hok
  inTime := htime
  balance := by
    simp only [hth', List.map_nil, List.sum_nil]
    omega

/-- `INCR` raises, in front of its effect or behind it. -/
theorem charged_incr_raised (hwindow : 1 ≤ spec.windowSeconds) (hhz : 0 < hz)
    (hok : CounterOk spec hz ip b s) {effect : Bool}
    (hin : effect = true → bucket spec (seconds hz s.ticks) = bucket spec now) :
    Charged spec hz ip b s (.incr ip' now) (incrStep spec s ip' now (.redisError effect)) := by
  unfold incrStep
  simp only
  split
  · exact charged_raised rfl hok rfl trivial (by simp [Dep.owes])
  · next n redis hincr =>
    cases effect with
    | false => exact charged_raised rfl hok rfl trivial (by simp [Dep.owes])
    | true =>
      obtain ⟨hok', hused⟩ := incr_counter hwindow hhz hok (hin rfl) hincr
      have hmore := @within_nonneg spec n
      refine charged_raised rfl hok' rfl trivial ?_
      simp only [Dep.owes, if_true]
      split at hused
      · omega
      · omega

theorem charged_incr (hwindow : 1 ≤ spec.windowSeconds) (hhz : 0 < hz)
    (hok : CounterOk spec hz ip b s) {ch : Choice}
    (hin : ch.effective = true → bucket spec (seconds hz s.ticks) = bucket spec now) :
    Charged spec hz ip b s (.incr ip' now) (incrStep spec s ip' now ch) := by
  cases ch with
  | go =>
    unfold incrStep
    simp only
    split
    · exact charged_raised rfl hok rfl trivial (by simp [Dep.owes])
    · next n redis hincr =>
      obtain ⟨hok', hused⟩ := incr_counter hwindow hhz hok (hin rfl) hincr
      unfold answeredStep toInt
      simp only
      split
      · rw [if_neg (show ¬spec.windowSeconds ≤ 0 by omega)]
        refine ⟨rfl, hok', fun hsame => ?_, ?_⟩
        · exact ((bucket_seconds_iff hwindow hhz).mp ((hin rfl).trans hsame.2)).1
        · simp only [Dep.owes, List.map_nil, List.sum_nil]
          omega
      · exact charged_decide rfl hok' (by simp only [Dep.owes]; omega)
  | redisError effect => exact charged_incr_raised hwindow hhz hok hin
  | otherError effect => exact charged_incr_raised hwindow hhz hok hin

theorem charged_expire (hwindow : 1 ≤ spec.windowSeconds)
    (hok : CounterOk spec hz ip b s) (htime : (Dep.expire ip' now n).InTime spec hz ip b s.ticks)
    (ch : Choice) :
    Charged spec hz ip b s (.expire ip' now n) (expireStep spec hz s ip' now n ch) := by
  obtain ⟨hok', hused⟩ := expire_counter hwindow hok htime
  have hgrant := @within_nonneg spec n
  have hafter : ∀ effect : Bool, CounterOk spec hz ip b (if effect then expired spec hz s ip' now else s) ∧
      used spec hz ip b (if effect then expired spec hz s ip' now else s) = used spec hz ip b s ∧
        (if effect then expired spec hz s ip' now else s).ticks = s.ticks := by
    intro effect
    cases effect with
    | false => exact ⟨hok, rfl, rfl⟩
    | true => exact ⟨hok', hused, rfl⟩
  cases ch with
  | go =>
    refine charged_decide rfl hok' ?_
    simp only [Dep.owes, hused]
    omega
  | redisError effect =>
    obtain ⟨hok₁, hused₁, hticks⟩ := hafter effect
    refine ⟨hticks, hok₁, trivial, ?_⟩
    -- the failure pays for the round that `DEL` may open
    simp only [expireStep, hused₁, Dep.owes, List.map_cons, List.map_nil, List.sum_cons,
      List.sum_nil, Obs.pays]
    by_cases hsame : ip' = ip ∧ bucket spec now = b
    · rw [if_pos hsame, if_pos (show Same spec ip b ip' now from hsame),
        if_pos (show Same spec ip b ip' now from hsame)]
      omega
    · rw [if_neg hsame, if_neg (show ¬Same spec ip b ip' now from hsame),
        if_neg (show ¬Same spec ip b ip' now from hsame)]
      omega
  | otherError effect =>
    obtain ⟨hok₁, hused₁, hticks⟩ := hafter effect
    refine charged_raised hticks hok₁ rfl trivial ?_
    rw [hused₁, Dep.owes]
    split
    · omega
    · omega

theorem charged_delete (hlimit : 0 ≤ spec.limit) (hok : CounterOk spec hz ip b s) (ch : Choice) :
    Charged spec hz ip b s (.delete ip' now n) (deleteStep spec s ip' now n ch) := by
  obtain ⟨hok', hused⟩ := @delete_counter spec hz ip b s ip' now hlimit hok
  have hgrant := @within_nonneg spec n
  have howes : 0 ≤ (Dep.delete ip' now n).owes spec ip b := by
    rw [Dep.owes]
    split
    · omega
    · omega
  have hround : used spec hz ip b s ≤ (Dep.delete ip' now n).owes spec ip b +
      used spec hz ip b (deleted spec s ip' now) := by
    rw [Dep.owes]
    split at hused
    · next hsame =>
      rw [if_pos hsame]
      omega
    · next hsame =>
      rw [if_neg hsame]
      omega
  -- an exception, in front of the effect or behind it
  have hraised : ∀ (effect : Bool) (th' : Dep), th'.owes spec ip b = 0 →
      th'.InTime spec hz ip b s.ticks → Charged spec hz ip b s (.delete ip' now n)
        { shared := if effect then deleted spec s ip' now else s, thread := th', obs := [] } := by
    intro effect th' hth' htime
    cases effect with
    | false => exact charged_raised rfl hok hth' htime (by simp only [Bool.false_eq_true, if_false]; omega)
    | true => exact charged_raised rfl hok' hth' htime (by simp only [if_true]; omega)
  cases ch with
  | go =>
    refine charged_decide rfl hok' ?_
    rw [Dep.owes]
    split at hused
    · next hsame =>
      rw [if_pos hsame, if_pos hsame]
      omega
    · next hsame =>
      rw [if_neg hsame, if_neg hsame]
      omega
  | redisError effect => exact hraised effect _ rfl trivial
  | otherError effect => exact hraised effect _ rfl trivial

/-- **One step** keeps the balance of every window. -/
theorem charge_step (hlimit : 0 ≤ spec.limit) (hwindow : 1 ≤ spec.windowSeconds) (hhz : 0 < hz)
    {t : Nat} {th : Dep} {ch : Choice} {m : RateMove}
    (h : (rateSystem spec hz).step s t th ch = some m) (hok : CounterOk spec hz ip b s)
    (htime : th.InTime spec hz ip b s.ticks)
    (hin : ∀ ip' now, th = .incr ip' now → ch.effective = true →
      bucket spec (seconds hz s.ticks) = bucket spec now) :
    Charged spec hz ip b s th m := by
  cases th with
  | enter r =>
    cases h
    unfold enterStep
    simp only
    split
    · exact charged_raised rfl hok rfl trivial (by simp [Dep.owes])
    · exact charged_raised rfl hok rfl trivial (by simp [Dep.owes])
  | incr ip' now =>
    cases h
    exact charged_incr hwindow hhz hok (hin ip' now rfl)
  | expire ip' now n =>
    cases h
    exact charged_expire hwindow hok htime ch
  | delete ip' now n =>
    cases h
    exact charged_delete hlimit hok ch
  | passed => cases h
  | refused e => cases h
  | raised => cases h

end Spec

/-! ## What holds in every run -/

section Runs

variable {spec : RateLimitSpec} {hz : Nat} {ip : Str} {b : Int}

structure RateInv (spec : RateLimitSpec) (hz : Nat) (ip : Str) (b : Int) (c : RateConfig) : Prop where
  ok : CounterOk spec hz ip b c.shared
  inTime : ∀ (t : Nat) (th : Dep), c.threads[t]? = some th →
    th.InTime spec hz ip b c.shared.ticks
  balance : (c.threads.map (Dep.owes spec ip b)).sum ≤
    (c.history.map (Obs.pays spec ip b)).sum + used spec hz ip b c.shared

theorem rateInv_start (hlimit : 0 ≤ spec.limit) {s : Shared} {deps : List Dep}
    (hfresh : ∀ th ∈ deps, th.Fresh)
    (hnew : s.redis.lookup (bucketKey spec.name ip b) = none) :
    RateInv spec hz ip b (.start s deps) := by
  have hstored : Redis.stored s.redis (bucketKey spec.name ip b) = 0 := by
    simp [Redis.stored, hnew]
  refine ⟨⟨Redis.outlives_of_none hnew, by rw [Config.start_shared, hstored]⟩, ?_, ?_⟩
  · intro t th hth
    cases hfresh th (List.mem_of_getElem? hth)
    trivial
  · have hzero : (deps.map (Dep.owes spec ip b)).sum = 0 := by
      refine List.sum_eq_zero fun n hn => ?_
      obtain ⟨th, hth, rfl⟩ := List.mem_map.mp hn
      cases hfresh th hth
      rfl
    rw [Config.start_threads, hzero, Config.start_history, Config.start_shared, used, hstored]
    simp only [List.map_nil, List.sum_nil]
    split
    · omega
    · omega

/-- Time goes by: the counter stays, until the window is over. -/
theorem RateInv.tick {c : RateConfig} (hinv : RateInv spec hz ip b c) (d : Nat) :
    RateInv spec hz ip b { c with shared := { c.shared with ticks := c.shared.ticks + d } } where
  ok := ⟨hinv.ok.outlives, hinv.ok.nonneg⟩
  inTime := by
    intro t th hth
    have hbefore := hinv.inTime t th hth
    cases th with
    | expire ip' now n =>
      intro hsame
      have hbegun := hbefore hsame
      simp only [Int.natCast_add]
      omega
    | _ => trivial
  balance := by
    have hbalance := hinv.balance
    unfold used at hbalance ⊢
    simp only
    split
    · rw [if_pos (by omega)] at hbalance
      exact hbalance
    · split at hbalance
      · omega
      · exact hbalance

theorem RateInv.step (hlimit : 0 ≤ spec.limit) (hwindow : 1 ≤ spec.windowSeconds) (hhz : 0 < hz)
    {c c' : RateConfig} {e : Event Choice Tick} (hinv : RateInv spec hz ip b c)
    (h : (rateSystem spec hz).fire c e = some c') (hin : InWindow spec hz c e c') :
    RateInv spec hz ip b c' := by
  cases e with
  | env e =>
    obtain ⟨s, hs, rfl⟩ := System.fire_env _ h
    cases hs
    exact hinv.tick e.ticks
  | run t ch =>
    obtain ⟨th, m, hth, hm, rfl⟩ := System.fire_run _ h
    have hcharged := charge_step hlimit hwindow hhz hm hinv.ok (hinv.inTime t th hth)
      fun ip' now heq heff => hin t ch ip' now rfl heff (heq ▸ hth)
    refine ⟨hcharged.ok, ?_, ?_⟩
    · rw [System.after_shared, hcharged.ticks]
      exact forall_set hinv.inTime hcharged.inTime
    · have hsum := sum_set_of_getElem? (f := Dep.owes spec ip b) m.thread hth
      have hbalance := hinv.balance
      have hstep := hcharged.balance
      simp only [System.after_threads, System.after_history, System.after_shared, List.map_append,
        List.sum_append]
      omega

end Runs

/-! ## The bound -/

section Bound

variable (spec : RateLimitSpec) (hz : Nat) (ip : Str) (b : Int)

/-- The requests of the window that have been let through. -/
def passedCount (h : List Obs) : Nat := h.count (.passed ip b)

/-- The requests of the window whose `EXPIRE` has failed. -/
def expireFailures (h : List Obs) : Nat := h.count (.expireFailed ip b)

theorem pays_eq (o : Obs) :
    o.pays spec ip b = spec.limit * ((if o = .expireFailed ip b then 1 else 0 : Nat) : Int) -
      ((if o = .passed ip b then 1 else 0 : Nat) : Int) := by
  cases o with
  | passed ip' b' =>
    by_cases hsame : ip' = ip ∧ b' = b
    · obtain ⟨rfl, rfl⟩ := hsame
      simp [Obs.pays]
    · simp [Obs.pays, hsame]
  | expireFailed ip' b' =>
    by_cases hsame : ip' = ip ∧ b' = b
    · obtain ⟨rfl, rfl⟩ := hsame
      simp [Obs.pays]
    · simp [Obs.pays, hsame]
  | recorded args => simp [Obs.pays]

theorem sum_pays (h : List Obs) :
    (h.map (Obs.pays spec ip b)).sum = spec.limit * expireFailures ip b h - passedCount ip b h := by
  induction h with
  | nil => simp [expireFailures, passedCount]
  | cons o h ih =>
    rw [List.map_cons, List.sum_cons, ih, pays_eq]
    simp only [expireFailures, passedCount, List.count_cons, beq_iff_eq, Int.natCast_add, Int.mul_add]
    omega

theorem owes_nonneg (hlimit : 0 ≤ spec.limit) (th : Dep) : 0 ≤ th.owes spec ip b := by
  cases th with
  | expire ip' now n =>
    have hgrant := @within_nonneg spec n
    rw [Dep.owes]
    split
    · omega
    · omega
  | delete ip' now n =>
    have hgrant := @within_nonneg spec n
    rw [Dep.owes]
    split
    · omega
    · omega
  | _ => exact Int.le_refl 0

end Bound

/--
**The bound.**  As long as every `INCR` executes in the window of its clock read, the requests of an
address that a window lets through are at most the limit, and the limit once more for each of them
whose `EXPIRE` has failed.
-/
theorem rate_limit_bound (spec : RateLimitSpec) (hlimit : 0 ≤ spec.limit)
    (hwindow : 1 ≤ spec.windowSeconds) (hz : Nat) (hhz : 0 < hz) (ip : Str) (b : Int) (s : Shared)
    (hnew : s.redis.lookup (bucketKey spec.name ip b) = none) (deps : List Dep)
    (hfresh : ∀ th ∈ deps, th.Fresh) (es : List (Event Choice Tick)) (c : RateConfig)
    (h : (rateSystem spec hz).exec (.start s deps) es = some c)
    (hin : (rateSystem spec hz).EachStep (InWindow spec hz) (.start s deps) es) :
    (passedCount ip b c.history : Int) ≤ spec.limit * (1 + expireFailures ip b c.history) := by
  have hinv : RateInv spec hz ip b c := System.exec_invariant_of_eachStep
    (fun _ _ _ hc he hw => hc.step hlimit hwindow hhz he hw) es
    (rateInv_start hlimit hfresh hnew) hin h
  have howes : 0 ≤ (c.threads.map (Dep.owes spec ip b)).sum := by
    refine List.sum_nonneg fun n hn => ?_
    obtain ⟨th, -, rfl⟩ := List.mem_map.mp hn
    exact owes_nonneg spec ip b hlimit th
  have hbalance := hinv.balance
  have hused := @used_le spec hz ip b c.shared
  rw [sum_pays] at hbalance
  rw [Int.mul_add, Int.mul_one]
  omega

/-! ## A failed `EXPIRE` -/

def perMinute : RateLimitSpec := { name := "login".toList, limit := 1, windowSeconds := 60 }

def fromHome : Request :=
  { method := "POST".toList, path := "/auth/login".toList, headers := [], query := []
    client := some "10.0.0.7".toList }

def go (t : Nat) : Event Choice Tick := .run t .go

/-- Two requests in the third minute; the `EXPIRE` of the first fails. -/
def failedExpire : List (Event Choice Tick) :=
  [go 0, go 0, .run 0 (.redisError false), go 0, go 1, go 1, go 1]

theorem failedExpire_run : ∃ c,
    (rateSystem perMinute 1000).exec (.start { redis := ∅, ticks := 125000 }
        [.enter fromHome, .enter fromHome]) failedExpire = some c ∧
      c.threads = [.passed, .passed] ∧
      c.history = [.passed "10.0.0.7".toList 2, .passed "10.0.0.7".toList 2,
        .expireFailed "10.0.0.7".toList 2] :=
  ⟨_, rfl, rfl, rfl⟩

theorem failedExpire_inWindow : (rateSystem perMinute 1000).EachStep (InWindow perMinute 1000)
    (.start { redis := ∅, ticks := 125000 } [.enter fromHome, .enter fromHome]) failedExpire := by
  have hincr : ∀ {c c' : RateConfig} {t : Nat} {ch : Choice} {ip : Str} {now : Int},
      c.threads[t]? = some (.incr ip now) →
      bucket perMinute (seconds 1000 c.shared.ticks) = bucket perMinute now →
      InWindow perMinute 1000 c (.run t ch) c' := by
    intro c c' t ch ip now hth hbucket t' ch' ip' now' heq _ hth'
    cases heq
    rw [hth] at hth'
    cases hth'
    exact hbucket
  have hother : ∀ {c c' : RateConfig} {t : Nat} {ch : Choice} {th : Dep},
      c.threads[t]? = some th → (∀ ip now, th ≠ .incr ip now) →
      InWindow perMinute 1000 c (.run t ch) c' := by
    intro c c' t ch th hth hne t' ch' ip' now' heq _ hth'
    cases heq
    rw [hth] at hth'
    cases hth'
    exact absurd rfl (hne ip' now')
  refine .cons rfl (hother rfl ?_) (.cons rfl (hincr rfl rfl) (.cons rfl (hother rfl ?_)
    (.cons rfl (hother rfl ?_) (.cons rfl (hother rfl ?_) (.cons rfl (hincr rfl rfl)
      (.cons rfl (hother rfl ?_) (System.eachStep_nil _)))))))
  all_goals exact fun _ _ => Dep.noConfusion

theorem rate_limit_bound_failedExpire : ∃ c,
    (rateSystem perMinute 1000).exec (.start { redis := ∅, ticks := 125000 }
        [.enter fromHome, .enter fromHome]) failedExpire = some c ∧
      passedCount "10.0.0.7".toList 2 c.history = 2 ∧
      (passedCount "10.0.0.7".toList 2 c.history : Int)
        ≤ perMinute.limit * (1 + expireFailures "10.0.0.7".toList 2 c.history) := by
  obtain ⟨c, hc, -, hhistory⟩ := failedExpire_run
  refine ⟨c, hc, by rw [hhistory]; rfl, rate_limit_bound perMinute (by decide) (by decide) 1000
    (by decide) "10.0.0.7".toList 2 { redis := ∅, ticks := 125000 } rfl _ ?_ failedExpire c hc
    failedExpire_inWindow⟩
  intro th hth
  simp only [List.mem_cons, List.not_mem_nil, or_false, or_self] at hth
  rw [hth]
  exact .enter fromHome

end EnterpriseAssistant.Api.RateLimit
