import EnterpriseAssistant.Api.RateLimit

/-!
# Who is denied

The other side of the bound: a request is told that it is over the limit only when that many others
of its address have come in its window, whatever fails or expires in between; an `INCR` that is sent
again after a timeout counts once more.  So a client that changes its address is never told.

* `fair_step`, `fair_resend` — what one step takes of the requests that have come
* `no_early_denial` — the requests of a window that are denied
* `changing_address_passes` — requests that name different addresses
-/

namespace EnterpriseAssistant.Api.RateLimit

open Py Core Audit Interleaving

/-! ## Arrivals and denials as observations -/

inductive Seen where
  /-- a request has read the clock -/
  | entered (ip : Str) (bucket : Int)
  /-- an `INCR` has been carried out, and is sent again -/
  | resent (ip : Str) (bucket : Int)
  /-- a request is answered with `error.rate_limited` -/
  | limited (ip : Str) (bucket : Int)
deriving DecidableEq, Repr

/-- What becomes of the next call. -/
inductive Call where
  | once (ch : Choice)
  /-- it is carried out, its answer times out, and the client sends it again (`retry_on_timeout`) -/
  | resent
deriving DecidableEq, Repr

section Observed

variable (spec : RateLimitSpec) (hz : Nat)

/-- The address and the window that a request counts in. -/
def Dep.window : Dep → Option (Str × Int)
  | .incr ip now | .expire ip now _ | .delete ip now _ => some (ip, bucket spec now)
  | .enter _ | .passed | .refused _ | .raised => none

/-- What is seen of a step. -/
def seen (th th' : Dep) : List Seen :=
  match th' with
  | .incr ip now => [.entered ip (bucket spec now)]
  | .refused e =>
    if e = rateLimited spec then (th.window spec).toList.map fun w => .limited w.1 w.2 else []
  | _ => []

/-- A call that has had its effect and is still to be answered. -/
def resend (s : Shared) : Dep → Option (Move Shared Dep Seen)
  | .incr ip now =>
    (Redis.incrAt s.ticks s.redis (keyOf spec ip now)).map fun r =>
      { shared := { s with redis := r.2 }
        thread := .incr ip now
        obs := [.resent ip (bucket spec now)] }
  | .expire ip now n =>
    some { shared := expired spec hz s ip now, thread := .expire ip now n, obs := [] }
  | .delete ip now n => some { shared := deleted spec s ip now, thread := .delete ip now n, obs := [] }
  | .enter _ | .passed | .refused _ | .raised => none

/-- The dependency, observed by who comes and who is denied. -/
def denialSystem : System Shared Dep Call Tick Seen where
  step s t th call :=
    match call with
    | .once ch =>
      ((rateSystem spec hz).step s t th ch).map fun m =>
        { shared := m.shared, thread := m.thread, obs := seen spec th m.thread }
    | .resent => resend spec hz s th
  env := (rateSystem spec hz).env

end Observed

abbrev DenialConfig := Config Shared Dep Seen

def enteredCount (ip : Str) (b : Int) (h : List Seen) : Nat := h.count (.entered ip b)

def resentCount (ip : Str) (b : Int) (h : List Seen) : Nat := h.count (.resent ip b)

def limitedCount (ip : Str) (b : Int) (h : List Seen) : Nat := h.count (.limited ip b)

/-! ## What one step takes -/

section Fair

variable (spec : RateLimitSpec) (ip : Str) (b : Int)

/-- A request that has come and has not been counted yet, or that will be denied. -/
def Dep.holds : Dep → Int
  | .incr ip' now => if Same spec ip b ip' now then 1 else 0
  | .expire ip' now n | .delete ip' now n => if Same spec ip b ip' now ∧ spec.limit < n then 1 else 0
  | _ => 0

/-- Only the first request of a count sets the deadline. -/
def Dep.First : Dep → Prop
  | .expire _ _ n | .delete _ _ n => n = 1
  | _ => True

/-- The requests that have been granted, at least, when `denied` of them have been denied. -/
def granted (denied : Int) (s : Shared) : Int :=
  if 0 < denied then spec.limit
  else min (Redis.stored s.redis (bucketKey spec.name ip b)) spec.limit

/-- What a step does to the requests that have come, where `denied` have been denied before. -/
structure Fair (denied : Int) (s : Shared) (th : Dep) (m : RateMove) : Prop where
  nonneg : 0 ≤ Redis.stored m.shared.redis (bucketKey spec.name ip b)
  first : m.thread.First
  balance : denied + limitedCount ip b (seen spec th m.thread) + m.thread.holds spec ip b +
      granted spec ip b (denied + limitedCount ip b (seen spec th m.thread)) m.shared ≤
    denied + enteredCount ip b (seen spec th m.thread) + th.holds spec ip b +
      granted spec ip b denied s

variable {spec} {ip} {b} {denied : Int} {s s' : Shared} {th : Dep}

theorem granted_mono {d : Int} (hd : 0 ≤ d)
    (h : Redis.stored s'.redis (bucketKey spec.name ip b) ≤
      Redis.stored s.redis (bucketKey spec.name ip b) + d) :
    granted spec ip b denied s' ≤ granted spec ip b denied s + d := by
  unfold granted
  split
  · omega
  · omega

theorem granted_le : granted spec ip b denied s ≤ spec.limit := by
  unfold granted
  split
  · omega
  · omega

theorem granted_nonneg (hlimit : 0 ≤ spec.limit)
    (h : 0 ≤ Redis.stored s.redis (bucketKey spec.name ip b)) : 0 ≤ granted spec ip b denied s := by
  unfold granted
  split
  · exact hlimit
  · omega

theorem holds_nonneg (th : Dep) : 0 ≤ th.holds spec ip b := by
  cases th with
  | incr ip' now | expire ip' now n | delete ip' now n =>
    rw [Dep.holds]
    split
    · omega
    · omega
  | _ => exact Int.le_refl 0

/-- A step behind which nothing is seen and nothing is held. -/
theorem fair_quiet {th' : Dep} {obs : List Obs}
    (hnonneg : 0 ≤ Redis.stored s'.redis (bucketKey spec.name ip b)) (hfirst : th'.First)
    (hseen : seen spec th th' = []) (hheld : th'.holds spec ip b = 0)
    (hgranted : granted spec ip b denied s' ≤ th.holds spec ip b + granted spec ip b denied s) :
    Fair spec ip b denied s th { shared := s', thread := th', obs := obs } := by
  refine ⟨hnonneg, hfirst, ?_⟩
  simp only [hseen, hheld, limitedCount, enteredCount, List.count_nil, Int.natCast_zero,
    Int.add_zero]
  omega

/-- A step that ends in the last `if`. -/
theorem fair_decide {ip' : Str} {now n : Int} (hdenied : 0 ≤ denied)
    (hwindow : th.window spec = some (ip', bucket spec now))
    (hnonneg : 0 ≤ Redis.stored s'.redis (bucketKey spec.name ip b))
    (hgranted : granted spec ip b denied s' ≤ th.holds spec ip b + granted spec ip b denied s)
    (hover : Same spec ip b ip' now → spec.limit < n →
      1 + spec.limit ≤ th.holds spec ip b + granted spec ip b denied s) :
    Fair spec ip b denied s th (decideStep spec s' ip' now n) := by
  unfold decideStep
  split
  · next hgt =>
    have hseen : seen spec th (.refused (rateLimited spec)) = [.limited ip' (bucket spec now)] := by
      simp [seen, hwindow]
    have hheld : (Dep.refused (rateLimited spec)).holds spec ip b = 0 := rfl
    refine ⟨hnonneg, trivial, ?_⟩
    simp only [hseen, hheld, limitedCount, enteredCount, List.count_singleton]
    by_cases hsame : Same spec ip b ip' now
    · obtain ⟨rfl, rfl⟩ := id hsame
      have hover := hover hsame hgt
      have hall : granted spec ip' (bucket spec now) (denied + 1) s' = spec.limit :=
        if_pos (by omega)
      simp [hall]
      omega
    · have hne : (Seen.limited ip' (bucket spec now) == Seen.limited ip b) = false := by
        simpa [Same] using hsame
      simp [hne]
      omega
  · exact fair_quiet hnonneg trivial rfl rfl hgranted

theorem fair_enter {hz : Nat} {r : Request}
    (hnonneg : 0 ≤ Redis.stored s.redis (bucketKey spec.name ip b)) :
    Fair spec ip b denied s (.enter r) (enterStep spec hz s r) := by
  unfold enterStep
  simp only
  split
  · exact fair_quiet hnonneg trivial rfl rfl (by simp [Dep.holds])
  · refine ⟨hnonneg, trivial, ?_⟩
    generalize (orNone (getRealIp r)).getD "unknown".toList = ip'
    generalize seconds hz s.ticks = now
    simp only [seen, limitedCount, enteredCount, List.count_singleton, Dep.holds]
    by_cases hsame : Same spec ip b ip' now
    · have heq : (Seen.entered ip' (bucket spec now) == Seen.entered ip b) = true := by
        simpa [Same] using hsame
      simp [hsame, heq]
    · have hne : ¬(ip' = ip ∧ bucket spec now = b) := hsame
      simp [hsame, hne]

/-- The counter of another window is not touched. -/
theorem granted_other
    (hrow : s'.redis.lookup (bucketKey spec.name ip b)
      = s.redis.lookup (bucketKey spec.name ip b)) :
    granted spec ip b denied s' = granted spec ip b denied s := by
  unfold granted
  rw [Redis.lookup_congr hrow]

/-- What an `INCR` takes of the requests that have come. -/
theorem granted_incr {ip' : Str} {now n : Int} {redis : Redis.TtlStore} (hlimit : 0 ≤ spec.limit)
    (hnonneg : 0 ≤ Redis.stored s.redis (bucketKey spec.name ip b))
    (h : Redis.incrAt s.ticks s.redis (keyOf spec ip' now) = some (n, redis)) :
    0 ≤ Redis.stored redis (bucketKey spec.name ip b) ∧
      granted spec ip b denied { s with redis := redis } ≤
        (Dep.incr ip' now).holds spec ip b + granted spec ip b denied s ∧
      (Same spec ip b ip' now → spec.limit < n →
        1 + spec.limit ≤ (Dep.incr ip' now).holds spec ip b + granted spec ip b denied s) := by
  by_cases hsame : Same spec ip b ip' now
  · have hkey : keyOf spec ip' now = bucketKey spec.name ip b := keyOf_eq_iff.mpr hsame
    rw [hkey] at h
    obtain ⟨hstored, hn⟩ := Redis.stored_incrAt h
    have hheld : (Dep.incr ip' now).holds spec ip b = 1 := if_pos hsame
    have hpos : 0 ≤ granted spec ip b denied s := granted_nonneg hlimit hnonneg
    refine ⟨by omega, ?_, fun _ hover => ?_⟩
    · rw [hheld, Int.add_comm]
      exact granted_mono (by omega) (by simp only [hstored]; omega)
    · rw [hheld]
      -- it counts on from what is stored, or it has found the row gone and is the first again
      rcases hn with hn | hn
      · have hall : granted spec ip b denied s = spec.limit := by
          unfold granted
          split
          · rfl
          · omega
        omega
      · omega
  · have hrow := Redis.incrAt_other h (bucketKey_ne_keyOf hsame)
    refine ⟨by rwa [Redis.lookup_congr hrow], ?_, fun hs => absurd hs hsame⟩
    have hsame' : granted spec ip b denied { s with redis := redis } = granted spec ip b denied s :=
      granted_other hrow
    have hheld := @holds_nonneg spec ip b (.incr ip' now)
    omega

theorem fair_incr {ip' : Str} {now : Int} (hlimit : 0 ≤ spec.limit) (hdenied : 0 ≤ denied)
    (hnonneg : 0 ≤ Redis.stored s.redis (bucketKey spec.name ip b)) (ch : Choice) :
    Fair spec ip b denied s (.incr ip' now) (incrStep spec s ip' now ch) := by
  have hheld := @holds_nonneg spec ip b (.incr ip' now)
  have hsame : granted spec ip b denied s ≤
      (Dep.incr ip' now).holds spec ip b + granted spec ip b denied s := by omega
  cases hincr : Redis.incrAt s.ticks s.redis (keyOf spec ip' now) with
  | none =>
    have hstep : incrStep spec s ip' now ch = { shared := s, thread := .raised, obs := [] } := by
      cases ch with
      | go | redisError effect | otherError effect => simp only [incrStep, hincr]
    rw [hstep]
    exact fair_quiet hnonneg trivial rfl rfl hsame
  | some r =>
    obtain ⟨n, redis⟩ := r
    obtain ⟨hnonneg', hgranted, hover⟩ :=
      @granted_incr spec ip b denied s ip' now n redis hlimit hnonneg hincr
    cases ch with
    | redisError effect | otherError effect =>
      simp only [incrStep, hincr]
      cases effect with
      | false => exact fair_quiet hnonneg trivial rfl rfl hsame
      | true => exact fair_quiet hnonneg' trivial rfl rfl hgranted
    | go =>
      simp only [incrStep, hincr, answeredStep, toInt]
      split
      · next hone =>
        split
        · exact fair_quiet hnonneg' trivial rfl rfl hgranted
        · -- the first of its count: it will be denied only where nobody is let through
          refine ⟨hnonneg', hone, ?_⟩
          have hle := @granted_le spec ip b denied { s with redis := redis }
          simp only [seen, limitedCount, enteredCount, List.count_nil, Int.natCast_zero,
            Int.add_zero, Dep.holds]
          rw [← Dep.holds]
          split
          · next hboth =>
            have hover := hover hboth.1 hboth.2
            omega
          · omega
      · exact fair_decide hdenied rfl hnonneg' hgranted hover

/-- `EXPIRE` and `DEL` give nothing back, and a request that they are called for is the first. -/
theorem granted_first {ip' : Str} {now n : Int} (hlimit : 0 ≤ spec.limit)
    (hfirst : n = 1) (hth : th = .expire ip' now n ∨ th = .delete ip' now n)
    (hnonneg : 0 ≤ Redis.stored s.redis (bucketKey spec.name ip b))
    (hle : Redis.stored s'.redis (bucketKey spec.name ip b) ≤
      Redis.stored s.redis (bucketKey spec.name ip b)) :
    granted spec ip b denied s' ≤ th.holds spec ip b + granted spec ip b denied s ∧
      (Same spec ip b ip' now → spec.limit < n →
        1 + spec.limit ≤ th.holds spec ip b + granted spec ip b denied s) := by
  have hheld := @holds_nonneg spec ip b th
  have hmono : granted spec ip b denied s' ≤ granted spec ip b denied s + 0 :=
    granted_mono (Int.le_refl 0) (by omega)
  have hpos : 0 ≤ granted spec ip b denied s := granted_nonneg hlimit hnonneg
  refine ⟨by omega, fun hsame hover => ?_⟩
  have hone : th.holds spec ip b = 1 := by
    rcases hth with rfl | rfl
    · exact if_pos ⟨hsame, hover⟩
    · exact if_pos ⟨hsame, hover⟩
  omega

theorem stored_expired (hz : Nat) (s : Shared) (ip' : Str) (now : Int) :
    Redis.stored (expired spec hz s ip' now).redis (bucketKey spec.name ip b)
      = Redis.stored s.redis (bucketKey spec.name ip b) := by
  by_cases hkey : keyOf spec ip' now = bucketKey spec.name ip b
  · simp only [expired, hkey]
    exact Redis.stored_expireAt _ _ _ _
  · exact Redis.lookup_congr (Redis.expireAt_other _ _ _ (Ne.symm hkey))

theorem stored_deleted (hnonneg : 0 ≤ Redis.stored s.redis (bucketKey spec.name ip b)) (ip' : Str)
    (now : Int) : 0 ≤ Redis.stored (deleted spec s ip' now).redis (bucketKey spec.name ip b) ∧
      Redis.stored (deleted spec s ip' now).redis (bucketKey spec.name ip b)
        ≤ Redis.stored s.redis (bucketKey spec.name ip b) := by
  by_cases hkey : keyOf spec ip' now = bucketKey spec.name ip b
  · simp only [deleted, hkey, Redis.stored_erase]
    exact ⟨Int.le_refl 0, hnonneg⟩
  · have hrow : (s.redis.erase (keyOf spec ip' now)).lookup (bucketKey spec.name ip b)
        = s.redis.lookup (bucketKey spec.name ip b) := AList.lookup_erase_ne (Ne.symm hkey)
    simp only [deleted, Redis.lookup_congr hrow]
    exact ⟨hnonneg, Int.le_refl _⟩

theorem fair_expire {hz : Nat} {ip' : Str} {now n : Int} (hlimit : 0 ≤ spec.limit)
    (hdenied : 0 ≤ denied) (hfirst : n = 1)
    (hnonneg : 0 ≤ Redis.stored s.redis (bucketKey spec.name ip b)) (ch : Choice) :
    Fair spec ip b denied s (.expire ip' now n) (expireStep spec hz s ip' now n ch) := by
  have hstored := @stored_expired spec ip b hz s ip' now
  -- with its effect or without it
  have hafter : ∀ effect : Bool, Redis.stored
      (if effect then expired spec hz s ip' now else s).redis (bucketKey spec.name ip b)
        = Redis.stored s.redis (bucketKey spec.name ip b) := by
    intro effect
    cases effect with
    | false => rfl
    | true => exact hstored
  cases ch with
  | go =>
    obtain ⟨hgranted, hover⟩ := @granted_first spec ip b denied s (expired spec hz s ip' now)
      (.expire ip' now n) ip' now n hlimit hfirst (Or.inl rfl) hnonneg (by omega)
    exact fair_decide hdenied rfl (by omega) hgranted hover
  | redisError effect =>
    refine ⟨by simp only [expireStep, hafter]; exact hnonneg, hfirst, ?_⟩
    simp only [expireStep, seen, limitedCount, enteredCount, List.count_nil, Int.natCast_zero,
      Int.add_zero, granted, hafter]
    exact Int.le_refl _
  | otherError effect =>
    obtain ⟨hgranted, -⟩ := @granted_first spec ip b denied s
      (if effect then expired spec hz s ip' now else s) (.expire ip' now n) ip' now n hlimit hfirst
      (Or.inl rfl) hnonneg (by rw [hafter])
    exact fair_quiet (by rw [hafter]; exact hnonneg) trivial rfl rfl hgranted

theorem fair_delete {ip' : Str} {now n : Int} (hlimit : 0 ≤ spec.limit) (hdenied : 0 ≤ denied)
    (hfirst : n = 1) (hnonneg : 0 ≤ Redis.stored s.redis (bucketKey spec.name ip b)) (ch : Choice) :
    Fair spec ip b denied s (.delete ip' now n) (deleteStep spec s ip' now n ch) := by
  have hafter : ∀ effect : Bool,
      0 ≤ Redis.stored (if effect then deleted spec s ip' now else s).redis
          (bucketKey spec.name ip b) ∧
        Redis.stored (if effect then deleted spec s ip' now else s).redis
          (bucketKey spec.name ip b) ≤ Redis.stored s.redis (bucketKey spec.name ip b) := by
    intro effect
    cases effect with
    | false => exact ⟨hnonneg, Int.le_refl _⟩
    | true => exact stored_deleted hnonneg ip' now
  have hboth := fun effect : Bool => @granted_first spec ip b denied s
    (if effect then deleted spec s ip' now else s) (.delete ip' now n) ip' now n hlimit hfirst
    (Or.inr rfl) hnonneg (hafter effect).2
  have hrefused : seen spec (.delete ip' now n) (.refused (internalError "redis_expire_failed"))
      = [] := by
    simp [seen, internalError, rateLimited, err]
  cases ch with
  | go => exact fair_decide hdenied rfl (hafter true).1 (hboth true).1 (hboth true).2
  | redisError effect => exact fair_quiet (hafter effect).1 trivial hrefused rfl (hboth effect).1
  | otherError effect => exact fair_quiet (hafter effect).1 trivial rfl rfl (hboth effect).1

/-- **One step** takes no more of the requests that have come than there are. -/
theorem fair_step {hz t : Nat} {ch : Choice} {m : RateMove} (hlimit : 0 ≤ spec.limit)
    (h : (rateSystem spec hz).step s t th ch = some m) (hdenied : 0 ≤ denied)
    (hnonneg : 0 ≤ Redis.stored s.redis (bucketKey spec.name ip b)) (hfirst : th.First) :
    Fair spec ip b denied s th m := by
  cases th with
  | enter r =>
    cases h
    exact fair_enter hnonneg
  | incr ip' now =>
    cases h
    exact fair_incr hlimit hdenied hnonneg ch
  | expire ip' now n =>
    cases h
    exact fair_expire hlimit hdenied hfirst hnonneg ch
  | delete ip' now n =>
    cases h
    exact fair_delete hlimit hdenied hfirst hnonneg ch
  | passed => cases h
  | refused e => cases h
  | raised => cases h

/-- **A call that is sent again** takes no more than one request, and none but an `INCR` does. -/
theorem fair_resend {hz : Nat} {m : Move Shared Dep Seen} (hlimit : 0 ≤ spec.limit)
    (hnonneg : 0 ≤ Redis.stored s.redis (bucketKey spec.name ip b))
    (h : resend spec hz s th = some m) : m.thread = th ∧
      0 ≤ Redis.stored m.shared.redis (bucketKey spec.name ip b) ∧
      enteredCount ip b m.obs = 0 ∧ limitedCount ip b m.obs = 0 ∧
      granted spec ip b denied m.shared ≤ resentCount ip b m.obs + granted spec ip b denied s := by
  cases th with
  | incr ip' now =>
    obtain ⟨⟨n, redis⟩, hincr, rfl⟩ := Option.map_eq_some_iff.mp h
    obtain ⟨hnonneg', hgranted, -⟩ :=
      @granted_incr spec ip b denied s ip' now n redis hlimit hnonneg hincr
    refine ⟨rfl, hnonneg', rfl, rfl, ?_⟩
    have hheld : (resentCount ip b [.resent ip' (bucket spec now)] : Int)
        = (Dep.incr ip' now).holds spec ip b := by
      simp only [resentCount, List.count_singleton, Dep.holds]
      by_cases hsame : Same spec ip b ip' now
      · obtain ⟨rfl, rfl⟩ := id hsame
        simp [hsame]
      · have hne : (Seen.resent ip' (bucket spec now) == Seen.resent ip b) = false := by
          simpa [Same] using hsame
        simp [hsame, hne]
    rw [hheld]
    exact hgranted
  | expire ip' now n =>
    cases h
    have hstored := @stored_expired spec ip b hz s ip' now
    have hmono : granted spec ip b denied (expired spec hz s ip' now)
        ≤ granted spec ip b denied s + 0 := granted_mono (Int.le_refl 0) (by omega)
    refine ⟨rfl, by rw [hstored]; exact hnonneg, rfl, rfl, ?_⟩
    simp only [resentCount, List.count_nil, Int.natCast_zero]
    omega
  | delete ip' now n =>
    cases h
    obtain ⟨hnonneg', hle⟩ := @stored_deleted spec ip b s hnonneg ip' now
    have hmono : granted spec ip b denied (deleted spec s ip' now)
        ≤ granted spec ip b denied s + 0 := granted_mono (Int.le_refl 0) (by omega)
    refine ⟨rfl, hnonneg', rfl, rfl, ?_⟩
    simp only [resentCount, List.count_nil, Int.natCast_zero]
    omega
  | enter r => cases h
  | passed => cases h
  | refused e => cases h
  | raised => cases h

end Fair

/-! ## What holds in every run -/

section Denials

variable {spec : RateLimitSpec} {hz : Nat} {ip : Str} {b : Int}

structure DenialInv (spec : RateLimitSpec) (ip : Str) (b : Int) (c : DenialConfig) : Prop where
  nonneg : 0 ≤ Redis.stored c.shared.redis (bucketKey spec.name ip b)
  first : ∀ (t : Nat) (th : Dep), c.threads[t]? = some th → th.First
  balance : limitedCount ip b c.history + (c.threads.map (Dep.holds spec ip b)).sum +
    granted spec ip b (limitedCount ip b c.history) c.shared ≤
      enteredCount ip b c.history + resentCount ip b c.history

theorem denialInv_start (hlimit : 0 ≤ spec.limit) {s : Shared} {deps : List Dep}
    (hfresh : ∀ th ∈ deps, th.Fresh)
    (hnew : s.redis.lookup (bucketKey spec.name ip b) = none) :
    DenialInv spec ip b (.start s deps) := by
  have hstored : Redis.stored s.redis (bucketKey spec.name ip b) = 0 := by
    simp [Redis.stored, hnew]
  have hzero : (deps.map (Dep.holds spec ip b)).sum = 0 := by
    refine List.sum_eq_zero fun n hn => ?_
    obtain ⟨th, hth, rfl⟩ := List.mem_map.mp hn
    cases hfresh th hth
    rfl
  refine ⟨by rw [Config.start_shared, hstored], fun t th hth => ?_, ?_⟩
  · cases hfresh th (List.mem_of_getElem? hth)
    trivial
  · rw [Config.start_threads, hzero, Config.start_history, Config.start_shared, granted, hstored]
    simp [limitedCount, enteredCount, resentCount, hlimit]

theorem fire_denials {c c' : DenialConfig} {t : Nat} {call : Call}
    (h : (denialSystem spec hz).fire c (.run t call) = some c') : ∃ th, c.threads[t]? = some th ∧
      ((∃ ch m, (rateSystem spec hz).step c.shared t th ch = some m ∧ c' = System.after c t
          { shared := m.shared, thread := m.thread, obs := seen spec th m.thread }) ∨
        ∃ m, resend spec hz c.shared th = some m ∧ c' = System.after c t m) := by
  obtain ⟨th, m', hth, hm', rfl⟩ := System.fire_run _ h
  cases call with
  | once ch =>
    obtain ⟨m, hm, rfl⟩ := Option.map_eq_some_iff.mp hm'
    exact ⟨th, hth, Or.inl ⟨ch, m, hm, rfl⟩⟩
  | resent => exact ⟨th, hth, Or.inr ⟨m', hm', rfl⟩⟩

/-- Only a call that is sent again is seen to be. -/
theorem resentCount_seen (th th' : Dep) : resentCount ip b (seen spec th th') = 0 := by
  refine List.count_eq_zero.mpr fun hmem => ?_
  unfold seen at hmem
  split at hmem
  · simp at hmem
  · split at hmem
    · simp at hmem
    · cases hmem
  · cases hmem

theorem DenialInv.step (hlimit : 0 ≤ spec.limit) {c c' : DenialConfig} {e : Event Call Tick}
    (hinv : DenialInv spec ip b c) (h : (denialSystem spec hz).fire c e = some c') :
    DenialInv spec ip b c' := by
  have hbalance := hinv.balance
  cases e with
  | env e =>
    obtain ⟨s, hs, rfl⟩ := System.fire_env _ h
    cases hs
    exact ⟨hinv.nonneg, hinv.first, hbalance⟩
  | run t call =>
    obtain ⟨th, hth, ⟨ch, m, hm, rfl⟩ | ⟨m, hm, rfl⟩⟩ := fire_denials h
    · have hfair : Fair spec ip b (limitedCount ip b c.history) c.shared th m :=
        fair_step hlimit hm (Int.natCast_nonneg _) hinv.nonneg (hinv.first t th hth)
      refine ⟨hfair.nonneg, forall_set hinv.first hfair.first, ?_⟩
      have hsum := sum_set_of_getElem? (f := Dep.holds spec ip b) m.thread hth
      have hstep := hfair.balance
      have hresent := @resentCount_seen spec ip b th m.thread
      simp only [System.after_threads, System.after_history, System.after_shared, limitedCount,
        enteredCount, resentCount, List.count_append, Int.natCast_add] at hstep hbalance hresent ⊢
      rw [Int.add_comm ((seen spec th m.thread).count _ : Int)]
      omega
    · obtain ⟨hthread, hnonneg, hentered, hlimited, hgranted⟩ :=
        @fair_resend spec ip b (limitedCount ip b c.history) _ _ hz m hlimit hinv.nonneg hm
      refine ⟨hnonneg, forall_set hinv.first (hthread ▸ hinv.first t th hth), ?_⟩
      have hsum := sum_set_of_getElem? (f := Dep.holds spec ip b) m.thread hth
      rw [hthread] at hsum
      have hdenied : limitedCount ip b (m.obs ++ c.history) = limitedCount ip b c.history := by
        rw [limitedCount, List.count_append, ← limitedCount, hlimited, Nat.zero_add, limitedCount]
      have hcame : enteredCount ip b (m.obs ++ c.history) = enteredCount ip b c.history := by
        rw [enteredCount, List.count_append, ← enteredCount, hentered, Nat.zero_add, enteredCount]
      have hresent : resentCount ip b (m.obs ++ c.history)
          = resentCount ip b m.obs + resentCount ip b c.history := List.count_append
      simp only [System.after_threads, System.after_history, System.after_shared, hdenied, hcame,
        hresent, hthread, Int.natCast_add]
      omega

/-- Who is denied has the limit of others before it. -/
theorem DenialInv.denied {c : DenialConfig} (hinv : DenialInv spec ip b c) :
    limitedCount ip b c.history = 0 ∨ spec.limit + limitedCount ip b c.history ≤
      enteredCount ip b c.history + resentCount ip b c.history := by
  have hheld : 0 ≤ (c.threads.map (Dep.holds spec ip b)).sum := by
    refine List.sum_nonneg fun n hn => ?_
    obtain ⟨th, -, rfl⟩ := List.mem_map.mp hn
    exact holds_nonneg th
  have hbalance := hinv.balance
  unfold granted at hbalance
  split at hbalance
  · exact Or.inr (by omega)
  · exact Or.inl (by omega)

end Denials

/--
**Nobody is denied early**, whatever fails, expires or is cut off: where requests of an address are
told that they are over the limit, at least the limit of others have come in their window, where an
`INCR` that is sent again counts once more.
-/
theorem no_early_denial (spec : RateLimitSpec) (hlimit : 0 ≤ spec.limit) (hz : Nat) (ip : Str)
    (b : Int) (s : Shared) (hnew : s.redis.lookup (bucketKey spec.name ip b) = none)
    (deps : List Dep) (hfresh : ∀ th ∈ deps, th.Fresh) (es : List (Event Call Tick))
    (c : DenialConfig) (h : (denialSystem spec hz).exec (.start s deps) es = some c) :
    limitedCount ip b c.history = 0 ∨ spec.limit + limitedCount ip b c.history ≤
      enteredCount ip b c.history + resentCount ip b c.history :=
  DenialInv.denied <| System.exec_invariant _ (fun _ _ _ hc he => hc.step hlimit he) es
    (denialInv_start hlimit hfresh hnew) h

/-- The next call of request `t` is answered. -/
def answered (t : Nat) : Event Call Tick := .run t (.once .go)

/-- Two requests in the third minute; the second is one too many. -/
def oneTooMany : List (Event Call Tick) :=
  [answered 0, answered 0, answered 0, answered 1, answered 1]

theorem no_early_denial_oneTooMany : ∃ c,
    (denialSystem perMinute 1000).exec (.start { redis := ∅, ticks := 125000 }
        [.enter fromHome, .enter fromHome]) oneTooMany = some c ∧
      limitedCount "10.0.0.7".toList 2 c.history = 1 ∧
      2 ≤ enteredCount "10.0.0.7".toList 2 c.history := by
  have hrun : ∃ c, (denialSystem perMinute 1000).exec (.start { redis := ∅, ticks := 125000 }
      [.enter fromHome, .enter fromHome]) oneTooMany = some c ∧
        limitedCount "10.0.0.7".toList 2 c.history = 1 ∧
          resentCount "10.0.0.7".toList 2 c.history = 0 := ⟨_, rfl, rfl, rfl⟩
  obtain ⟨c, hc, hlimited, hresent⟩ := hrun
  refine ⟨c, hc, hlimited, ?_⟩
  have hfresh : ∀ th ∈ [Dep.enter fromHome, Dep.enter fromHome], th.Fresh := by
    intro th hth
    simp only [List.mem_cons, List.not_mem_nil, or_false, or_self] at hth
    rw [hth]
    exact .enter fromHome
  have hlimit : perMinute.limit = 1 := rfl
  rcases no_early_denial perMinute (by decide) 1000 "10.0.0.7".toList 2
    { redis := ∅, ticks := 125000 } rfl _ hfresh oneTooMany c hc with hzero | hmany
  · omega
  · omega

/-! ## A client that changes its address -/

/-- The address that a request is counted under. -/
def addressOf (r : Request) : Str := (orNone (getRealIp r)).getD "unknown".toList

section Addresses

variable {spec : RateLimitSpec} {hz : Nat}

/-- A request of this address that has not read the clock. -/
def Dep.waits (ip : Str) : Dep → Int
  | .enter r => if addressOf r = ip then 1 else 0
  | _ => 0

theorem waits_nonneg (ip : Str) (th : Dep) : 0 ≤ th.waits ip := by
  cases th with
  | enter r =>
    rw [Dep.waits]
    split
    · omega
    · omega
  | _ => exact Int.le_refl 0

/-- It has been counted, or will not be any more. -/
def Dep.Counted : Dep → Prop
  | .enter _ | .incr _ _ => False
  | _ => True

theorem counted_decide (s : Shared) (ip : Str) (now n : Int) :
    (decideStep spec s ip now n).thread.Counted := by
  unfold decideStep
  split
  · trivial
  · trivial

theorem counted_incr (s : Shared) (ip : Str) (now : Int) (ch : Choice) :
    (incrStep spec s ip now ch).thread.Counted := by
  cases ch with
  | go =>
    simp only [incrStep]
    split
    · trivial
    · simp only [answeredStep, toInt]
      split
      · split
        · trivial
        · trivial
      · exact counted_decide _ _ _ _
  | redisError effect | otherError effect =>
    simp only [incrStep]
    split
    · trivial
    · trivial

/-- A request reads the clock first, and is counted then. -/
theorem step_window {s : Shared} {t : Nat} {th : Dep} {ch : Choice} {m : RateMove}
    (h : (rateSystem spec hz).step s t th ch = some m) :
    (∃ r, th = .enter r ∧
        (m.thread = .raised ∨ m.thread = .incr (addressOf r) (seconds hz s.ticks))) ∨
      (∃ w, th.window spec = some w ∧ m.thread.Counted) := by
  cases th with
  | enter r =>
    cases h
    refine Or.inl ⟨r, rfl, ?_⟩
    unfold enterStep
    simp only
    split
    · exact Or.inl rfl
    · exact Or.inr rfl
  | incr ip now =>
    cases h
    exact Or.inr ⟨_, rfl, counted_incr s ip now ch⟩
  | expire ip now n =>
    cases h
    refine Or.inr ⟨_, rfl, ?_⟩
    cases ch with
    | go => exact counted_decide _ _ _ _
    | redisError effect | otherError effect => trivial
  | delete ip now n =>
    cases h
    refine Or.inr ⟨_, rfl, ?_⟩
    cases ch with
    | go => exact counted_decide _ _ _ _
    | redisError effect | otherError effect => trivial
  | passed => cases h
  | refused e => cases h
  | raised => cases h

/-- A step that brings a request into a window takes it from those that wait. -/
theorem waits_step {s : Shared} {t : Nat} {th : Dep} {ch : Choice} {m : RateMove}
    (h : (rateSystem spec hz).step s t th ch = some m) (ip : Str) (b : Int) :
    m.thread.waits ip + enteredCount ip b (seen spec th m.thread) ≤ th.waits ip := by
  rcases step_window h with ⟨r, rfl, hth | hth⟩ | ⟨w, hw, hcounted⟩
  · rw [hth]
    simp only [Dep.waits, seen, enteredCount, List.count_nil, Int.natCast_zero]
    split
    · omega
    · omega
  · rw [hth]
    simp only [Dep.waits, seen, enteredCount, List.count_singleton, Int.zero_add]
    by_cases haddress : addressOf r = ip
    · rw [if_pos haddress]
      split
      · exact Int.le_refl _
      · omega
    · have hne : (Seen.entered (addressOf r) (bucket spec (seconds hz s.ticks)) ==
          Seen.entered ip b) = false := by
        simp [haddress]
      simp [hne, haddress]
  · -- it has been counted, and does not come a second time
    have hnone : ∀ (b : Int), Seen.entered ip b ∉ seen spec th m.thread := by
      intro b hmem
      cases hm : m.thread with
      | incr ip' now =>
        rw [hm] at hcounted
        exact hcounted
      | refused e =>
        rw [hm] at hmem
        simp only [seen] at hmem
        split at hmem
        · simp at hmem
        · cases hmem
      | _ =>
        rw [hm] at hmem
        cases hmem
    have hzero : m.thread.waits ip = 0 := by
      cases hm : m.thread with
      | enter r =>
        rw [hm] at hcounted
        exact absurd hcounted id
      | _ => rfl
    rw [hzero, enteredCount, List.count_eq_zero.mpr (hnone b)]
    exact waits_nonneg ip th

/-- A request that is denied is seen to be. -/
theorem seen_of_refused {s : Shared} {t : Nat} {th : Dep} {ch : Choice} {m : RateMove}
    (h : (rateSystem spec hz).step s t th ch = some m)
    (hrefused : m.thread = .refused (rateLimited spec)) :
    ∃ ip b, Seen.limited ip b ∈ seen spec th m.thread := by
  rw [hrefused]
  rcases step_window h with ⟨r, -, hth | hth⟩ | ⟨w, hw, -⟩
  · rw [hrefused] at hth
    cases hth
  · rw [hrefused] at hth
    cases hth
  · exact ⟨w.1, w.2, by simp [seen, hw]⟩

/-- The requests of an address that wait or have come are no more than there were, and who is denied
has been seen. -/
structure ArrivalInv (spec : RateLimitSpec) (sent : Str → Int) (c : DenialConfig) : Prop where
  arrivals : ∀ ip b, (c.threads.map (Dep.waits ip)).sum + enteredCount ip b c.history ≤ sent ip
  refusals : ∀ (t : Nat) (th : Dep), c.threads[t]? = some th → th = .refused (rateLimited spec) →
    ∃ ip b, Seen.limited ip b ∈ c.history

theorem arrivalInv_start (spec : RateLimitSpec) (s : Shared) (reqs : List Request) :
    ArrivalInv spec (fun ip => ((reqs.map Dep.enter).map (Dep.waits ip)).sum)
      (.start s (reqs.map .enter)) where
  arrivals ip b := by simp [enteredCount]
  refusals t th hth hrefused := by
    obtain ⟨r, -, rfl⟩ := List.mem_map.mp (List.mem_of_getElem? hth)
    cases hrefused

/-- Sending a call again changes neither who waits nor who has come. -/
theorem resend_thread {s : Shared} {th : Dep} {m : Move Shared Dep Seen}
    (h : resend spec hz s th = some m) (ip : Str) (b : Int) :
    m.thread = th ∧ th ≠ .refused (rateLimited spec) ∧ enteredCount ip b m.obs = 0 := by
  cases th with
  | incr ip' now =>
    obtain ⟨r, -, rfl⟩ := Option.map_eq_some_iff.mp h
    exact ⟨rfl, Dep.noConfusion, rfl⟩
  | expire ip' now n | delete ip' now n =>
    cases h
    exact ⟨rfl, Dep.noConfusion, rfl⟩
  | enter r => cases h
  | passed => cases h
  | refused e => cases h
  | raised => cases h

theorem ArrivalInv.step {sent : Str → Int} {c c' : DenialConfig} {e : Event Call Tick}
    (hinv : ArrivalInv spec sent c) (h : (denialSystem spec hz).fire c e = some c') :
    ArrivalInv spec sent c' := by
  cases e with
  | env e =>
    obtain ⟨s, hs, rfl⟩ := System.fire_env _ h
    cases hs
    exact ⟨hinv.arrivals, hinv.refusals⟩
  | run t call =>
    obtain ⟨th, hth, ⟨ch, m, hm, rfl⟩ | ⟨m, hm, rfl⟩⟩ := fire_denials h
    · refine ⟨fun ip b => ?_, forall_set (fun i th' hth' hrefused => ?_) fun hrefused => ?_⟩
      · have hsum := sum_set_of_getElem? (f := Dep.waits ip) m.thread hth
        have hbefore := hinv.arrivals ip b
        have hstep := waits_step hm ip b
        simp only [System.after_threads, System.after_history, enteredCount, List.count_append,
          Int.natCast_add] at hbefore hstep ⊢
        omega
      · obtain ⟨ip, b, hseen⟩ := hinv.refusals i th' hth' hrefused
        exact ⟨ip, b, List.mem_append_right _ hseen⟩
      · obtain ⟨ip, b, hseen⟩ := seen_of_refused hm hrefused
        exact ⟨ip, b, List.mem_append_left _ hseen⟩
    · refine ⟨fun ip b => ?_, forall_set (fun i th' hth' hrefused => ?_) fun hrefused => ?_⟩
      · obtain ⟨hthread, -, hentered⟩ := resend_thread hm ip b
        have hsum := sum_set_of_getElem? (f := Dep.waits ip) m.thread hth
        rw [hthread] at hsum
        have hbefore := hinv.arrivals ip b
        simp only [System.after_threads, System.after_history, enteredCount, List.count_append,
          Int.natCast_add, hthread] at hbefore hentered ⊢
        omega
      · obtain ⟨ip, b, hseen⟩ := hinv.refusals i th' hth' hrefused
        exact ⟨ip, b, List.mem_append_right _ hseen⟩
      · obtain ⟨hthread, hnot, -⟩ := resend_thread hm [] 0
        exact absurd (hthread ▸ hrefused) hnot

/-- Of different addresses each is sent at most once. -/
theorem sent_le_one {reqs : List Request} (hdistinct : (reqs.map addressOf).Nodup) (ip : Str) :
    ((reqs.map Dep.enter).map (Dep.waits ip)).sum ≤ 1 := by
  have hcount : ((reqs.map Dep.enter).map (Dep.waits ip)).sum = (reqs.map addressOf).count ip := by
    clear hdistinct
    induction reqs with
    | nil => rfl
    | cons r reqs ih =>
      simp only [List.map_cons, List.sum_cons, ih, List.count_cons, Dep.waits, Int.natCast_add]
      by_cases heq : addressOf r = ip
      · simp [heq, Int.add_comm]
      · simp [heq]
  have hle := List.nodup_iff_count_le_one.mp hdistinct ip
  omega

end Addresses

/--
**A client that changes its address is never denied.**  However many requests there are and however
they are interleaved, when each of them names another address, and no address has an `INCR` sent
again as often as the limit, none is told that it is over the limit; and the address is one that the
client may name itself.
-/
theorem changing_address_passes (spec : RateLimitSpec) (hz : Nat) (s : Shared)
    (hnew : ∀ ip b, s.redis.lookup (bucketKey spec.name ip b) = none)
    (reqs : List Request) (hdistinct : (reqs.map addressOf).Nodup) (es : List (Event Call Tick))
    (c : DenialConfig) (h : (denialSystem spec hz).exec (.start s (reqs.map .enter)) es = some c)
    (hresent : ∀ ip b, resentCount ip b c.history < spec.limit) :
    ∀ th ∈ c.threads, th ≠ .refused (rateLimited spec) := by
  have harrivals : ArrivalInv spec _ c := System.exec_invariant _ (fun _ _ _ hc he => hc.step he) es
    (arrivalInv_start spec s reqs) h
  have hfresh : ∀ th ∈ reqs.map Dep.enter, th.Fresh := by
    intro th hth
    obtain ⟨r, -, rfl⟩ := List.mem_map.mp hth
    exact .enter r
  intro th hth hrefused
  obtain ⟨t, ht⟩ := List.mem_iff_getElem?.mp hth
  obtain ⟨ip, b, hseen⟩ := harrivals.refusals t th ht hrefused
  have hresent := hresent ip b
  have hinv : DenialInv spec ip b c := System.exec_invariant _
    (fun _ _ _ hc he => hc.step (by omega) he) es (denialInv_start (by omega) hfresh (hnew ip b)) h
  have hpos : 0 < limitedCount ip b c.history := List.count_pos_iff.mpr hseen
  have hsent := sent_le_one hdistinct ip
  have hcame := harrivals.arrivals ip b
  have hwaits : 0 ≤ (c.threads.map (Dep.waits ip)).sum := by
    refine List.sum_nonneg fun n hn => ?_
    obtain ⟨th', -, rfl⟩ := List.mem_map.mp hn
    exact waits_nonneg ip th'
  rcases hinv.denied with hzero | hmany
  · omega
  · omega

/-- The same client, under another name. -/
def fromHomeAs (ip : Str) : Request :=
  { fromHome with headers := [("x-forwarded-for".toList, ip)] }

theorem changing_address_passes_twice : ∃ c,
    (denialSystem perMinute 1000).exec (.start { redis := ∅, ticks := 125000 }
        [.enter (fromHomeAs "a".toList), .enter (fromHomeAs "b".toList)])
          [answered 0, answered 0, answered 0, answered 1, answered 1, answered 1] = some c ∧
      ∀ th ∈ c.threads, th ≠ .refused (rateLimited perMinute) := by
  have hrun : ∃ c, (denialSystem perMinute 1000).exec (.start { redis := ∅, ticks := 125000 }
      ([fromHomeAs "a".toList, fromHomeAs "b".toList].map .enter))
        [answered 0, answered 0, answered 0, answered 1, answered 1, answered 1] = some c ∧
          c.history = [.entered "b".toList 2, .entered "a".toList 2] := ⟨_, rfl, rfl⟩
  obtain ⟨c, hc, hhistory⟩ := hrun
  have hresent : ∀ ip b, (resentCount ip b c.history : Int) < perMinute.limit := by
    intro ip b
    rw [hhistory]
    exact Int.zero_lt_one
  exact ⟨c, hc, changing_address_passes perMinute 1000 { redis := ∅, ticks := 125000 }
    (fun _ _ => rfl) [fromHomeAs "a".toList, fromHomeAs "b".toList] (by decide) _ c hc hresent⟩

end EnterpriseAssistant.Api.RateLimit
