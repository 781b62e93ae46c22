import EnterpriseAssistant.Authn.Moves

/-!
# Token versions along a run

Every answer of `bump_tokenver` for a user is larger than all before it, so a version names the
bump that produced it: `versions_invariant`.
-/

namespace EnterpriseAssistant.Authn

open Py Core Auth Security Interleaving

variable {env : AuthEnv}

/-- The most recent bump of a user: its handler, its kind and the version it produced. -/
def lastBump (u : Int) : List Obs → Option (Nat × Bumper × Int)
  | [] => none
  | .bumped t who u' v :: h => if u' = u then some (t, who, v) else lastBump u h
  | .issued .. :: h => lastBump u h
  | .redeemed .. :: h => lastBump u h
  | .refreshCurrent .. :: h => lastBump u h
  | .accessCurrent .. :: h => lastBump u h
  | .accepted .. :: h => lastBump u h

def Obs.IsBump : Obs → Prop
  | .bumped .. => True
  | _ => False

theorem lastBump_cons_of_not {o : Obs} (ho : ¬o.IsBump) (u : Int) (h : List Obs) :
    lastBump u (o :: h) = lastBump u h := by
  cases o with
  | bumped t who u' v => exact absurd trivial ho
  | _ => rfl

theorem lastBump_append_of_not {os : List Obs} (hos : ∀ o ∈ os, ¬o.IsBump) (u : Int)
    (h : List Obs) : lastBump u (os ++ h) = lastBump u h := by
  induction os with
  | nil => rfl
  | cons o os ih =>
    rw [List.cons_append, lastBump_cons_of_not (hos o List.mem_cons_self)]
    exact ih fun o ho => hos o (List.mem_cons_of_mem _ ho)

/-- The last bump lies behind a given one, or it is that one. -/
theorem lastBump_append {u : Int} {t t' : Nat} {who who' : Bumper} {w v : Int}
    {since before : List Obs}
    (h : lastBump u (since ++ .bumped t who u w :: before) = some (t', who', v)) :
    .bumped t' who' u v ∈ since ∨ (t' = t ∧ who' = who ∧ v = w) := by
  induction since with
  | nil =>
    simp only [List.nil_append, lastBump, if_true, Option.some.injEq, Prod.mk.injEq] at h
    obtain ⟨rfl, rfl, rfl⟩ := h
    exact Or.inr ⟨rfl, rfl, rfl⟩
  | cons o since ih =>
    rw [List.cons_append] at h
    by_cases ho : o.IsBump
    · cases o with
      | bumped t₀ who₀ u₀ v₀ =>
        simp only [lastBump] at h
        split at h
        · next hu =>
          subst hu
          cases h
          exact Or.inl List.mem_cons_self
        · exact (ih h).imp_left (List.mem_cons_of_mem _)
      | _ => exact absurd ho id
    · rw [lastBump_cons_of_not ho] at h
      exact (ih h).imp_left (List.mem_cons_of_mem _)

/-- A move bumps the version of one user, or it leaves all versions as they are. -/
theorem Moves.version_cases {s : Shared} {t : Nat} {th : Handler} {m : AuthMove}
    (h : Moves env s t th m) :
    (∃ who u, m.obs = [.bumped t who u (getTokenver s.redis u + 1)] ∧
        m.shared.redis
          = s.redis.insert (keyTokenver u) (str (getTokenver s.redis u + 1))) ∨
      ((∀ u, getTokenver m.shared.redis u = getTokenver s.redis u) ∧ ∀ o ∈ m.obs, ¬o.IsBump) := by
  cases h with
  | loginBumped user => exact Or.inl ⟨.login, user.id, rfl, rfl⟩
  | logoutBumped me => exact Or.inl ⟨.logout, me.id, rfl, rfl⟩
  | ends r => exact Or.inr ⟨fun u => rfl, by simp [goOn]⟩
  | loginSelected req user hu hp => exact Or.inr ⟨fun u => rfl, by simp [goOn]⟩
  | loginIssued user tokenVer now pair _ hm =>
    obtain ⟨-, access, -, -, rfl⟩ := issueTokens_eq hm
    exact Or.inr ⟨fun u => getTokenver_insert_refresh _ _ _ u, by simp [Obs.IsBump]⟩
  | redeemed refreshToken pair val a b userId tokenVer =>
    exact Or.inr ⟨fun u => getTokenver_erase_refresh _ _ u, by simp [Obs.IsBump]⟩
  | refreshCurrent pair userId tokenVer => exact Or.inr ⟨fun u => rfl, by simp [Obs.IsBump]⟩
  | refreshSelected pair userId tokenVer => exact Or.inr ⟨fun u => rfl, by simp [goOn]⟩
  | refreshIssued parent userId tokenVer now pair _ hm =>
    obtain ⟨-, access, -, -, rfl⟩ := issueTokens_eq hm
    exact Or.inr ⟨fun u => getTokenver_insert_refresh _ _ _ u, by simp [Obs.IsBump]⟩
  | accessCurrent endpoint token userId => exact Or.inr ⟨fun u => rfl, by simp [Obs.IsBump]⟩
  | accepted endpoint token userId => exact Or.inr ⟨fun u => rfl, by simp [Obs.IsBump]⟩
  | logoutPassed refreshToken me => exact Or.inr ⟨fun u => rfl, by simp [goOn]⟩
  | logoutRevoked refreshToken me pair =>
    exact Or.inr ⟨fun u => getTokenver_erase_refresh _ _ u, by simp [goOn]⟩

/-- A bump produces a larger version than every bump of the user before it. -/
def BumpsIncrease (o : Obs) (earlier : List Obs) : Prop :=
  ∀ t who u w, o = .bumped t who u w → ∀ t' who' v, .bumped t' who' u v ∈ earlier → v < w

/-- The versions handed out so far, and the counters in Redis. -/
structure Versions (c : Config Shared Handler Obs) : Prop where
  /-- the last bump of a user produced the present version, every other a smaller one -/
  answers : ∀ t who u v, .bumped t who u v ∈ c.history →
    (lastBump u c.history = some (t, who, v) ∧ v = getTokenver c.shared.redis u) ∨
      v < getTokenver c.shared.redis u
  increase : Throughout BumpsIncrease c.history

theorem Versions.le {c : Config Shared Handler Obs} (h : Versions c) {t : Nat} {who : Bumper}
    {u v : Int} (hb : .bumped t who u v ∈ c.history) : v ≤ getTokenver c.shared.redis u := by
  rcases h.answers t who u v hb with ⟨-, hv⟩ | hv
  · omega
  · omega

/-- The bump that produced the present version is the last one. -/
theorem Versions.last {c : Config Shared Handler Obs} (h : Versions c) {t : Nat} {who : Bumper}
    {u v : Int} (hb : .bumped t who u v ∈ c.history) (hv : v = getTokenver c.shared.redis u) :
    lastBump u c.history = some (t, who, v) := by
  rcases h.answers t who u v hb with ⟨hl, -⟩ | hlt
  · exact hl
  · omega

/-- No version is produced twice. -/
theorem Versions.unique {c : Config Shared Handler Obs} (h : Versions c) {t t' : Nat}
    {who who' : Bumper} {u v : Int} (hb : .bumped t who u v ∈ c.history)
    (hb' : .bumped t' who' u v ∈ c.history) : t' = t ∧ who' = who := by
  obtain ⟨l₁, l₂, heq⟩ := List.append_of_mem hb
  rw [heq] at hb'
  rcases List.mem_append.mp hb' with hlater | hrest
  · obtain ⟨l₃, l₄, rfl⟩ := List.append_of_mem hlater
    rw [List.append_assoc, List.cons_append] at heq
    have hlt := h.increase _ _ _ heq _ _ _ _ rfl t who v
      (List.mem_append_right _ List.mem_cons_self)
    omega
  · rcases List.mem_cons.mp hrest with hsame | hearlier
    · cases hsame
      exact ⟨rfl, rfl⟩
    · have hlt := h.increase _ _ _ heq _ _ _ _ rfl t' who' v hearlier
      omega

theorem Versions.move {c : Config Shared Handler Obs} (h : Versions c) {t : Nat} {th : Handler}
    {m : AuthMove} (hm : Moves env c.shared t th m) : Versions (System.after c t m) := by
  rcases hm.version_cases with ⟨who, u, hobs, hredis⟩ | ⟨hver, hobs⟩
  · refine ⟨?_, ?_⟩
    · intro t' who' u' v' hb
      simp only [System.after_history, System.after_shared, hobs, hredis] at hb ⊢
      rcases List.mem_cons.mp hb with heq | hb
      · cases heq
        exact Or.inl ⟨by simp [lastBump], (getTokenver_insert_self _ _ _).symm⟩
      · have hle := h.le hb
        by_cases hu : u' = u
        · subst hu
          rw [getTokenver_insert_self]
          exact Or.inr (by omega)
        · rw [getTokenver_insert_ne _ _ hu]
          simp only [List.cons_append, List.nil_append, lastBump, if_neg (Ne.symm hu)]
          exact h.answers t' who' u' v' hb
    · rw [System.after_history, hobs, List.cons_append, List.nil_append]
      refine h.increase.cons ?_
      rintro _ _ _ _ ⟨⟩ t' who' v hb
      have hle := h.le hb
      omega
  · refine ⟨?_, ?_⟩
    · intro t' who' u' v' hb
      simp only [System.after_history, System.after_shared] at hb ⊢
      rw [hver, lastBump_append_of_not hobs]
      rcases List.mem_append.mp hb with hb | hb
      · exact absurd trivial (hobs _ hb)
      · exact h.answers t' who' u' v' hb
    · refine h.increase.append ?_
      rintro o ho _ _ _ _ _ rfl
      exact absurd trivial (hobs _ ho)

theorem Versions.fire {c c' : Config Shared Handler Obs} {e : Event Choice Outside}
    (h : Versions c) (he : (authSystem env).fire c e = some c') : Versions c' := by
  rcases fire_cases he with ⟨t, th, m, -, hm, rfl⟩ | ⟨rid, rfl⟩ | ⟨users, rfl⟩
  · exact h.move hm
  · refine ⟨?_, h.increase⟩
    intro t who u v hb
    simp only [getTokenver_erase_refresh]
    exact h.answers t who u v hb
  · exact ⟨h.answers, h.increase⟩

theorem versions_start (users : List User) (requests : List Handler) :
    Versions (Config.start (initial users) requests) where
  answers := by simp
  increase := throughout_nil _

/-- **A version names its bump**, in every reachable configuration. -/
theorem versions_invariant {c : Config Shared Handler Obs} (h : Reachable env c) : Versions c := by
  obtain ⟨users, requests, es, -, hexec⟩ := h
  exact System.exec_invariant _ (fun c e c' hc he => hc.fire he) es (versions_start users requests)
    hexec

end EnterpriseAssistant.Authn
