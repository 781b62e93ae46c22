import EnterpriseAssistant.Authn.Machine

/-!
# What one step of a handler can do

`Moves` lists the moves of the handlers with everything their guards have established.
`step_moves` is the inversion of the step function; the invariants of the session protocol are
proved by cases on `Moves` and never unfold a handler again.
-/

namespace EnterpriseAssistant.Authn

open Py Core Auth Security Interleaving

variable (env : AuthEnv)

/-- The moves of thread `t` in the shared state `s`. -/
inductive Moves (s : Shared) (t : Nat) : Handler → AuthMove → Prop where
  /-- the handler ends, with an answer or an exception; nothing shared has changed -/
  | ends (h : Handler) (r : Response) : Moves s t h (goOn s (.done r))
  | loginSelected (req : LoginReq) (user : User) (hu : userByEmail s.users req.email = some user)
      (hp : env.verifyPassword req.password user.passwordHash = true) :
      Moves s t (.login req) (goOn s (.loginBump user))
  | loginBumped (user : User) :
      Moves s t (.loginBump user)
        { shared := { s with
            redis := s.redis.insert (keyTokenver user.id) (str (getTokenver s.redis user.id + 1)) }
          thread := .loginStore user (getTokenver s.redis user.id + 1)
          obs := [.bumped t .login user.id (getTokenver s.redis user.id + 1)] }
  | loginIssued (user : User) (tokenVer now : Int) (pair : RefreshTokenPair) (m : AuthMove)
      (hm : issueTokens env s t none user.id tokenVer now pair = some m) :
      Moves s t (.loginStore user tokenVer) m
  | redeemed (refreshToken : Str) (pair : RefreshTokenPair) (val a b : Str) (userId tokenVer : Int)
      (hunpack : unpackRefresh refreshToken = .ok pair)
      (hval : s.redis.lookup (keyRefresh pair.rid) = some val)
      (hmatch : luaMatch val = some (a, b, env.sha256 pair.secret))
      (hu : int? a = some userId) (hv : int? b = some tokenVer) :
      Moves s t (.refresh refreshToken)
        { shared := { s with redis := s.redis.erase (keyRefresh pair.rid) }
          thread := .refreshVer pair userId tokenVer
          obs := [.redeemed t pair userId tokenVer] }
  | refreshCurrent (pair : RefreshTokenPair) (userId tokenVer : Int)
      (hv : tokenVer = getTokenver s.redis userId) :
      Moves s t (.refreshVer pair userId tokenVer)
        { shared := s
          thread := .refreshUser pair userId tokenVer
          obs := [.refreshCurrent t pair userId] }
  | refreshSelected (pair : RefreshTokenPair) (userId tokenVer : Int) :
      Moves s t (.refreshUser pair userId tokenVer) (goOn s (.refreshStore pair userId tokenVer))
  | refreshIssued (parent : RefreshTokenPair) (userId tokenVer now : Int) (pair : RefreshTokenPair)
      (m : AuthMove) (hm : issueTokens env s t (some parent) userId tokenVer now pair = some m) :
      Moves s t (.refreshStore parent userId tokenVer) m
  | accessCurrent (endpoint : Endpoint) (token : AccessClaims) (userId : Int)
      (hsigned : token ∈ s.signed) (hsub : int? token.sub = some userId)
      (hver : token.ver = getTokenver s.redis userId) :
      Moves s t (.currentUser endpoint (some token))
        { shared := s
          thread := .currentUserRow endpoint token userId
          obs := [.accessCurrent t token userId] }
  | accepted (endpoint : Endpoint) (token : AccessClaims) (userId : Int) (user : User)
      (hu : userById s.users userId = some user) :
      Moves s t (.currentUserRow endpoint token userId)
        { shared := s
          thread := endpoint.enter user
          obs := [.accepted t token userId] }
  /-- the `try` block of `logout` has failed, at the token text or in Redis -/
  | logoutPassed (refreshToken : Str) (me : User) :
      Moves s t (.logoutRevoke refreshToken me) (goOn s (.logoutBump me))
  | logoutRevoked (refreshToken : Str) (me : User) (pair : RefreshTokenPair)
      (hunpack : unpackRefresh refreshToken = .ok pair) :
      Moves s t (.logoutRevoke refreshToken me)
        (goOn { s with redis := s.redis.erase (keyRefresh pair.rid) } (.logoutBump me))
  | logoutBumped (me : User) :
      Moves s t (.logoutBump me)
        { shared := { s with
            redis := s.redis.insert (keyTokenver me.id) (str (getTokenver s.redis me.id + 1)) }
          thread := .done .ok
          obs := [.bumped t .logout me.id (getTokenver s.redis me.id + 1)] }

variable {env}

/-! ## Each step function -/

theorem loginStep_moves (s : Shared) (t : Nat) (req : LoginReq) :
    Moves env s t (.login req) (loginStep env s req) := by
  unfold loginStep
  split
  · exact .ends _ _
  · next user hu =>
    split
    · exact .ends _ _
    · split
      · exact .ends _ _
      · next hp => exact .loginSelected req user hu (by simpa using hp)

theorem loginBumpStep_moves (s : Shared) (t : Nat) (user : User) :
    Moves env s t (.loginBump user) (loginBumpStep s t user) := by
  unfold loginBumpStep
  split
  · exact .ends _ _
  · next tokenVer redis hb =>
    obtain ⟨hv, hr⟩ := Redis.incr_spec hb
    rw [hr, hv]
    exact .loginBumped user

theorem refreshStep_moves (s : Shared) (t : Nat) (refreshToken : Str) :
    Moves env s t (.refresh refreshToken) (refreshStep env s t refreshToken) := by
  unfold refreshStep
  split
  · exact .ends _ _
  · next pair hunpack =>
    rcases verifyAndConsumeRefresh_cases env.sha256 s.redis pair with h | h
    · rw [h]
      exact .ends _ _
    · obtain ⟨val, a, b, u, w, hval, hmatch, hu, hw, h⟩ := h
      rw [h]
      exact .redeemed refreshToken pair val a b u w hunpack hval hmatch hu hw

theorem refreshVerStep_moves (s : Shared) (t : Nat) (pair : RefreshTokenPair)
    (userId tokenVer : Int) :
    Moves env s t (.refreshVer pair userId tokenVer)
      (refreshVerStep s t pair userId tokenVer) := by
  unfold refreshVerStep
  split
  · exact .ends _ _
  · next hv => exact .refreshCurrent pair userId tokenVer (by simpa using hv)

theorem refreshUserStep_moves (s : Shared) (t : Nat) (pair : RefreshTokenPair)
    (userId tokenVer : Int) :
    Moves env s t (.refreshUser pair userId tokenVer)
      (refreshUserStep s pair userId tokenVer) := by
  unfold refreshUserStep
  split
  · exact .ends _ _
  · exact .refreshSelected pair userId tokenVer

theorem currentUserStep_moves (s : Shared) (t : Nat) (endpoint : Endpoint) (now : Int)
    (token : Option AccessClaims) :
    Moves env s t (.currentUser endpoint token) (currentUserStep env s t endpoint now token) := by
  cases token with
  | none => exact .ends _ _
  | some token =>
    unfold currentUserStep
    simp only
    split
    · exact .ends _ _
    · next payload hcheck =>
      obtain ⟨hsigned, hsub, hver⟩ := checkToken_spec hcheck
      exact .accessCurrent endpoint token payload.userId hsigned hsub hver

theorem currentUserRowStep_moves (s : Shared) (t : Nat) (endpoint : Endpoint)
    (token : AccessClaims) (userId : Int) :
    Moves env s t (.currentUserRow endpoint token userId)
      (currentUserRowStep s t endpoint token userId) := by
  unfold currentUserRowStep
  split
  · exact .ends _ _
  · next user hu =>
    obtain ⟨hfound, -⟩ := Option.filter_eq_some_iff.mp hu
    exact .accepted endpoint token userId user hfound

theorem logoutRevokeStep_moves (s : Shared) (t : Nat) (refreshToken : Str) (me : User) :
    Moves env s t (.logoutRevoke refreshToken me) (logoutRevokeStep s refreshToken me) := by
  unfold logoutRevokeStep
  split
  · exact .logoutPassed refreshToken me
  · next pair hunpack => exact .logoutRevoked refreshToken me pair hunpack

theorem logoutBumpStep_moves (s : Shared) (t : Nat) (me : User) :
    Moves env s t (.logoutBump me) (logoutBumpStep s t me) := by
  unfold logoutBumpStep
  split
  · exact .ends _ _
  · next tokenVer redis hb =>
    obtain ⟨hv, hr⟩ := Redis.incr_spec hb
    rw [hr, hv]
    exact .logoutBumped me

/-- **Inversion.** Whatever the step function answers is one of the moves. -/
theorem step_moves {s : Shared} {t : Nat} {h : Handler} {ch : Choice} {m : AuthMove}
    (hm : Handler.step env s t h ch = some m) : Moves env s t h m := by
  cases ch with
  | dies =>
    cases h with
    | done r => cases hm
    | _ => cases hm; exact .ends _ _
  | raises =>
    cases h with
    | done r => cases hm
    | logoutRevoke refreshToken me => cases hm; exact .logoutPassed refreshToken me
    | _ => cases hm; exact .ends _ _
  | go now minted =>
    cases h with
    | login req => cases hm; exact loginStep_moves s t req
    | loginBump user => cases hm; exact loginBumpStep_moves s t user
    | loginStore user tokenVer => exact .loginIssued user tokenVer now minted m hm
    | refresh refreshToken => cases hm; exact refreshStep_moves s t refreshToken
    | refreshVer pair u v => cases hm; exact refreshVerStep_moves s t pair u v
    | refreshUser pair u v => cases hm; exact refreshUserStep_moves s t pair u v
    | refreshStore pair u v => exact .refreshIssued pair u v now minted m hm
    | currentUser endpoint token =>
      cases hm
      exact currentUserStep_moves s t endpoint now token
    | currentUserRow endpoint token u =>
      cases hm
      exact currentUserRowStep_moves s t endpoint token u
    | logoutRevoke refreshToken me => cases hm; exact logoutRevokeStep_moves s t refreshToken me
    | logoutBump me => cases hm; exact logoutBumpStep_moves s t me
    | done r => cases hm

theorem issueTokens_eq {s : Shared} {t : Nat} {parent : Option RefreshTokenPair}
    {userId tokenVer now : Int} {pair : RefreshTokenPair} {m : AuthMove}
    (h : issueTokens env s t parent userId tokenVer now pair = some m) :
    pair.rid ∉ s.mintedRids ∧ ∃ access : AccessClaims,
      access.sub = str userId ∧ access.ver = tokenVer ∧
      m = { shared := { s with
              redis := storeRefresh env.sha256 s.redis pair userId tokenVer
              signed := access :: s.signed
              mintedRids := pair.rid :: s.mintedRids }
            thread := .done (.tokens access pair)
            obs := [.issued t parent userId tokenVer access pair] } := by
  unfold issueTokens at h
  split at h
  · cases h
  · next hnew =>
    refine ⟨hnew, createAccessToken env.jwtIssuer userId tokenVer env.accessTokenExpireMinutes now,
      rfl, rfl, ?_⟩
    exact (Option.some.inj h).symm

/-! ## Two summaries -/

def Obs.IsIssue : Obs → Prop
  | .issued .. => True
  | _ => False

/-- The handler holds a credential that it is about to exchange for tokens. -/
def Handler.MayIssue (parent : Option RefreshTokenPair) (u v : Int) : Handler → Prop
  | .loginStore user w => parent = none ∧ user.id = u ∧ w = v
  | .refreshStore p u' v' => parent = some p ∧ u' = u ∧ v' = v
  | _ => False

/-- A move that issues tokens, in full. -/
structure Issues (env : AuthEnv) (s : Shared) (t : Nat) (th : Handler) (m : AuthMove)
    (parent : Option RefreshTokenPair) (u v : Int) (access : AccessClaims)
    (pair : RefreshTokenPair) : Prop where
  may : th.MayIssue parent u v
  new : pair.rid ∉ s.mintedRids
  sub : access.sub = str u
  ver : access.ver = v
  redis : m.shared.redis
    = s.redis.insert (keyRefresh pair.rid) (refreshValue env.sha256 u v pair.secret)
  signed : m.shared.signed = access :: s.signed
  minted : m.shared.mintedRids = pair.rid :: s.mintedRids
  thread : m.thread = .done (.tokens access pair)
  obs : m.obs = [.issued t parent u v access pair]

theorem Issues.history {c : Config Shared Handler Obs} {t : Nat} {th : Handler} {m : AuthMove}
    {parent : Option RefreshTokenPair} {u v : Int} {access : AccessClaims}
    {pair : RefreshTokenPair} (hi : Issues env c.shared t th m parent u v access pair) :
    (System.after c t m).history = .issued t parent u v access pair :: c.history := by
  rw [System.after_history, hi.obs, List.cons_append, List.nil_append]

/-- A refresh entry behind the move is the one it stores or one from before. -/
theorem Issues.lookup_cases {s : Shared} {t : Nat} {th : Handler} {m : AuthMove}
    {parent : Option RefreshTokenPair} {u v : Int} {access : AccessClaims}
    {pair : RefreshTokenPair} (hi : Issues env s t th m parent u v access pair) {rid val : Str}
    (hl : m.shared.redis.lookup (keyRefresh rid) = some val) :
    (rid = pair.rid ∧ val = refreshValue env.sha256 u v pair.secret) ∨
      s.redis.lookup (keyRefresh rid) = some val := by
  rw [hi.redis] at hl
  by_cases hrid : rid = pair.rid
  · subst hrid
    rw [AList.lookup_insert] at hl
    exact Or.inl ⟨rfl, (Option.some.inj hl).symm⟩
  · rw [AList.lookup_insert_ne (fun hk => hrid (keyRefresh_inj.mp hk))] at hl
    exact Or.inr hl

/-- A move issues tokens, or it signs and stores nothing. -/
theorem Moves.issue_cases {s : Shared} {t : Nat} {th : Handler} {m : AuthMove}
    (h : Moves env s t th m) :
    (∃ parent u v access pair, Issues env s t th m parent u v access pair) ∨
      (m.shared.signed = s.signed ∧ m.shared.mintedRids = s.mintedRids ∧
        (∀ rid val, m.shared.redis.lookup (keyRefresh rid) = some val →
          s.redis.lookup (keyRefresh rid) = some val) ∧
        ∀ o ∈ m.obs, ¬o.IsIssue) := by
  have hkeep : ∀ (u n : Int) (rid val : Str),
      (s.redis.insert (keyTokenver u) (str n)).lookup (keyRefresh rid) = some val →
        s.redis.lookup (keyRefresh rid) = some val := by
    intro u n rid val hl
    rwa [AList.lookup_insert_ne (keyRefresh_ne_keyTokenver rid u)] at hl
  cases h with
  | loginIssued user tokenVer now pair _ hm =>
    obtain ⟨hnew, access, hsub, hver, rfl⟩ := issueTokens_eq hm
    exact Or.inl ⟨none, user.id, tokenVer, access, pair,
      ⟨⟨rfl, rfl, rfl⟩, hnew, hsub, hver, rfl, rfl, rfl, rfl, rfl⟩⟩
  | refreshIssued parent u v now pair _ hm =>
    obtain ⟨hnew, access, hsub, hver, rfl⟩ := issueTokens_eq hm
    exact Or.inl ⟨some parent, u, v, access, pair,
      ⟨⟨rfl, rfl, rfl⟩, hnew, hsub, hver, rfl, rfl, rfl, rfl, rfl⟩⟩
  | loginBumped user => exact Or.inr ⟨rfl, rfl, hkeep _ _, by simp [Obs.IsIssue]⟩
  | logoutBumped me => exact Or.inr ⟨rfl, rfl, hkeep _ _, by simp [Obs.IsIssue]⟩
  | redeemed refreshToken pair val a b u v =>
    exact Or.inr ⟨rfl, rfl, fun _ _ hl => Redis.lookup_of_erase hl, by simp [Obs.IsIssue]⟩
  | logoutRevoked refreshToken me pair =>
    exact Or.inr ⟨rfl, rfl, fun _ _ hl => Redis.lookup_of_erase hl, by simp [goOn]⟩
  | ends r => exact Or.inr ⟨rfl, rfl, fun _ _ hl => hl, by simp [goOn]⟩
  | loginSelected req user hu hp => exact Or.inr ⟨rfl, rfl, fun _ _ hl => hl, by simp [goOn]⟩
  | refreshCurrent pair u v =>
    exact Or.inr ⟨rfl, rfl, fun _ _ hl => hl, by simp [Obs.IsIssue]⟩
  | refreshSelected pair u v => exact Or.inr ⟨rfl, rfl, fun _ _ hl => hl, by simp [goOn]⟩
  | accessCurrent endpoint token u =>
    exact Or.inr ⟨rfl, rfl, fun _ _ hl => hl, by simp [Obs.IsIssue]⟩
  | accepted endpoint token u user =>
    exact Or.inr ⟨rfl, rfl, fun _ _ hl => hl, by simp [Obs.IsIssue]⟩
  | logoutPassed refreshToken me => exact Or.inr ⟨rfl, rfl, fun _ _ hl => hl, by simp [goOn]⟩

/-- An event of a run is a move of a thread or something from outside. -/
theorem fire_cases {c c' : Config Shared Handler Obs} {e : Event Choice Outside}
    (h : (authSystem env).fire c e = some c') :
    (∃ t th m, c.threads[t]? = some th ∧ Moves env c.shared t th m ∧
        c' = System.after c t m) ∨
      (∃ rid, c' = { c with shared := { c.shared with
          redis := c.shared.redis.erase (keyRefresh rid) } }) ∨
      ∃ users, c' = { c with shared := { c.shared with users := users } } := by
  cases e with
  | run t ch =>
    obtain ⟨th, m, hth, hm, hc⟩ := System.fire_run _ h
    exact Or.inl ⟨t, th, m, hth, step_moves hm, hc⟩
  | env o =>
    obtain ⟨s, hs, hc⟩ := System.fire_env _ h
    cases o with
    | expire rid =>
      cases hs
      exact Or.inr (Or.inl ⟨rid, hc⟩)
    | setActive userId active =>
      cases hs
      exact Or.inr (Or.inr ⟨_, hc⟩)

end EnterpriseAssistant.Authn
