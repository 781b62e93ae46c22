import EnterpriseAssistant.Authn.RefreshToken
import EnterpriseAssistant.Authn.Versions

/-!
# The life of a session

A login and the refreshes behind it, each with the token of the one before, as a client makes them
that nobody interferes with.  The entry of a token is gone when its time to live is over.

* `answerOf_exec` — such a request is a run of the handlers
* `refresh_alone` — what one refresh leaves behind
* `session_goes_on` — a session goes on for as long as its client refreshes it
* `access_ends` — an access token is found current for so long and no longer
-/

namespace EnterpriseAssistant.Authn

open Py Core Auth Security Interleaving System

variable (env : AuthEnv)

/-! ## Requests one after the other -/

/-- A handler that nothing interleaves with, each of whose calls answers; it makes at most so many. -/
def answerOf (now : Int) (minted : RefreshTokenPair) : Nat → Shared → Handler →
    Option (Shared × Response)
  | 0, s, h =>
    match h with
    | .done response => some (s, response)
    | _ => none
  | calls + 1, s, h =>
    match h with
    | .done response => some (s, response)
    | h => (h.answer env s 0 now minted).bind fun m => answerOf now minted calls m.shared m.thread

/-- The entry of a token is deleted. -/
def Shared.spend (s : Shared) (pair : RefreshTokenPair) : Shared :=
  { s with redis := s.redis.erase (keyRefresh pair.rid) }

/-- A token and the time at which it was stored. -/
abbrev Stored := Int × RefreshTokenPair

/-- `timedelta(days=ttl_days).total_seconds()` -/
def ttlSeconds (ttlDays : Int) : Int := 86400 * ttlDays

/-- What a call at time `now` finds, when its token was stored with a time to live. -/
def Shared.lapse (ttlDays : Int) (s : Shared) (stored : Stored) (now : Int) : Shared :=
  if stored.1 + ttlSeconds ttlDays ≤ now then s.spend stored.2 else s

/-- A client that refreshes its session with the token that it has got last. -/
def refreshAll (ttlDays : Int) : Shared → Stored → List Stored →
    Option (Shared × List (AccessClaims × RefreshTokenPair))
  | s, _, [] => some (s, [])
  | s, stored, (now, minted) :: rest =>
    match answerOf env now minted 4 (s.lapse ttlDays stored now)
        (.refresh (packRefresh stored.2)) with
    | some (s', .tokens access pair) =>
      (refreshAll ttlDays s' (now, pair) rest).map fun r => (r.1, (access, pair) :: r.2)
    | _ => none

/-- Every refresh comes within the time to live of the token before. -/
def Timely (ttlDays : Int) (times : List Int) : Prop :=
  times.IsChain fun t t' => t' < t + ttlSeconds ttlDays

variable {env}

/-- It is a run of the one handler. -/
theorem answerOf_exec {now : Int} {minted : RefreshTokenPair} : ∀ {calls : Nat} {s s' : Shared}
    {h : Handler} {response : Response} {history : List Obs},
    answerOf env now minted calls s h = some (s', response) →
    ∃ n ≤ calls, ∃ history', (authSystem env).exec
      { shared := s, threads := [h], history := history } (List.replicate n (.run 0 (.go now minted)))
        = some { shared := s', threads := [.done response], history := history' }
  | 0, s, s', h, response, history, hanswer => by
    cases h with
    | done r =>
      cases hanswer
      exact ⟨0, Nat.le_refl 0, history, rfl⟩
    | _ => cases hanswer
  | calls + 1, s, s', h, response, history, hanswer => by
    by_cases hdone : ∃ r, h = .done r
    · obtain ⟨r, rfl⟩ := hdone
      cases hanswer
      exact ⟨0, Nat.zero_le _, history, rfl⟩
    · have hstep : Handler.step env s 0 h (.go now minted) = h.answer env s 0 now minted := by
        cases h with
        | done r => exact absurd ⟨r, rfl⟩ hdone
        | _ => rfl
      have hrest : (h.answer env s 0 now minted).bind
          (fun m => answerOf env now minted calls m.shared m.thread) = some (s', response) := by
        cases h with
        | done r => exact absurd ⟨r, rfl⟩ hdone
        | _ => exact hanswer
      obtain ⟨m, hm, hm'⟩ := Option.bind_eq_some_iff.mp hrest
      obtain ⟨n, hn, history', hexec⟩ := @answerOf_exec _ _ _ _ _ m.thread _ (m.obs ++ history) hm'
      refine ⟨n + 1, Nat.succ_le_succ hn, history', ?_⟩
      rw [List.replicate_succ, exec_run _ (m := m) rfl (hstep.trans hm)]
      exact hexec

/-! ## The state of a session -/

/-- What `mint_refresh_token` gives, as `refresh_grammar` says. -/
def TokenForm (pair : RefreshTokenPair) : Prop := UuidForm pair.rid ∧ SecretForm pair.secret

/-- User `u` may go on with `pair` in version `v`. -/
structure Session (env : AuthEnv) (s : Shared) (u v : Int) (pair : RefreshTokenPair) : Prop where
  form : TokenForm pair
  minted : pair.rid ∈ s.mintedRids
  stored : s.redis.lookup (keyRefresh pair.rid) = some (refreshValue env.sha256 u v pair.secret)
  current : getTokenver s.redis u = v
  user_nonneg : 0 ≤ u
  version_nonneg : 0 ≤ v

/-- A token that was given out and has no entry any more. -/
structure Spent (s : Shared) (pair : RefreshTokenPair) : Prop where
  form : TokenForm pair
  minted : pair.rid ∈ s.mintedRids
  gone : s.redis.lookup (keyRefresh pair.rid) = none

/-- The tokens of version `v` that are given out at time `now`. -/
def Shared.issue (env : AuthEnv) (s : Shared) (u v now : Int) (pair : RefreshTokenPair) : Shared :=
  { s with
    redis := storeRefresh env.sha256 s.redis pair u v
    signed := createAccessToken env.jwtIssuer u v env.accessTokenExpireMinutes now :: s.signed
    mintedRids := pair.rid :: s.mintedRids }

theorem issueTokens_new {s : Shared} {t : Nat} {parent : Option RefreshTokenPair}
    {u v now : Int} {pair : RefreshTokenPair} (hnew : pair.rid ∉ s.mintedRids) :
    issueTokens env s t parent u v now pair = some
      { shared := s.issue env u v now pair
        thread := .done (.tokens
          (createAccessToken env.jwtIssuer u v env.accessTokenExpireMinutes now) pair)
        obs := [.issued t parent u v
          (createAccessToken env.jwtIssuer u v env.accessTokenExpireMinutes now) pair] } :=
  if_neg hnew

/-- What is issued in the version that is current may be gone on with. -/
theorem session_issue {s : Shared} {u v : Int} (now : Int) {pair : RefreshTokenPair}
    (hform : TokenForm pair) (hcurrent : getTokenver s.redis u = v) (hu : 0 ≤ u) (hv : 0 ≤ v) :
    Session env (s.issue env u v now pair) u v pair where
  form := hform
  minted := List.mem_cons_self
  stored := AList.lookup_insert _
  current := (getTokenver_insert_refresh _ _ _ _).trans hcurrent
  user_nonneg := hu
  version_nonneg := hv

theorem Spent.issue {s : Shared} {u v now : Int} {pair spent : RefreshTokenPair}
    (h : Spent s spent) (hnew : pair.rid ∉ s.mintedRids) :
    Spent (s.issue env u v now pair) spent where
  form := h.form
  minted := List.mem_cons_of_mem _ h.minted
  gone := by
    have hne : keyRefresh spent.rid ≠ keyRefresh pair.rid := by
      intro heq
      exact hnew (keyRefresh_inj.mp heq ▸ h.minted)
    rw [← h.gone]
    exact AList.lookup_insert_ne hne

theorem Session.spend {s : Shared} {u v : Int} {pair : RefreshTokenPair}
    (h : Session env s u v pair) : Spent (s.spend pair) pair where
  form := h.form
  minted := h.minted
  gone := AList.lookup_erase _ _

theorem Spent.spend {s : Shared} {spent : RefreshTokenPair} (h : Spent s spent)
    (pair : RefreshTokenPair) : Spent (s.spend pair) spent where
  form := h.form
  minted := h.minted
  gone := by
    by_cases heq : keyRefresh spent.rid = keyRefresh pair.rid
    · show (s.redis.erase (keyRefresh pair.rid)).lookup _ = none
      rw [heq, AList.lookup_erase]
    · rw [← h.gone]
      exact AList.lookup_erase_ne heq

/-! ## One request -/

/-- What a refresh leaves behind. -/
def Shared.refreshed (env : AuthEnv) (s : Shared) (u v now : Int) (pair minted : RefreshTokenPair) :
    Shared :=
  (s.spend pair).issue env u v now minted

/-- The holder of a session gets the next token. -/
theorem refresh_alone (hsha : ∀ secret, env.sha256 secret ≠ []) {s : Shared} {u v : Int}
    {pair minted : RefreshTokenPair} (h : Session env s u v pair) {user : User}
    (hactive : activeUser s.users u = some user) (now : Int) (hnew : minted.rid ∉ s.mintedRids) :
    answerOf env now minted 4 s (.refresh (packRefresh pair))
      = some (s.refreshed env u v now pair minted,
          .tokens (createAccessToken env.jwtIssuer u v env.accessTokenExpireMinutes now)
            minted) := by
  have hredeem : refreshStep env s 0 (packRefresh pair)
      = { shared := s.spend pair, thread := .refreshVer pair u v, obs := [.redeemed 0 pair u v] } := by
    simp only [refreshStep, unpackRefresh_packRefresh h.form.1 h.form.2,
      verify_stored hsha h.user_nonneg h.version_nonneg h.stored]
    rfl
  have hcurrent : getTokenver (s.spend pair).redis u = v :=
    (getTokenver_erase_refresh _ _ _).trans h.current
  have hver : refreshVerStep (s.spend pair) 0 pair u v
      = { shared := s.spend pair, thread := .refreshUser pair u v,
          obs := [.refreshCurrent 0 pair u] } := by
    simp only [refreshVerStep, hcurrent, ne_eq, not_true_eq_false, if_false]
  have huser : refreshUserStep (s.spend pair) pair u v
      = goOn (s.spend pair) (.refreshStore pair u v) := by
    have hsame : activeUser (s.spend pair).users u = some user := hactive
    simp only [refreshUserStep, hsame]
  have hissue : issueTokens env (s.spend pair) 0 (some pair) u v now minted = _ :=
    issueTokens_new hnew
  simp only [answerOf, Handler.answer, Option.bind_some, hredeem, hver, huser, goOn, hissue,
    Shared.refreshed]

/-- A token that was spent gets nothing, and changes nothing. -/
theorem refresh_spent {s : Shared} {spent : RefreshTokenPair} (h : Spent s spent) (now : Int)
    (minted : RefreshTokenPair) :
    answerOf env now minted 4 s (.refresh (packRefresh spent))
      = some (s, .error (err "auth.refresh_token_invalid")) := by
  have hnone : verifyAndConsumeRefresh env.sha256 s.redis spent = (none, s.redis) := by
    refine verify_none fun val a b hval => ?_
    rw [h.gone] at hval
    cases hval
  have hstep : refreshStep env s 0 (packRefresh spent) = refuse s "auth.refresh_token_invalid" := by
    simp only [refreshStep, unpackRefresh_packRefresh h.form.1 h.form.2, hnone]
  simp only [answerOf, Handler.answer, Option.bind_some, hstep, refuse, goOn]

/-- A token that was issued in the current version is accepted until it expires. -/
theorem me_alone {s : Shared} {u v now : Int} {user : User} {pair : RefreshTokenPair}
    (hsigned : createAccessToken env.jwtIssuer u v env.accessTokenExpireMinutes now ∈ s.signed)
    (hcurrent : getTokenver s.redis u = v) (hactive : activeUser s.users u = some user)
    {later : Int}
    (hexp : later ≤ now + 60 * env.accessTokenExpireMinutes + leewaySeconds) :
    answerOf env later pair 2 s (.currentUser .me
        (some (createAccessToken env.jwtIssuer u v env.accessTokenExpireMinutes now)))
      = some (s, .me user) := by
  have hdecode : decodeAccessToken s.signed env.jwtIssuer later
      (createAccessToken env.jwtIssuer u v env.accessTokenExpireMinutes now)
        = some { userId := u, tokenVer := v, typ := tokenTypeAccess } := by
    have hjwt : jwtDecode s.signed env.jwtIssuer later
        (createAccessToken env.jwtIssuer u v env.accessTokenExpireMinutes now)
          = some (createAccessToken env.jwtIssuer u v env.accessTokenExpireMinutes now) :=
      if_pos ⟨hsigned, rfl, by simp only [createAccessToken]; omega⟩
    rw [decodeAccessToken, hjwt]
    simp [createAccessToken, int?_str]
  have hcheck : checkToken s.signed env.jwtIssuer later s.redis
      (createAccessToken env.jwtIssuer u v env.accessTokenExpireMinutes now)
        = .ok { userId := u, tokenVer := v, typ := tokenTypeAccess } := by
    simp [checkToken, hdecode, hcurrent]
  simp only [answerOf, Handler.answer, currentUserStep, hcheck, Option.bind_some,
    currentUserRowStep, hactive, Endpoint.enter]

/-! ## The login -/

/-- The version of a user is counted up. -/
def Shared.bump (s : Shared) (u : Int) : Shared :=
  { s with redis := s.redis.insert (keyTokenver u) (str (getTokenver s.redis u + 1)) }

/-- Inversion of a login that was answered with tokens. -/
theorem login_spec {s s' : Shared} {now : Int} {req : LoginReq} {access : AccessClaims}
    {pair pair' : RefreshTokenPair}
    (h : answerOf env now pair 3 s (.login req) = some (s', .tokens access pair')) :
    ∃ user, userByEmail s.users req.email = some user ∧ user.isActive = true ∧
      pair.rid ∉ s.mintedRids ∧ pair' = pair ∧
      access = createAccessToken env.jwtIssuer user.id (getTokenver s.redis user.id + 1)
        env.accessTokenExpireMinutes now ∧
      s' = (s.bump user.id).issue env user.id (getTokenver s.redis user.id + 1) now pair := by
  simp only [answerOf, Handler.answer, Option.bind_some, loginStep] at h
  cases huser : userByEmail s.users req.email with
  | none => simp [huser, refuse, goOn] at h
  | some user =>
    simp only [huser] at h
    by_cases hactive : user.isActive = true
    swap
    · simp [hactive, refuse, goOn] at h
    by_cases hpassword : env.verifyPassword req.password user.passwordHash = true
    swap
    · simp [hactive, hpassword, refuse, goOn] at h
    simp only [hactive, hpassword, Bool.not_true, Bool.false_eq_true, if_false, goOn,
      loginBumpStep] at h
    cases hbump : bumpTokenver s.redis user.id with
    | none => simp [hbump] at h
    | some bumped =>
      obtain ⟨hver, hredis⟩ := Redis.incr_spec hbump
      simp only [hbump] at h
      by_cases hnew : pair.rid ∈ s.mintedRids
      · simp [issueTokens, hnew] at h
      · simp only [issueTokens, hnew, if_false, Option.bind_some, Option.some.injEq,
          Prod.mk.injEq, Response.tokens.injEq] at h
        obtain ⟨rfl, rfl, rfl⟩ := h
        rw [hredis, hver]
        exact ⟨user, rfl, hactive, hnew, rfl, rfl, rfl⟩

/-- A version is not negative, for it counts. -/
theorem getTokenver_nonneg {c : Config Shared Handler Obs} (h : Reachable env c) (u : Int) :
    0 ≤ getTokenver c.shared.redis u := by
  obtain ⟨users, requests, es, -, hexec⟩ := h
  refine System.exec_invariant (I := fun c => ∀ u, 0 ≤ getTokenver c.shared.redis u) _ ?_ es ?_
    hexec u
  · intro c e c' hnonneg hfire u
    rcases fire_cases hfire with ⟨t, th, m, -, hm, rfl⟩ | ⟨rid, rfl⟩ | ⟨users, rfl⟩
    · rw [System.after_shared]
      rcases hm.version_cases with ⟨who, u', -, hredis⟩ | ⟨hsame, -⟩
      · have hu' := hnonneg u'
        rw [hredis]
        by_cases hu : u = u'
        · rw [hu, getTokenver_insert_self]
          omega
        · rw [getTokenver_insert_ne _ _ hu]
          exact hnonneg u
      · rw [hsame]
        exact hnonneg u
    · simp only [getTokenver_erase_refresh]
      exact hnonneg u
    · exact hnonneg u
  · intro u
    exact Int.le_refl 0

theorem activeUser_of_nodup {users : List User} (hnodup : (users.map fun u => u.id).Nodup)
    {user : User} (hmem : user ∈ users) (hactive : user.isActive = true) :
    activeUser users user.id = some user := by
  have hfind : userById users user.id = some user := by
    cases hfound : userById users user.id with
    | none => simpa using List.find?_eq_none.mp hfound user hmem
    | some other =>
      have hid : other.id = user.id := by simpa using List.find?_some hfound
      rw [List.inj_on_of_nodup_map hnodup (List.mem_of_find?_eq_some hfound) hmem hid]
  simp [activeUser, hfind, hactive]

/-! ## The run -/

/-- Pairs that the generator gives from here on. -/
structure Mints (s : Shared) (mints : List (Int × RefreshTokenPair)) : Prop where
  forms : ∀ m ∈ mints, TokenForm m.2
  nodup : (mints.map fun m => m.2.rid).Nodup
  new : ∀ m ∈ mints, m.2.rid ∉ s.mintedRids

/-- A session with all that was issued in it: the tokens before `pair` and the access tokens. -/
structure Ongoing (env : AuthEnv) (s : Shared) (u v : Int) (pair : RefreshTokenPair)
    (older : List RefreshTokenPair) (tokens : List AccessClaims) : Prop where
  session : Session env s u v pair
  spent : ∀ p ∈ older, Spent s p
  signed : ∀ token ∈ tokens, token ∈ s.signed ∧
    ∃ now, token = createAccessToken env.jwtIssuer u v env.accessTokenExpireMinutes now

theorem Mints.tail {s : Shared} {u v now : Int} {pair minted : RefreshTokenPair}
    {mints : List (Int × RefreshTokenPair)} (h : Mints s ((now, minted) :: mints)) :
    Mints (s.refreshed env u v now pair minted) mints where
  forms m hm := h.forms m (List.mem_cons_of_mem _ hm)
  nodup := (List.nodup_cons.mp h.nodup).2
  new m hm hmem := by
    rcases List.mem_cons.mp hmem with heq | hmem
    · exact (List.nodup_cons.mp h.nodup).1 (List.mem_map.mpr ⟨m, hm, heq⟩)
    · exact h.new m (List.mem_cons_of_mem _ hm) hmem

/-- One refresh keeps a session going. -/
theorem Ongoing.refreshed {s : Shared} {u v now : Int} {pair minted : RefreshTokenPair}
    {older : List RefreshTokenPair} {tokens : List AccessClaims}
    (h : Ongoing env s u v pair older tokens) (hform : TokenForm minted)
    (hnew : minted.rid ∉ s.mintedRids) :
    Ongoing env (s.refreshed env u v now pair minted) u v minted (pair :: older)
      (createAccessToken env.jwtIssuer u v env.accessTokenExpireMinutes now :: tokens) where
  session := by
    refine session_issue now hform ?_ h.session.user_nonneg h.session.version_nonneg
    exact (getTokenver_erase_refresh _ _ _).trans h.session.current
  spent p hp := by
    rcases List.mem_cons.mp hp with rfl | hp
    · exact h.session.spend.issue hnew
    · exact ((h.spent p hp).spend pair).issue hnew
  signed token htoken := by
    rcases List.mem_cons.mp htoken with rfl | htoken
    · exact ⟨List.mem_cons_self, now, rfl⟩
    · exact ⟨List.mem_cons_of_mem _ (h.signed token htoken).1, (h.signed token htoken).2⟩

theorem lapse_of_lt {s : Shared} {ttlDays now : Int} {stored : Stored}
    (h : now < stored.1 + ttlSeconds ttlDays) : s.lapse ttlDays stored now = s :=
  if_neg (Int.not_le.mpr h)

/-- All the refreshes of a client keep its session going. -/
theorem Ongoing.refreshAll (hsha : ∀ secret, env.sha256 secret ≠ []) {u v ttlDays : Int}
    {user : User} :
    ∀ {mints : List Stored} {s : Shared} {stored : Stored} {older : List Stored}
      {tokens : List AccessClaims},
      Ongoing env s u v stored.2 (older.map Prod.snd) tokens → activeUser s.users u = some user →
      Mints s mints → Timely ttlDays (stored.1 :: mints.map Prod.fst) →
      ∃ s' issued last older', refreshAll env ttlDays s stored mints = some (s', issued) ∧
        issued.map Prod.snd = mints.map Prod.snd ∧
        last :: older' = mints.reverse ++ stored :: older ∧
        activeUser s'.users u = some user ∧
        Ongoing env s' u v last.2 (older'.map Prod.snd)
          ((issued.map Prod.fst).reverse ++ tokens)
  | [], s, stored, older, tokens, h, hactive, _, _ =>
    ⟨s, [], stored, older, rfl, rfl, rfl, hactive, h⟩
  | (now, minted) :: mints, s, stored, older, tokens, h, hactive, hmints, htimely => by
    obtain ⟨hnow, hrest⟩ := List.isChain_cons_cons.mp htimely
    have hnew := hmints.new _ List.mem_cons_self
    have hstep := refresh_alone hsha h.session hactive now hnew
    have hnext : Ongoing env (s.refreshed env u v now stored.2 minted) u v (now, minted).2
        ((stored :: older).map Prod.snd)
        (createAccessToken env.jwtIssuer u v env.accessTokenExpireMinutes now :: tokens) :=
      h.refreshed (hmints.forms _ List.mem_cons_self) hnew
    obtain ⟨s', issued, last, older', hall, hissued, hlast, hactive', hongoing⟩ :=
      Ongoing.refreshAll hsha hnext hactive hmints.tail hrest
    refine ⟨s', (createAccessToken env.jwtIssuer u v env.accessTokenExpireMinutes now, minted)
      :: issued, last, older', ?_, by simp [hissued], by simpa using hlast, hactive', ?_⟩
    · simp [Authn.refreshAll, lapse_of_lt hnow, hstep, hall]
    · simpa using hongoing

/-- Whether the last entry has lapsed or not, what else there is of the session has not changed. -/
theorem Ongoing.lapse {s : Shared} {u v : Int} {pair : RefreshTokenPair}
    {older : List RefreshTokenPair} {tokens : List AccessClaims}
    (h : Ongoing env s u v pair older tokens) (ttlDays : Int) (stored : Stored) (now : Int) :
    (∀ p ∈ older, Spent (s.lapse ttlDays stored now) p) ∧
      getTokenver (s.lapse ttlDays stored now).redis u = v ∧
      (s.lapse ttlDays stored now).signed = s.signed ∧
      (s.lapse ttlDays stored now).users = s.users := by
  unfold Shared.lapse
  split
  · refine ⟨fun p hp => (h.spent p hp).spend stored.2, ?_, rfl, rfl⟩
    exact (getTokenver_erase_refresh _ _ _).trans h.session.current
  · exact ⟨h.spent, h.session.current, rfl, rfl⟩

/--
**A session goes on for as long as its client refreshes it.**  From any login that was answered
with tokens, each refresh with the token before it and within its time to live is answered with the
next one; in the end the last token is good for another refresh as long as it lives, every one
before it is refused and changes nothing, and every access token of the session is accepted until it
expires.
-/
theorem session_goes_on (hsha : ∀ secret, env.sha256 secret ≠ [])
    {c : Config Shared Handler Obs} (hreach : Reachable env c)
    (hids : ∀ user ∈ c.shared.users, 0 ≤ user.id)
    (hnodup : (c.shared.users.map fun u => u.id).Nodup)
    {now : Int} {req : LoginReq} {pair : RefreshTokenPair} (hform : TokenForm pair)
    {s : Shared} {access : AccessClaims}
    (hlogin : answerOf env now pair 3 c.shared (.login req) = some (s, .tokens access pair))
    {mints : List Stored} (hmints : Mints s mints) {ttlDays : Int}
    (htimely : Timely ttlDays (now :: mints.map Prod.fst)) :
    ∃ user s' issued last older, userByEmail c.shared.users req.email = some user ∧
      refreshAll env ttlDays s (now, pair) mints = some (s', issued) ∧
      issued.map Prod.snd = mints.map Prod.snd ∧
      last :: older = ((now, pair) :: mints).reverse ∧
      ∀ later minted,
        let found := s'.lapse ttlDays last later
        (minted.rid ∉ s'.mintedRids → later < last.1 + ttlSeconds ttlDays → ∃ s'' token,
          answerOf env later minted 4 found (.refresh (packRefresh last.2))
            = some (s'', .tokens token minted)) ∧
        (∀ spent ∈ older, answerOf env later minted 4 found (.refresh (packRefresh spent.2))
          = some (found, .error (err "auth.refresh_token_invalid"))) ∧
        ∀ token ∈ access :: issued.map Prod.fst, later ≤ token.exp + leewaySeconds →
          answerOf env later minted 2 found (.currentUser .me (some token))
            = some (found, .me user) := by
  obtain ⟨user, huser, hactive, -, -, rfl, rfl⟩ := login_spec hlogin
  have hmem : user ∈ c.shared.users := List.mem_of_find?_eq_some huser
  have hver := getTokenver_nonneg hreach user.id
  have hstart : Ongoing env ((c.shared.bump user.id).issue env user.id
      (getTokenver c.shared.redis user.id + 1) now pair) user.id
      (getTokenver c.shared.redis user.id + 1) (now, pair).2
      (([] : List Stored).map Prod.snd)
      [createAccessToken env.jwtIssuer user.id (getTokenver c.shared.redis user.id + 1)
        env.accessTokenExpireMinutes now] :=
    { session := session_issue now hform (getTokenver_insert_self _ _ _) (hids user hmem) (by omega)
      spent := by simp
      signed := by
        intro token htoken
        rw [List.mem_singleton] at htoken
        rw [htoken]
        exact ⟨List.mem_cons_self, now, rfl⟩ }
  obtain ⟨s', issued, last, older, hall, hissued, hlast, hactive', hongoing⟩ :=
    Ongoing.refreshAll hsha hstart (activeUser_of_nodup hnodup hmem hactive) hmints htimely
  refine ⟨user, s', issued, last, older, huser, hall, hissued, by simpa using hlast,
    fun later minted => ⟨?_, ?_, ?_⟩⟩
  · intro hnew hlives
    rw [lapse_of_lt hlives]
    exact ⟨_, _, refresh_alone hsha hongoing.session hactive' later hnew⟩
  · intro spent hspent
    exact refresh_spent ((hongoing.lapse _ _ _).1 _ (List.mem_map_of_mem hspent)) later minted
  · intro token htoken hexp
    -- a refresh signs for the version of the login, so that its older tokens stay current too
    have htoken' : token ∈ (issued.map Prod.fst).reverse ++
        [createAccessToken env.jwtIssuer user.id (getTokenver c.shared.redis user.id + 1)
          env.accessTokenExpireMinutes now] := by
      simpa [or_comm] using htoken
    obtain ⟨hsigned, issuedAt, rfl⟩ := hongoing.signed token htoken'
    obtain ⟨-, hcurrent, hsame, husers⟩ := hongoing.lapse ttlDays last later
    exact me_alone (hsame ▸ hsigned) hcurrent (husers ▸ hactive') hexp

theorem tokenForm_of_checks {pair : RefreshTokenPair}
    (hrid : hexGroups [8, 4, 4, 4, 12] pair.rid = true)
    (hsecret : (pair.secret ≠ [] ∧ pair.secret.length ≤ 256) ∧ pair.secret.all isSafe = true) :
    TokenForm pair :=
  ⟨(hexGroups_iff 8 [4, 4, 4, 12] _).mp hrid, hsecret.1.1, hsecret.1.2,
    List.all_eq_true.mp hsecret.2⟩

/-- Alice, once she has logged in. -/
def aliceSession : Shared :=
  ((initial [alice]).bump alice.id).issue sampleEnv alice.id 1 1000 firstPair

/-- Alice refreshes once; her first token is refused from then on. -/
theorem session_goes_on_alice :
    ∃ s' issued, refreshAll sampleEnv 14 aliceSession (1000, firstPair) [(1060, secondPair)]
        = some (s', issued) ∧
      answerOf sampleEnv 1100 secondPair 4 s' (.refresh (packRefresh firstPair))
        = some (s', .error (err "auth.refresh_token_invalid")) := by
  have hsha : ∀ secret, sampleEnv.sha256 secret ≠ [] := by
    intro secret
    show sampleSha256 secret ≠ []
    unfold sampleSha256
    split
    · decide
    · split
      · decide
      · exact List.cons_ne_nil _ _
  have hreach : Reachable sampleEnv (Config.start (initial [alice]) []) :=
    ⟨[alice], [], [], by simp, rfl⟩
  have hlogin : answerOf sampleEnv 1000 firstPair 3 (initial [alice])
      (.login { email := alice.email, password := alicePassword })
        = some (aliceSession, .tokens (aliceAccess 1000) firstPair) := by
    rfl
  have hmints : Mints aliceSession [(1060, secondPair)] :=
    { forms := by
        intro m hm
        rw [List.mem_singleton] at hm
        rw [hm]
        exact tokenForm_of_checks (by decide) (by decide)
      nodup := by simp
      new := by
        intro m hm
        rw [List.mem_singleton] at hm
        rw [hm]
        decide }
  have htimely : Timely 14 [1000, 1060] := .cons_cons (by decide) (.singleton _)
  obtain ⟨user, s', issued, last, older, -, hall, -, hlast, hlater⟩ :=
    session_goes_on hsha hreach (by decide) (by decide)
      (tokenForm_of_checks (by decide) (by decide)) hlogin hmints htimely
  obtain ⟨rfl, rfl⟩ : last = (1060, secondPair) ∧ older = [(1000, firstPair)] := by
    simpa using hlast
  have hspent := (hlater 1100 secondPair).2.1 _ List.mem_cons_self
  rw [lapse_of_lt (by decide)] at hspent
  exact ⟨s', issued, hall, hspent⟩

/-! ## How long an access token lasts -/

/-- The token was signed by this call, for the tokens that the event tells of. -/
def SignedBy (env : AuthEnv) (token : AccessClaims) (t : Nat) (now : Int)
    (minted : RefreshTokenPair) (o : Obs) : Prop :=
  ∃ parent u v, o = .issued t parent u v token minted ∧
    token = createAccessToken env.jwtIssuer u v env.accessTokenExpireMinutes now

theorem issueTokens_signedBy {s : Shared} {t : Nat} {parent : Option RefreshTokenPair}
    {u v now : Int} {minted : RefreshTokenPair} {m : AuthMove}
    (hm : issueTokens env s t parent u v now minted = some m) {token : AccessClaims}
    (htoken : token ∈ m.shared.signed) :
    token ∈ s.signed ∨ ∃ o ∈ m.obs, SignedBy env token t now minted o := by
  by_cases hnew : minted.rid ∈ s.mintedRids
  · simp [issueTokens, hnew] at hm
  · rw [issueTokens_new hnew] at hm
    cases hm
    rcases List.mem_cons.mp htoken with rfl | hold
    · exact Or.inr ⟨_, List.mem_cons_self, parent, u, v, rfl, rfl⟩
    · exact Or.inl hold

/-- Only a call that answers signs, at its own time. -/
theorem step_signed {s : Shared} {t : Nat} {h : Handler} {ch : Choice} {m : AuthMove}
    (hm : Handler.step env s t h ch = some m) {token : AccessClaims}
    (htoken : token ∈ m.shared.signed) :
    token ∈ s.signed ∨ ∃ now minted, ch = .go now minted ∧
      ∃ o ∈ m.obs, SignedBy env token t now minted o := by
  rcases (step_moves hm).issue_cases with ⟨parent, u, v, access, pair, hi⟩ | ⟨hsigned, -⟩
  · -- a call that raises or dies is not observed, and no other one than the last issues tokens
    have hobs : m.obs ≠ [] := by simp [hi.obs]
    have hmay := hi.may
    cases ch with
    | dies => cases h <;> cases hm <;> exact absurd rfl hobs
    | raises => cases h <;> cases hm <;> exact absurd rfl hobs
    | go now minted =>
      cases h with
      | loginStore user w =>
        exact (issueTokens_signedBy hm htoken).imp_right fun ho => ⟨now, minted, rfl, ho⟩
      | refreshStore p u' v' =>
        exact (issueTokens_signedBy hm htoken).imp_right fun ho => ⟨now, minted, rfl, ho⟩
      | _ => exact absurd hmay id
  · rw [hsigned] at htoken
    exact Or.inl htoken

/-- A token of a run was signed before it, or at an event of the run. -/
theorem exec_signed : ∀ (es : List (Event Choice Outside)) {c c' : Config Shared Handler Obs},
    (authSystem env).exec c es = some c' → c.history ⊆ c'.history ∧
      ∀ token ∈ c'.shared.signed, token ∈ c.shared.signed ∨
        ∃ t now minted, .run t (.go now minted) ∈ es ∧
          ∃ o ∈ c'.history, SignedBy env token t now minted o
  | [], c, c', h => by
    cases h
    exact ⟨List.Subset.refl _, fun token htoken => Or.inl htoken⟩
  | e :: es, c, c', h => by
    simp only [System.exec] at h
    split at h
    · cases h
    next c₁ he =>
    obtain ⟨hsub, hrest⟩ := exec_signed es h
    have hfirst : c.history ⊆ c₁.history ∧ ∀ token ∈ c₁.shared.signed,
        token ∈ c.shared.signed ∨ ∃ t now minted, e = .run t (.go now minted) ∧
          ∃ o ∈ c₁.history, SignedBy env token t now minted o := by
      cases e with
      | run t ch =>
        obtain ⟨th, m, -, hm, rfl⟩ := System.fire_run _ he
        refine ⟨List.subset_append_right _ _, fun token htoken => ?_⟩
        refine (step_signed hm htoken).imp_right ?_
        rintro ⟨now, minted, rfl, o, ho, hsigned⟩
        exact ⟨t, now, minted, rfl, o, List.mem_append_left _ ho, hsigned⟩
      | env outside =>
        obtain ⟨s, hs, rfl⟩ := System.fire_env _ he
        refine ⟨List.Subset.refl _, fun token htoken => Or.inl ?_⟩
        cases outside with
        | expire rid =>
          cases hs
          exact htoken
        | setActive userId active =>
          cases hs
          exact htoken
    refine ⟨List.Subset.trans hfirst.1 hsub, fun token htoken => ?_⟩
    rcases hrest token htoken with hmid | ⟨t, now, minted, hmem, ho⟩
    · rcases hfirst.2 token hmid with hold | ⟨t, now, minted, rfl, o, ho, hsigned⟩
      · exact Or.inl hold
      · exact Or.inr ⟨t, now, minted, List.mem_cons_self, o, hsub ho, hsigned⟩
    · exact Or.inr ⟨t, now, minted, List.mem_cons_of_mem _ hmem, ho⟩

/-- A check that finds a token current finds it signed and in time. -/
theorem currentUserStep_current {s : Shared} {t : Nat} {endpoint : Endpoint} {now u : Int}
    {presented : Option AccessClaims} {token : AccessClaims}
    (h : (currentUserStep env s t endpoint now presented).obs = [.accessCurrent t token u]) :
    token ∈ s.signed ∧ now - leewaySeconds ≤ token.exp := by
  cases presented with
  | none => cases h
  | some presented =>
    unfold currentUserStep at h
    simp only at h
    split at h
    · cases h
    next payload hcheck =>
    cases h
    obtain ⟨hsigned, -, -⟩ := checkToken_spec hcheck
    refine ⟨hsigned, ?_⟩
    by_contra hlate
    have hdecode : decodeAccessToken s.signed env.jwtIssuer now token = none := by
      have hjwt : jwtDecode s.signed env.jwtIssuer now token = none :=
        if_neg fun hall => hlate hall.2.2
      rw [decodeAccessToken, hjwt]
    rw [checkToken, hdecode] at hcheck
    cases hcheck

/-- No other handler makes this observation. -/
theorem step_accessCurrent {s : Shared} {t : Nat} {h : Handler} {now u : Int}
    {minted : RefreshTokenPair} {m : AuthMove} {token : AccessClaims}
    (hm : Handler.step env s t h (.go now minted) = some m)
    (hobs : m.obs = [.accessCurrent t token u]) :
    token ∈ s.signed ∧ now - leewaySeconds ≤ token.exp := by
  cases h with
  | currentUser endpoint presented =>
    cases hm
    exact currentUserStep_current hobs
  | done r => cases hm
  | loginStore user v =>
    obtain ⟨-, access, -, -, rfl⟩ := issueTokens_eq hm
    cases hobs
  | refreshStore parent v w =>
    obtain ⟨-, access, -, -, rfl⟩ := issueTokens_eq hm
    cases hobs
  | _ =>
    cases step_moves hm with
    | _ => cases hobs

/--
**An access token is found current for so long and no longer.**  Where a call of a run finds one
current, a login or a refresh of the same run has issued it, at most the life of a token and the
leeway before.
-/
theorem access_ends {users : List User} {requests : List Handler}
    {es : List (Event Choice Outside)} {c c' : Config Shared Handler Obs} {t : Nat} {now u : Int}
    {minted : RefreshTokenPair} {token : AccessClaims}
    (hrun : (authSystem env).exec (Config.start (initial users) requests) es = some c)
    (hcall : (authSystem env).fire c (.run t (.go now minted)) = some c')
    (hcurrent : c'.history = .accessCurrent t token u :: c.history) :
    ∃ issuer issuedAt pair, .run issuer (.go issuedAt pair) ∈ es ∧
      (∃ o ∈ c.history, SignedBy env token issuer issuedAt pair o) ∧
      now ≤ issuedAt + 60 * env.accessTokenExpireMinutes + leewaySeconds := by
  obtain ⟨th, m, -, hm, rfl⟩ := System.fire_run _ hcall
  have hobs : m.obs = [.accessCurrent t token u] := by
    rw [System.after_history] at hcurrent
    exact List.append_cancel_right hcurrent
  obtain ⟨hsigned, hexp⟩ := step_accessCurrent hm hobs
  rcases (exec_signed es hrun).2 token hsigned with hstart | ⟨issuer, issuedAt, pair, hmem, ho⟩
  · exact absurd hstart List.not_mem_nil
  · refine ⟨issuer, issuedAt, pair, hmem, ho, ?_⟩
    obtain ⟨o, -, parent, u', v', -, rfl⟩ := ho
    simp only [createAccessToken] at hexp
    omega

/-- The token of the login, just before its end. -/
theorem access_ends_alice :
    ∃ issuer issuedAt pair, .run issuer (.go issuedAt pair) ∈
        [call 0 1000, call 0 1000, call 0 1000] ∧
      2830 ≤ issuedAt + 60 * sampleEnv.accessTokenExpireMinutes + leewaySeconds := by
  obtain ⟨c, c', hrun, hcall, hcurrent⟩ : ∃ c c', (authSystem sampleEnv).exec
      (Config.start (initial [alice]) [.login { email := alice.email, password := alicePassword },
        .currentUser .me (some (aliceAccess 1000))]) [call 0 1000, call 0 1000, call 0 1000]
        = some c ∧
      (authSystem sampleEnv).fire c (.run 1 (.go 2830 firstPair)) = some c' ∧
      c'.history = .accessCurrent 1 (aliceAccess 1000) alice.id :: c.history :=
    ⟨_, _, rfl, rfl, rfl⟩
  obtain ⟨issuer, issuedAt, pair, hmem, -, hle⟩ := access_ends hrun hcall hcurrent
  exact ⟨issuer, issuedAt, pair, hmem, hle⟩

end EnterpriseAssistant.Authn
