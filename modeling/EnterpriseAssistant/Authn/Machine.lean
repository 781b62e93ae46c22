import EnterpriseAssistant.Lib.Interleaving
import EnterpriseAssistant.Authn.Deps

/-!
# login, refresh, logout and `get_current_user` as interleaved handlers

`app/modules/authn/routes.py` and `app/modules/authn/deps.py`.  A handler is cut at its Redis and
database calls: a constructor of `Handler` is a place where it waits for the next call, with the
local variables that the rest of the handler still reads.  The code between two calls runs with
the call in front of it.

The client supplies any token text.  `uuid.uuid4` never repeats a rid (`mintedRids`), and a
version counter is never evicted, while a refresh entry may expire at any moment.  The audit
calls of the handlers touch nothing that is shared and are left out here.
-/

namespace EnterpriseAssistant.Authn

open Py Core Auth Security Interleaving

/-- The library functions and the settings that the handlers use. -/
structure AuthEnv where
  sha256 : Str → Str
  verifyPassword : Str → Str → Bool
  jwtIssuer : Str
  accessTokenExpireMinutes : Int

structure LoginReq where
  email : Str
  password : Str
deriving DecidableEq, Repr

/-- Redis, the users table, and what the signer and the random generator have given out. -/
structure Shared where
  redis : Redis.Keyspace
  users : List User
  signed : List AccessClaims
  mintedRids : List Str

/-- The endpoint that depends on `get_current_user`. -/
inductive Endpoint where
  | me
  | logout (refreshToken : Str)
deriving DecidableEq, Repr

inductive Response where
  | tokens (access : AccessClaims) (refresh : RefreshTokenPair)
  | ok
  | me (user : User)
  | error (e : AppError)
  /-- an exception that no handler of the application catches -/
  | unhandled
  /-- the request was cancelled or its worker died -/
  | dropped
deriving DecidableEq, Repr

inductive Handler where
  /-- `login`, before its select -/
  | login (req : LoginReq)
  | loginBump (user : User)
  | loginStore (user : User) (tokenVer : Int)
  /-- `refresh`, before `verify_and_consume_refresh` -/
  | refresh (refreshToken : Str)
  | refreshVer (pair : RefreshTokenPair) (userId tokenVer : Int)
  | refreshUser (pair : RefreshTokenPair) (userId tokenVer : Int)
  | refreshStore (pair : RefreshTokenPair) (userId tokenVer : Int)
  /-- `get_current_user`, before `get_tokenver` -/
  | currentUser (endpoint : Endpoint) (token : Option AccessClaims)
  | currentUserRow (endpoint : Endpoint) (token : AccessClaims) (userId : Int)
  /-- `logout`, once its dependency has answered -/
  | logoutRevoke (refreshToken : Str) (me : User)
  | logoutBump (me : User)
  | done (response : Response)
deriving DecidableEq, Repr

/-- A request that has just come in. -/
inductive Handler.Fresh : Handler → Prop where
  | login (req : LoginReq) : Fresh (.login req)
  | refresh (refreshToken : Str) : Fresh (.refresh refreshToken)
  | currentUser (endpoint : Endpoint) (token : Option AccessClaims) :
      Fresh (.currentUser endpoint token)

/-- Who bumped a version. -/
inductive Bumper where
  | login
  | logout
deriving DecidableEq, Repr

inductive Obs where
  /-- `bump_tokenver` answered `tokenVer` -/
  | bumped (t : Nat) (who : Bumper) (userId tokenVer : Int)
  /-- a login (`parent = none`) or a refresh stored `pair` and signed `access` -/
  | issued (t : Nat) (parent : Option RefreshTokenPair) (userId tokenVer : Int)
      (access : AccessClaims) (pair : RefreshTokenPair)
  /-- `verify_and_consume_refresh` answered for this pair -/
  | redeemed (t : Nat) (pair : RefreshTokenPair) (userId tokenVer : Int)
  /-- a refresh passed its version check -/
  | refreshCurrent (t : Nat) (pair : RefreshTokenPair) (userId : Int)
  /-- `get_current_user` read the version and found the token current -/
  | accessCurrent (t : Nat) (token : AccessClaims) (userId : Int)
  /-- `get_current_user` returned the user -/
  | accepted (t : Nat) (token : AccessClaims) (userId : Int)
deriving DecidableEq, Repr

/-- What the environment decides about the next call of a handler. -/
inductive Choice where
  /-- the call answers; the clock, and what `mint_refresh_token` would give -/
  | go (now : Int) (minted : RefreshTokenPair)
  /-- the call raises an `Exception` without having had an effect -/
  | raises
  /-- the request is cancelled or its worker dies -/
  | dies

/-- What happens without a handler. -/
inductive Outside where
  /-- the time to live of a refresh entry has run out -/
  | expire (rid : Str)
  /-- a user is activated or deactivated -/
  | setActive (userId : Int) (active : Bool)

/-! ## The steps -/

abbrev AuthMove := Move Shared Handler Obs

/-- The handler goes on as `h`; nothing shared has changed. -/
def goOn (s : Shared) (h : Handler) : AuthMove := { shared := s, thread := h, obs := [] }

/-- The handler raises an `AppError`. -/
def refuse (s : Shared) (code : String) : AuthMove := goOn s (.done (.error (err code)))

variable (env : AuthEnv)

/-- `create_access_token`, `mint_refresh_token` and `store_refresh`, and the token response. -/
def issueTokens (s : Shared) (t : Nat) (parent : Option RefreshTokenPair)
    (userId tokenVer now : Int) (pair : RefreshTokenPair) : Option AuthMove :=
  -- `uuid.uuid4` gives no rid twice
  if pair.rid ∈ s.mintedRids then none
  else
    let access :=
      createAccessToken env.jwtIssuer userId tokenVer env.accessTokenExpireMinutes now
    some
      { shared :=
          { s with
            redis := storeRefresh env.sha256 s.redis pair userId tokenVer
            signed := access :: s.signed
            mintedRids := pair.rid :: s.mintedRids }
        thread := .done (.tokens access pair)
        obs := [.issued t parent userId tokenVer access pair] }

def loginStep (s : Shared) (req : LoginReq) : AuthMove :=
  match userByEmail s.users req.email with
  | none => refuse s "auth.credentials_invalid"
  | some user =>
    if !user.isActive then refuse s "auth.credentials_invalid"
    else if !env.verifyPassword req.password user.passwordHash then
      refuse s "auth.credentials_invalid"
    else goOn s (.loginBump user)

def loginBumpStep (s : Shared) (t : Nat) (user : User) : AuthMove :=
  match bumpTokenver s.redis user.id with
  | none => goOn s (.done .unhandled)
  | some (tokenVer, redis) =>
    { shared := { s with redis := redis }
      thread := .loginStore user tokenVer
      obs := [.bumped t .login user.id tokenVer] }

def refreshStep (s : Shared) (t : Nat) (refreshToken : Str) : AuthMove :=
  match unpackRefresh refreshToken with
  | .error _ => refuse s "auth.refresh_token_invalid"
  | .ok pair =>
    match verifyAndConsumeRefresh env.sha256 s.redis pair with
    | (none, redis) => refuse { s with redis := redis } "auth.refresh_token_invalid"
    | (some (userId, tokenVer), redis) =>
      -- the entry is spent from here on, also when the version check fails
      { shared := { s with redis := redis }
        thread := .refreshVer pair userId tokenVer
        obs := [.redeemed t pair userId tokenVer] }

def refreshVerStep (s : Shared) (t : Nat) (pair : RefreshTokenPair) (userId tokenVer : Int) :
    AuthMove :=
  if tokenVer ≠ getTokenver s.redis userId then refuse s "auth.refresh_token_expired"
  else
    { shared := s
      thread := .refreshUser pair userId tokenVer
      obs := [.refreshCurrent t pair userId] }

def refreshUserStep (s : Shared) (pair : RefreshTokenPair) (userId tokenVer : Int) : AuthMove :=
  match activeUser s.users userId with
  | none => refuse s "auth.user_inactive"
  | some _ => goOn s (.refreshStore pair userId tokenVer)

def currentUserStep (s : Shared) (t : Nat) (endpoint : Endpoint) (now : Int) :
    Option AccessClaims → AuthMove
  | none => refuse s "auth.bearer_required"
  | some token =>
    match checkToken s.signed env.jwtIssuer now s.redis token with
    | .error code => refuse s code
    | .ok payload =>
      { shared := s
        thread := .currentUserRow endpoint token payload.userId
        obs := [.accessCurrent t token payload.userId] }

/-- What runs once `get_current_user` has returned the user. -/
def Endpoint.enter (user : User) : Endpoint → Handler
  | .me => .done (.me user)
  | .logout refreshToken => .logoutRevoke refreshToken user

def currentUserRowStep (s : Shared) (t : Nat) (endpoint : Endpoint) (token : AccessClaims)
    (userId : Int) : AuthMove :=
  match activeUser s.users userId with
  | none => refuse s "auth.user_inactive"
  | some user =>
    { shared := s
      thread := endpoint.enter user
      obs := [.accepted t token userId] }

/-- The `try` block of `logout`; every exception in it is passed over. -/
def logoutRevokeStep (s : Shared) (refreshToken : Str) (me : User) : AuthMove :=
  match unpackRefresh refreshToken with
  | .error _ => goOn s (.logoutBump me)
  | .ok pair => goOn { s with redis := revokeRefresh s.redis pair.rid } (.logoutBump me)

def logoutBumpStep (s : Shared) (t : Nat) (me : User) : AuthMove :=
  match bumpTokenver s.redis me.id with
  | none => goOn s (.done .unhandled)
  | some (tokenVer, redis) =>
    { shared := { s with redis := redis }
      thread := .done .ok
      obs := [.bumped t .logout me.id tokenVer] }

/-- The next call of a handler answers. -/
def Handler.answer (s : Shared) (t : Nat) (now : Int) (minted : RefreshTokenPair) :
    Handler → Option AuthMove
  | .login req => some (loginStep env s req)
  | .loginBump user => some (loginBumpStep s t user)
  | .loginStore user tokenVer => issueTokens env s t none user.id tokenVer now minted
  | .refresh refreshToken => some (refreshStep env s t refreshToken)
  | .refreshVer pair userId tokenVer => some (refreshVerStep s t pair userId tokenVer)
  | .refreshUser pair userId tokenVer => some (refreshUserStep s pair userId tokenVer)
  | .refreshStore pair userId tokenVer => issueTokens env s t (some pair) userId tokenVer now minted
  | .currentUser endpoint token => some (currentUserStep env s t endpoint now token)
  | .currentUserRow endpoint token userId => some (currentUserRowStep s t endpoint token userId)
  | .logoutRevoke refreshToken me => some (logoutRevokeStep s refreshToken me)
  | .logoutBump me => some (logoutBumpStep s t me)
  | .done _ => none

/-- The next call of a handler raises. -/
def Handler.onRaise : Handler → Handler
  | .logoutRevoke _ me => .logoutBump me
  | _ => .done .unhandled

def Handler.step (s : Shared) (t : Nat) : Handler → Choice → Option AuthMove
  | .done _, _ => none
  | h, .go now minted => h.answer env s t now minted
  | h, .raises => some (goOn s h.onRaise)
  | _, .dies => some (goOn s (.done .dropped))

/-- Something happens outside the handlers. -/
def outsideStep (s : Shared) : Outside → Option Shared
  | .expire rid => some { s with redis := s.redis.erase (keyRefresh rid) }
  | .setActive userId active =>
    some { s with
      users := s.users.map fun u => if u.id = userId then { u with isActive := active } else u }

/-- The handlers over the shared state. -/
def authSystem : System Shared Handler Choice Outside Obs where
  step := Handler.step env
  env := outsideStep

/-- Before the first request: no refresh entry and no version, any users. -/
def initial (users : List User) : Shared :=
  { redis := ∅, users := users, signed := [], mintedRids := [] }

/-- A configuration that some run of some requests reaches. -/
def Reachable (c : Config Shared Handler Obs) : Prop :=
  ∃ users requests es, (∀ h ∈ requests, Handler.Fresh h) ∧
    (authSystem env).exec (Config.start (initial users) requests) es = some c

/-! ## A deployment with one user -/

def alice : User :=
  { id := 7, email := "alice@corp.example".toList
    passwordHash :=
      "$argon2id$v=19$m=65536,t=2,p=1$c29tZXNhbHQ$CTFhFdXPJO1aFaMaO6Mm5c8y7cJHAph8ArZWb2GRPPc".toList
    isActive := true, isSuperadmin := false }

def alicePassword : Str := "password".toList

def firstPair : RefreshTokenPair :=
  { rid := "3f2b8c1e-5d47-4a90-8e36-9b1c0d7a2f58".toList
    secret := "q8Vn3c1XwZ0kTb5yJm2RfL7hPdGa9sEuIo4vCxQzNtYrWlKjHiBgUeSpMvDkAf6-".toList }

def secondPair : RefreshTokenPair :=
  { rid := "a71d04e9-2c83-4f6b-b5d0-6e8f13c94a27".toList
    secret := "Tz5_uKq0VwB8xLr3nYc7HjMd1GpFs6EaXi9oCvRtZbQeWyNkUhJgPlSmOfDkIa2-".toList }

/-- The digests of the two secrets; anything else goes where no digest is. -/
def sampleSha256 (s : Str) : Str :=
  if s = firstPair.secret then
    "ac1fb02b2fdc9f679ce34390a70ab3503b7fb3a5b16bb4038de5a6ea8d99a775".toList
  else if s = secondPair.secret then
    "40263babb884785ee3d8fd723ca5e3bbefbeff6a611804355fde504c10e59928".toList
  else 'x' :: s

def sampleEnv : AuthEnv where
  sha256 := sampleSha256
  verifyPassword raw hashed := raw == alicePassword && hashed == alice.passwordHash
  jwtIssuer := "enterprise-assistant".toList
  accessTokenExpireMinutes := 30

theorem sampleSha256_injective : Function.Injective sampleSha256 := by
  have hx : ∀ d s : Str, d.head? ≠ some 'x' → d ≠ 'x' :: s := by
    rintro _ s hd rfl
    exact hd rfl
  intro a b h
  unfold sampleSha256 at h
  split at h
  · next ha =>
    split at h
    · next hb => rw [ha, hb]
    · split at h
      · exact absurd h (by decide)
      · exact absurd h (hx _ _ (by decide))
  · split at h
    · next ha =>
      split at h
      · exact absurd h (by decide)
      · split at h
        · next hb => rw [ha, hb]
        · exact absurd h (hx _ _ (by decide))
    · split at h
      · exact absurd h.symm (hx _ _ (by decide))
      · split at h
        · exact absurd h.symm (hx _ _ (by decide))
        · exact (List.cons.inj h).2

/-- The access token that Alice gets at time `now` in version 1. -/
def aliceAccess (now : Int) : AccessClaims :=
  createAccessToken sampleEnv.jwtIssuer alice.id 1 sampleEnv.accessTokenExpireMinutes now

/-- The next call of thread `t` answers at time `now`; what is minted is `pair`. -/
def call (t : Nat) (now : Int) (pair : RefreshTokenPair := firstPair) : Event Choice Outside :=
  .run t (.go now pair)

/-- A login, a refresh of its tokens, and a logout that overtakes `GET /me` behind its check. -/
def logoutRace : List Handler × List (Event Choice Outside) :=
  ([.login { email := alice.email, password := alicePassword },
      .refresh (packRefresh firstPair),
      .currentUser .me (some (aliceAccess 1060)),
      .currentUser (.logout (packRefresh secondPair)) (some (aliceAccess 1060))],
    [call 0 1000, call 0 1000, call 0 1000,
      call 1 1060, call 1 1060, call 1 1060, call 1 1060 secondPair,
      call 2 1100,
      call 3 1101, call 3 1101, call 3 1101, call 3 1101,
      call 2 1102])

def logoutRaceHistory : List Obs :=
  [.accepted 2 (aliceAccess 1060) 7, .bumped 3 .logout 7 2,
    .accepted 3 (aliceAccess 1060) 7, .accessCurrent 3 (aliceAccess 1060) 7,
    .accessCurrent 2 (aliceAccess 1060) 7,
    .issued 1 (some firstPair) 7 1 (aliceAccess 1060) secondPair,
    .refreshCurrent 1 firstPair 7, .redeemed 1 firstPair 7 1,
    .issued 0 none 7 1 (aliceAccess 1000) firstPair, .bumped 0 .login 7 1]

theorem logoutRace_reachable : ∃ c, Reachable sampleEnv c ∧ c.history = logoutRaceHistory := by
  have hrun : ((authSystem sampleEnv).exec (Config.start (initial [alice]) logoutRace.1)
      logoutRace.2).map Config.history = some logoutRaceHistory := by
    decide +kernel
  obtain ⟨c, hc, hhist⟩ := Option.map_eq_some_iff.mp hrun
  refine ⟨c, ⟨[alice], logoutRace.1, logoutRace.2, ?_, hc⟩, hhist⟩
  simp only [logoutRace, List.forall_mem_cons, List.not_mem_nil, false_implies, implies_true,
    and_true]
  exact ⟨.login _, .refresh _, .currentUser _ _, .currentUser _ _⟩

end EnterpriseAssistant.Authn
