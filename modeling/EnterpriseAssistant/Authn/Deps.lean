import EnterpriseAssistant.Infra.App
import EnterpriseAssistant.Security.Jwt
import EnterpriseAssistant.Authn.Service

/-!
# The authenticated user

`get_current_user` of `app/modules/authn/deps.py`, in one piece: with nothing else in between.
-/

namespace EnterpriseAssistant.Authn

open Py Core Auth Audit Security Infra Program SqlSession

/-- What a request presents, and what it is checked against. -/
structure Caller where
  token : Option AccessClaims
  signed : List AccessClaims
  jwtIssuer : Str
  now : Int
  redis : Redis.Keyspace

/-- What `get_current_user` asks of a token: the payload, or the code of the error. -/
def checkToken (signed : List AccessClaims) (issuer : Str) (now : Int) (redis : Redis.Keyspace)
    (token : AccessClaims) : Except String TokenPayload :=
  match decodeAccessToken signed issuer now token with
  | none => .error "auth.access_token_invalid"
  | some payload =>
    if payload.tokenVer ≠ getTokenver redis payload.userId then .error "auth.access_token_expired"
    else .ok payload

theorem checkToken_spec {signed : List AccessClaims} {issuer : Str} {now : Int}
    {redis : Redis.Keyspace} {token : AccessClaims} {payload : TokenPayload}
    (h : checkToken signed issuer now redis token = .ok payload) :
    token ∈ signed ∧ int? token.sub = some payload.userId ∧
      token.ver = getTokenver redis payload.userId := by
  unfold checkToken at h
  split at h
  · cases h
  · next payload' hdec =>
    split at h
    · cases h
    · next hcur =>
      cases h
      obtain ⟨hsigned, hsub, hver⟩ := decodeAccessToken_spec hdec
      exact ⟨hsigned, hsub, hver.trans (by simpa using hcur)⟩

/-- The payload of the caller's token, or the code of the error. -/
def Caller.check (c : Caller) : Except String TokenPayload :=
  match c.token with
  | none => .error "auth.bearer_required"
  | some token => checkToken c.signed c.jwtIssuer c.now c.redis token

/-- The user that a token names is still there and active. -/
def activeUser (users : List User) (userId : Int) : Option User :=
  (userById users userId).filter fun user => user.isActive

/-- The event of a refusal carries the code of the error as its action. -/
def denyCaller {α : Type} (code : String) (userId : Option Int) : App α := do
  record
    { action := code, status := "deny", httpStatus := some 401
      «meta» := some (("where", .str "get_current_user".toList) ::
        (userId.map fun u => ("user_id", MetaVal.int u)).toList) }
  raiseErr code

/-- The user that the event of an expired token names. -/
def Caller.expiredUser (c : Caller) : Option Int :=
  match c.token with
  | none => none
  | some token => (decodeAccessToken c.signed c.jwtIssuer c.now token).map fun p => p.userId

def getCurrentUser (c : Caller) : App User :=
  match c.check with
  | .error code => denyCaller code c.expiredUser
  | .ok payload => do
    let user ← select fun db => activeUser db.users payload.userId
    match user with
    | none => denyCaller "auth.user_inactive" (some payload.userId)
    | some user => do
      setUserId user.id
      pure user

/-- The caller is this user of the database. -/
def Caller.Is (c : Caller) (db : Database) (user : User) : Prop :=
  ∃ payload, c.check = .ok payload ∧ activeUser db.users payload.userId = some user

theorem Caller.Is.unique {c : Caller} {db : Database} {user user' : User} (h : c.Is db user)
    (h' : c.Is db user') : user = user' := by
  obtain ⟨payload, hcheck, hactive⟩ := h
  obtain ⟨payload', hcheck', hactive'⟩ := h'
  rw [hcheck] at hcheck'
  cases hcheck'
  rw [hactive] at hactive'
  cases hactive'
  rfl

/-- `get_current_user` raises without having used the session, or it has made one select. -/
theorem getCurrentUser_cases (c : Caller) (s : AppState) :
    (∃ e s', getCurrentUser c s = (.error e, s') ∧ s'.session.begins = s.session.begins ∧
        ∀ user, ¬c.Is s.session.view user) ∨
      ∃ user s', getCurrentUser c s = (.ok user, s') ∧ c.Is s.session.view user ∧
        s'.session = s.session.seeing s.session.view := by
  unfold getCurrentUser
  cases hcheck : c.check with
  | error code =>
    refine Or.inl ⟨_, _, rfl, rfl, ?_⟩
    rintro user ⟨payload, hok, -⟩
    rw [hcheck] at hok
    cases hok
  | ok payload =>
    simp only [Prog.bind_run, select_run]
    cases huser : activeUser s.session.view.users payload.userId with
    | none =>
      refine Or.inl ⟨_, _, rfl, rfl, ?_⟩
      rintro user ⟨payload', hok, hactive⟩
      rw [hcheck] at hok
      cases hok
      rw [huser] at hactive
      cases hactive
    | some user => exact Or.inr ⟨user, _, rfl, ⟨payload, hcheck, huser⟩, rfl⟩

end EnterpriseAssistant.Authn
