import EnterpriseAssistant.Lib.PyStr

/-!
# Access tokens

`app/modules/security/jwt.py`.  A token is the claims it carries.  `jwt.encode` and `jwt.decode`
are the library's: signing adds the claims to the signed ones, and decoding accepts nothing that
was not signed, which is what an unforgeable signature gives.
-/

namespace EnterpriseAssistant.Security

open Py

def tokenTypeAccess : Str := "access".toList

/-- The payload of a token: `iss`, `sub`, `ver`, `typ`, `iat` and `exp`. -/
structure AccessClaims where
  iss : Str
  sub : Str
  ver : Int
  typ : Str
  iat : Int
  exp : Int
deriving DecidableEq, Repr

structure TokenPayload where
  userId : Int
  tokenVer : Int
  typ : Str
deriving DecidableEq, Repr

/-- The claims that `create_access_token` signs at time `now`. -/
def createAccessToken (issuer : Str) (userId tokenVer minutes now : Int) : AccessClaims :=
  { iss := issuer, sub := str userId, ver := tokenVer, typ := tokenTypeAccess, iat := now,
    exp := now + 60 * minutes }

/-- `leeway_seconds` of `decode_access_token`. -/
def leewaySeconds : Int := 30

/-- `jwt.decode`: signature, issuer and expiry; `none` is `JWTError`. -/
def jwtDecode (signed : List AccessClaims) (issuer : Str) (now : Int) (token : AccessClaims) :
    Option AccessClaims :=
  if token ∈ signed ∧ token.iss = issuer ∧ now - leewaySeconds ≤ token.exp then some token
  else none

/-- `decode_access_token`; `none` is `ValueError`. -/
def decodeAccessToken (signed : List AccessClaims) (issuer : Str) (now : Int)
    (token : AccessClaims) : Option TokenPayload :=
  match jwtDecode signed issuer now token with
  | none => none
  | some payload =>
    if payload.typ ≠ tokenTypeAccess then none
    else
      match int? payload.sub with
      | none => none
      | some userId =>
        some { userId := userId, tokenVer := payload.ver, typ := tokenTypeAccess }

/-- What is decoded was signed, for the subject and the version it names. -/
theorem decodeAccessToken_spec {signed : List AccessClaims} {issuer : Str} {now : Int}
    {token : AccessClaims} {p : TokenPayload}
    (h : decodeAccessToken signed issuer now token = some p) :
    token ∈ signed ∧ int? token.sub = some p.userId ∧ token.ver = p.tokenVer := by
  unfold decodeAccessToken at h
  split at h
  · cases h
  · next payload hdec =>
    unfold jwtDecode at hdec
    split at hdec
    · next hcond =>
      cases hdec
      split at h
      · cases h
      · split at h
        · cases h
        · next userId hsub =>
          cases h
          exact ⟨hcond.1, hsub, rfl⟩
    · cases hdec

end EnterpriseAssistant.Security
