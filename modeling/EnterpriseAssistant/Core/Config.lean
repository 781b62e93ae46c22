import EnterpriseAssistant.Lib.Program
import EnterpriseAssistant.Lib.PyStr

/-!
# CORS settings

`app/core/config.py`, what `app/main.py` hands to `install_cors`, and
`app/api/startup_checks.py`.

The origins are one string.  The validator and the start-up check compare the whole of it with
`*`; the list for the middleware is made of its items.

* `csv_eq` — the strip of the whole string makes no difference to the items
* `starred_iff` — when `*` is one of them
* `runStartupChecks_cors` — the start-up check finds nothing in settings that are valid
* `installedCors_wildcard_iff` — when credentials meet a wildcard
-/

namespace EnterpriseAssistant.Core

open Py Program

inductive Env where
  | dev
  | prod
  | production
  | staging
deriving DecidableEq, Repr

/-- `Settings`, the fields that are read here. -/
structure Settings where
  env : Env := .dev
  jwtSecret : Str
  corsAllowOrigins : Str := "*".toList
  corsAllowCredentials : Bool := false
  corsAllowMethods : Str := "GET,POST,PUT,PATCH,DELETE,OPTIONS".toList
  corsAllowHeaders : Str := "Authorization,Content-Type,X-Request-Id".toList
deriving DecidableEq, Repr

/-- The test of `_validate_cors`, of `cors_origins_list` and of the start-up check. -/
def Settings.onlyWildcard (s : Settings) : Bool := strip s.corsAllowOrigins == "*".toList

/-- `_validate_cors`; the error is the text of the `ValueError`. -/
def validateCors (s : Settings) : Except String Settings :=
  if s.onlyWildcard && s.corsAllowCredentials then
    .error "CORS_ALLOW_CREDENTIALS cannot be true when CORS_ALLOW_ORIGINS is '*'."
  else .ok s

/-- What the model validator lets through. -/
abbrev ValidSettings := { s : Settings // validateCors s = .ok s }

/-- `_csv` -/
def csv (s : Str) : List Str :=
  let s := strip s
  if s.isEmpty then [] else ((s.splitOn ',').filter fun x => !(strip x).isEmpty).map strip

def Settings.corsOriginsList (s : Settings) : List Str :=
  if s.onlyWildcard then ["*".toList] else csv s.corsAllowOrigins

/-- `l or ["*"]` -/
def orWildcard (l : List Str) : List Str := if l.isEmpty then ["*".toList] else l

def Settings.corsMethodsList (s : Settings) : List Str := orWildcard (csv s.corsAllowMethods)

def Settings.corsHeadersList (s : Settings) : List Str := orWildcard (csv s.corsAllowHeaders)

/-- The arguments of `install_cors`, which are those of `CORSMiddleware`. -/
structure CorsOptions where
  allowOrigins : List Str
  allowCredentials : Bool
  allowMethods : List Str
  allowHeaders : List Str
deriving DecidableEq, Repr

/-- The call of `install_cors` in `app/main.py`. -/
def installedCors (s : Settings) : CorsOptions where
  allowOrigins := s.corsOriginsList
  allowCredentials := s.corsAllowCredentials
  allowMethods := s.corsMethodsList
  allowHeaders := s.corsHeadersList

/-! ## The start-up checks -/

inductive Finding where
  /-- `weak_jwt_secret`, with `min_len` and `env` -/
  | weakJwtSecret (minLen : Nat) (env : Env)
  /-- `cors_invalid_credentials_with_wildcard_origin`, with `env` -/
  | corsInvalidCredentialsWithWildcardOrigin (env : Env)
deriving DecidableEq, Repr

inductive StartupError where
  /-- `RuntimeError(f"{msg}: {extra}")` -/
  | finding (f : Finding)
  /-- `RuntimeError("elasticsearch_ping_failed")` -/
  | elasticsearchPingFailed
  /-- what Redis, the database or Elasticsearch has raised -/
  | service (e : Str)
deriving DecidableEq, Repr

/-- What the three services answer. -/
structure Services where
  redisPing : Except Str Unit
  selectOne : Except Str Unit
  esPing : Except Str Bool

def isProd (s : Settings) : Bool := s.env == .prod || s.env == .production

/-- The warnings that have been logged are the state. -/
abbrev Startup := Prog (List Finding) StartupError

def Startup.report (s : Settings) (f : Finding) : Startup Unit :=
  if isProd s then Prog.raise (.finding f) else Prog.update fun log => log ++ [f]

def Startup.ask {α : Type} (answer : Except Str α) : Startup α :=
  match answer with
  | .ok a => pure a
  | .error e => Prog.raise (.service e)

def jwtCheck (s : Settings) : Startup Unit :=
  if s.jwtSecret.length < 32 then Startup.report s (.weakJwtSecret 32 s.env) else pure ()

def corsCheck (s : Settings) : Startup Unit :=
  if s.corsAllowCredentials && s.onlyWildcard then
    Startup.report s (.corsInvalidCredentialsWithWildcardOrigin s.env)
  else pure ()

def serviceChecks (svc : Services) : Startup Unit := do
  Startup.ask svc.redisPing
  Startup.ask svc.selectOne
  let ok ← Startup.ask svc.esPing
  if ok then pure () else Prog.raise .elasticsearchPingFailed

/-- `run_startup_checks` -/
def runStartupChecks (svc : Services) (s : Settings) : Startup Unit := do
  jwtCheck s
  corsCheck s
  serviceChecks svc

/-! ## The items of a string -/

theorem isSpace_comma : isSpace ',' = false := by decide

/-- **The items are the stripped pieces that are not blank.** -/
theorem csv_eq (s : Str) : csv s = ((s.splitOn ',').map strip).filter fun x => !x.isEmpty := by
  obtain ⟨w₁, w₂, h₁, h₂, hs⟩ := strip_spec s
  have hpieces : ((strip s).splitOn ',').map strip = (s.splitOn ',').map strip := by
    conv_rhs => rw [hs, map_strip_splitOn_pad isSpace_comma h₁ _ h₂]
  rw [← hpieces, List.filter_map]
  simp only [csv]
  split
  · next hempty =>
    rw [List.isEmpty_iff.mp hempty]
    rfl
  · rfl

theorem mem_csv_iff {s x : Str} : x ∈ csv s ↔ x ≠ [] ∧ ∃ y, Piece ',' y s ∧ strip y = x := by
  rw [csv_eq, List.mem_filter, List.mem_map, and_comm]
  simp [mem_splitOn_iff]

/-- A wildcard among the items: blanks around it at most, then a comma or an end of the string. -/
def Starred (s : Str) : Prop :=
  ∃ a w₁ w₂ b, s = a ++ (w₁ ++ '*' :: w₂ ++ b) ∧ Blank w₁ ∧ Blank w₂ ∧
    (a = [] ∨ a.getLast? = some ',') ∧ (b = [] ∨ b.head? = some ',')

theorem starred_iff {s : Str} : Starred s ↔ "*".toList ∈ csv s := by
  rw [mem_csv_iff]
  constructor
  · rintro ⟨a, w₁, w₂, b, rfl, h₁, h₂, ha, hb⟩
    refine ⟨by decide, w₁ ++ '*' :: w₂, ⟨?_, a, b, rfl, ha, hb⟩, ?_⟩
    · simp [h₁.notMem isSpace_comma, h₂.notMem isSpace_comma]
    · exact (strip_eq_iff (by decide)).mpr ⟨w₁, w₂, h₁, h₂, rfl⟩
  · rintro ⟨-, y, ⟨-, a, b, rfl, ha, hb⟩, hy⟩
    obtain ⟨w₁, w₂, h₁, h₂, rfl⟩ := (strip_eq_iff (by decide)).mp hy
    exact ⟨a, w₁, w₂, b, rfl, h₁, h₂, ha, hb⟩

/-- The branch for the whole string is the list that `csv` makes of it. -/
theorem corsOriginsList_eq (s : Settings) : s.corsOriginsList = csv s.corsAllowOrigins := by
  unfold Settings.corsOriginsList
  split
  · next h =>
    have hwhole : strip s.corsAllowOrigins = "*".toList := by
      simpa [Settings.onlyWildcard] using h
    simp only [csv, hwhole]
    decide
  · rfl

/-! ## Valid settings -/

theorem validateCors_iff {s : Settings} :
    validateCors s = .ok s ↔ (s.corsAllowCredentials = true → s.onlyWildcard = false) := by
  unfold validateCors
  cases s.onlyWildcard <;> cases s.corsAllowCredentials <;> simp

/-- **The start-up check repeats the validator.** -/
theorem corsCheck_valid (s : ValidSettings) : corsCheck s.val = pure () := by
  have h := validateCors_iff.mp s.property
  unfold corsCheck
  cases hc : s.val.corsAllowCredentials with
  | false => rfl
  | true => simp [h hc]

theorem runStartupChecks_cors (svc : Services) (s : ValidSettings) :
    runStartupChecks svc s.val = (do jwtCheck s.val; serviceChecks svc) := by
  unfold runStartupChecks
  rw [corsCheck_valid]
  rfl

/-- Where valid settings let credentials meet a wildcard, it is one of several items. -/
theorem comma_of_starred (s : ValidSettings) (hcred : s.val.corsAllowCredentials = true)
    (h : Starred s.val.corsAllowOrigins) : ',' ∈ s.val.corsAllowOrigins := by
  obtain ⟨a, w₁, w₂, b, hs, h₁, h₂, ha, hb⟩ := h
  by_contra hcomma
  rw [hs] at hcomma
  have hnil : a = [] := ha.resolve_right fun h =>
    hcomma (List.mem_append_left _ (List.mem_of_getLast? h))
  have hnil' : b = [] := hb.resolve_right fun h =>
    hcomma (List.mem_append_right _ (List.mem_append_right _ (List.mem_of_head? h)))
  have hwhole : strip s.val.corsAllowOrigins = "*".toList := by
    rw [hs, hnil, hnil', List.append_nil, List.nil_append]
    exact (strip_eq_iff (by decide)).mpr ⟨w₁, w₂, h₁, h₂, rfl⟩
  have hvalid := validateCors_iff.mp s.property hcred
  simp [Settings.onlyWildcard, hwhole] at hvalid

/-- **Credentials meet a wildcard exactly where one of the items is starred.** -/
theorem installedCors_wildcard_iff (s : ValidSettings) :
    ((installedCors s.val).allowCredentials = true →
        "*".toList ∉ (installedCors s.val).allowOrigins) ↔
      (s.val.corsAllowCredentials = true → ¬Starred s.val.corsAllowOrigins) := by
  show (s.val.corsAllowCredentials = true → "*".toList ∉ s.val.corsOriginsList) ↔ _
  rw [corsOriginsList_eq, starred_iff]

/-- Credentials, and a wildcard beside another origin. -/
def wildcardBesideOrigin : Settings where
  jwtSecret := []
  corsAllowOrigins := "*,http://a".toList
  corsAllowCredentials := true

theorem installedCors_wildcard : ¬∀ s : ValidSettings,
    (installedCors s.val).allowCredentials = true →
      "*".toList ∉ (installedCors s.val).allowOrigins := by
  intro h
  exact h ⟨wildcardBesideOrigin, by decide⟩ rfl (by decide)

end EnterpriseAssistant.Core
