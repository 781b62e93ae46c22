import EnterpriseAssistant.Authn.Versions

/-!
# Session lineage

A token descends from the login whose tokens it continues: the login issued it, or a refresh did
for a token that descends from that login.

* `current_tokens_descend_from_last_login` — a token whose version check passes descends from one
  login, and the bump of that login is the last bump of the user at that moment
* `accepted_after_logout` — `get_current_user` returns the user one database call after its check,
  so a logout that lands in between does not stop it
-/

namespace EnterpriseAssistant.Authn

open Py Core Auth Security Interleaving

variable {env : AuthEnv}

/-! ## Descent -/

/-- The refresh token `pair` continues the tokens that login `login` of user `u` issued. -/
inductive Descends (h : List Obs) (login : Nat) (u v : Int) : RefreshTokenPair → Prop where
  | login {access : AccessClaims} {pair : RefreshTokenPair}
      (hi : .issued login none u v access pair ∈ h) : Descends h login u v pair
  | refresh {t : Nat} {parent pair : RefreshTokenPair} {access : AccessClaims}
      (hp : Descends h login u v parent) (hi : .issued t (some parent) u v access pair ∈ h) :
      Descends h login u v pair

/-- The access token was issued together with a refresh token that descends from the login. -/
def AccessDescends (h : List Obs) (login : Nat) (u v : Int) (access : AccessClaims) : Prop :=
  ∃ t parent pair, .issued t parent u v access pair ∈ h ∧ Descends h login u v pair

theorem Descends.mono {h h' : List Obs} (hsub : h ⊆ h') {login : Nat} {u v : Int}
    {pair : RefreshTokenPair} (hd : Descends h login u v pair) : Descends h' login u v pair := by
  induction hd with
  | login hi => exact .login (hsub hi)
  | refresh _ hi ih => exact .refresh ih (hsub hi)

theorem Descends.exists_issued {h : List Obs} {login : Nat} {u v : Int} {pair : RefreshTokenPair}
    (hd : Descends h login u v pair) : ∃ t parent access, .issued t parent u v access pair ∈ h := by
  cases hd with
  | login hi => exact ⟨_, _, _, hi⟩
  | refresh _ hi => exact ⟨_, _, _, hi⟩

/-- The pair descends from a login whose bump produced its version. -/
def Lineal (h : List Obs) (u v : Int) (pair : RefreshTokenPair) : Prop :=
  ∃ login, .bumped login .login u v ∈ h ∧ Descends h login u v pair

theorem Lineal.mono {h h' : List Obs} (hsub : h ⊆ h') {u v : Int} {pair : RefreshTokenPair}
    (hl : Lineal h u v pair) : Lineal h' u v pair := by
  obtain ⟨login, hb, hd⟩ := hl
  exact ⟨login, hsub hb, hd.mono hsub⟩

/-- The user for whom an observation says that a token is current. -/
def Obs.checked : Obs → Option Int
  | .refreshCurrent _ _ u => some u
  | .accessCurrent _ _ u => some u
  | _ => none

/-- The token that was checked descends from the login. -/
def Obs.TokenDescends (h : List Obs) (login : Nat) (u v : Int) : Obs → Prop
  | .refreshCurrent _ pair _ => Descends h login u v pair
  | .accessCurrent _ token _ => AccessDescends h login u v token
  | _ => False

/-- What is checked descends from the login that made the last bump, and from no other. -/
def FromLastLogin (o : Obs) (earlier : List Obs) : Prop :=
  ∀ u, o.checked = some u → ∃ login v, lastBump u earlier = some (login, .login, v) ∧
    o.TokenDescends earlier login u v ∧
    ∀ login' u' v', o.TokenDescends earlier login' u' v' → login' = login ∧ u' = u ∧ v' = v

/-- What `get_current_user` accepts, the same request has checked before. -/
def AcceptedAfterCheck (o : Obs) (earlier : List Obs) : Prop :=
  ∀ t token u, o = .accepted t token u → .accessCurrent t token u ∈ earlier

/--
Nothing that is checked for a user descends from a login in front of a bump of that user, and
behind a logout it takes another login before anything is.
-/
def BumpsAreFinal (o : Obs) (earlier : List Obs) : Prop :=
  ∀ u, o.checked = some u → ∀ since t who w before, earlier = since ++ .bumped t who u w :: before →
    (∀ login v, .bumped login .login u v ∈ before → ¬o.TokenDescends earlier login u v) ∧
      (who = .logout → ∃ login v, .bumped login .login u v ∈ since)

/-- The two laws of a step that the invariant carries along. -/
structure Lawful (o : Obs) (earlier : List Obs) : Prop where
  fromLastLogin : FromLastLogin o earlier
  acceptedAfterCheck : AcceptedAfterCheck o earlier

theorem Lawful.of_other {o : Obs} (hc : o.checked = none)
    (ha : ∀ t token u, o ≠ .accepted t token u) (earlier : List Obs) : Lawful o earlier where
  fromLastLogin := by
    intro u hu
    rw [hc] at hu
    cases hu
  acceptedAfterCheck := fun t token u h => absurd h (ha t token u)

/-! ## The invariant -/

/-- What the local variables of a handler in flight promise about the history. -/
def Handler.Backed (h : List Obs) (t : Nat) : Handler → Prop
  | .loginStore user v => .bumped t .login user.id v ∈ h
  | .refreshVer pair u v => Lineal h u v pair
  | .refreshUser pair u v => Lineal h u v pair
  | .refreshStore pair u v => Lineal h u v pair
  | .currentUserRow _ token u => .accessCurrent t token u ∈ h
  | _ => True

theorem Handler.Backed.mono {h h' : List Obs} (hsub : h ⊆ h') {t : Nat} {th : Handler}
    (hb : th.Backed h t) : th.Backed h' t := by
  cases th with
  | loginStore user v => exact hsub hb
  | refreshVer pair u v => exact Lineal.mono hsub hb
  | refreshUser pair u v => exact Lineal.mono hsub hb
  | refreshStore pair u v => exact Lineal.mono hsub hb
  | currentUserRow endpoint token u => exact hsub hb
  | _ => trivial

structure LineageInv (env : AuthEnv) (c : Config Shared Handler Obs) : Prop where
  versions : Versions c
  threads : ∀ t (th : Handler), c.threads[t]? = some th → th.Backed c.history t
  entries : ∀ rid val, c.shared.redis.lookup (keyRefresh rid) = some val →
    ∃ u v secret, val = refreshValue env.sha256 u v secret ∧ Lineal c.history u v ⟨rid, secret⟩
  signed : ∀ access ∈ c.shared.signed, ∃ t parent u v pair,
    .issued t parent u v access pair ∈ c.history ∧ Lineal c.history u v pair
  claims : ∀ t parent u v access pair, .issued t parent u v access pair ∈ c.history →
    access.sub = str u ∧ access.ver = v
  rooted : ∀ t u v access pair, .issued t none u v access pair ∈ c.history →
    .bumped t .login u v ∈ c.history
  minted : ∀ t parent u v access pair, .issued t parent u v access pair ∈ c.history →
    pair.rid ∈ c.shared.mintedRids
  sameRid : ∀ t parent u v access pair t' parent' u' v' access' pair',
    .issued t parent u v access pair ∈ c.history →
    .issued t' parent' u' v' access' pair' ∈ c.history →
    pair.rid = pair'.rid → u = u' ∧ v = v'
  checks : Throughout Lawful c.history

/-- The root of a descent bumped the version to what the descendants carry. -/
theorem LineageInv.root {c : Config Shared Handler Obs} (h : LineageInv env c) {login : Nat}
    {u v : Int} {pair : RefreshTokenPair} (hd : Descends c.history login u v pair) :
    .bumped login .login u v ∈ c.history := by
  induction hd with
  | login hi => exact h.rooted _ _ _ _ _ hi
  | refresh _ _ ih => exact ih

/-- A pair of the present version comes from the last login, and from no other. -/
theorem LineageInv.check_refresh {c : Config Shared Handler Obs} (h : LineageInv env c) {t : Nat}
    {u v : Int} {pair : RefreshTokenPair} (hl : Lineal c.history u v pair)
    (hv : v = getTokenver c.shared.redis u) : Lawful (.refreshCurrent t pair u) c.history := by
  obtain ⟨login, hb, hd⟩ := hl
  have hlast := h.versions.last hb hv
  refine ⟨?_, fun _ _ _ ha => nomatch ha⟩
  rintro _ ⟨⟩
  refine ⟨login, v, hlast, hd, ?_⟩
  intro login' u' v' hd'
  obtain ⟨t₁, p₁, a₁, h₁⟩ := hd.exists_issued
  obtain ⟨t₂, p₂, a₂, h₂⟩ := Descends.exists_issued hd'
  obtain ⟨rfl, rfl⟩ := h.sameRid _ _ _ _ _ _ _ _ _ _ _ _ h₁ h₂ rfl
  have hlast' := h.versions.last (h.root hd') hv
  rw [hlast] at hlast'
  cases hlast'
  exact ⟨rfl, rfl, rfl⟩

/-- A signed token of the present version comes from the last login, and from no other. -/
theorem LineageInv.check_access {c : Config Shared Handler Obs} (h : LineageInv env c) {t : Nat}
    {u : Int} {token : AccessClaims} (hsigned : token ∈ c.shared.signed)
    (hsub : int? token.sub = some u) (hv : token.ver = getTokenver c.shared.redis u) :
    Lawful (.accessCurrent t token u) c.history := by
  obtain ⟨t₀, parent, u₀, v, pair, hi, login, hb, hd⟩ := h.signed token hsigned
  obtain ⟨hsub₀, hver₀⟩ := h.claims _ _ _ _ _ _ hi
  rw [hsub₀, int?_str] at hsub
  cases hsub
  rw [hver₀] at hv
  have hlast := h.versions.last hb hv
  refine ⟨?_, fun _ _ _ ha => nomatch ha⟩
  rintro _ ⟨⟩
  refine ⟨login, v, hlast, ⟨t₀, parent, pair, hi, hd⟩, ?_⟩
  rintro login' u' v' ⟨t', parent', pair', hi', hd'⟩
  obtain ⟨hsub', hver'⟩ := h.claims _ _ _ _ _ _ hi'
  have hu' : u' = u := str_injective (hsub'.symm.trans hsub₀)
  have hv' : v' = v := hver'.symm.trans hver₀
  subst hu' hv'
  have hlast' := h.versions.last (h.root hd') hv
  rw [hlast] at hlast'
  cases hlast'
  exact ⟨rfl, rfl, rfl⟩

/-! ## Every move keeps it -/

theorem not_mem_of_not_issue {os : List Obs} (hos : ∀ o ∈ os, ¬o.IsIssue) {h : List Obs} {t : Nat}
    {parent : Option RefreshTokenPair} {u v : Int} {access : AccessClaims}
    {pair : RefreshTokenPair} (hi : .issued t parent u v access pair ∈ os ++ h) :
    .issued t parent u v access pair ∈ h := by
  rcases List.mem_append.mp hi with hi | hi
  · exact absurd trivial (hos _ hi)
  · exact hi

/-- The handler that has moved is backed by the history with its own observation. -/
theorem LineageInv.backed_move {c : Config Shared Handler Obs}
    (hinj : Function.Injective env.sha256) (h : LineageInv env c) {t : Nat} {th : Handler}
    {m : AuthMove} (hth : c.threads[t]? = some th) (hm : Moves env c.shared t th m) :
    m.thread.Backed (m.obs ++ c.history) t := by
  have hback := h.threads t th hth
  cases hm with
  | ends r => trivial
  | loginSelected req user => trivial
  | loginBumped user => exact List.mem_cons_self
  | loginIssued user tokenVer now pair _ hm =>
    obtain ⟨-, access, -, -, rfl⟩ := issueTokens_eq hm
    trivial
  | redeemed refreshToken pair val a b u v hunpack hval hmatch hu hv =>
    obtain ⟨u₀, v₀, secret, rfl, hl⟩ := h.entries pair.rid val hval
    obtain ⟨ha, hb, hhash⟩ := luaMatch_refreshValue env.sha256 hmatch
    rw [ha, int?_str] at hu
    rw [hb, int?_str] at hv
    cases hu
    cases hv
    -- the presented secret hashes to the stored hash, so it is the secret that was minted
    have hpair : (⟨pair.rid, secret⟩ : RefreshTokenPair) = pair := by
      rw [← hinj hhash]
    rw [hpair] at hl
    exact hl.mono (List.subset_cons_self _ _)
  | refreshCurrent pair u v hv => exact Lineal.mono (List.subset_cons_self _ _) hback
  | refreshSelected pair u v => exact hback
  | refreshIssued parent u v now pair _ hm =>
    obtain ⟨-, access, -, -, rfl⟩ := issueTokens_eq hm
    trivial
  | accessCurrent endpoint token u => exact List.mem_cons_self
  | accepted endpoint token u user =>
    cases endpoint with
    | me => trivial
    | logout refreshToken => trivial
  | logoutPassed refreshToken me => trivial
  | logoutRevoked refreshToken me pair => trivial
  | logoutBumped me => trivial

/-- A credential about to be exchanged has a lineage, and so have the tokens it is exchanged for. -/
theorem LineageInv.lineal_issued {c : Config Shared Handler Obs} (h : LineageInv env c) {t : Nat}
    {th : Handler} {parent : Option RefreshTokenPair} {u v : Int} (access : AccessClaims)
    (pair : RefreshTokenPair) (hth : c.threads[t]? = some th) (hmay : th.MayIssue parent u v) :
    (parent = none → .bumped t .login u v ∈ c.history) ∧
      Lineal (.issued t parent u v access pair :: c.history) u v pair := by
  have hback := h.threads t th hth
  cases th with
  | loginStore user w =>
    obtain ⟨hparent, hu, hv⟩ := hmay
    subst hparent hu hv
    exact ⟨fun _ => hback, t, List.mem_cons_of_mem _ hback, .login List.mem_cons_self⟩
  | refreshStore p u' v' =>
    obtain ⟨hparent, hu, hv⟩ := hmay
    subst hparent hu hv
    obtain ⟨login, hb, hd⟩ := hback
    refine ⟨fun hn => (nomatch hn), login, List.mem_cons_of_mem _ hb, ?_⟩
    exact .refresh (hd.mono (List.subset_cons_self _ _)) List.mem_cons_self
  | _ => exact absurd hmay id

theorem LineageInv.checks_move {c : Config Shared Handler Obs} (h : LineageInv env c) {t : Nat}
    {th : Handler} {m : AuthMove} (hth : c.threads[t]? = some th)
    (hm : Moves env c.shared t th m) : Throughout Lawful (m.obs ++ c.history) := by
  have hback := h.threads t th hth
  -- what is neither a check nor an acceptance has nothing to show
  have hother : ∀ o : Obs, o.checked = none → (∀ t token u, o ≠ .accepted t token u) →
      Throughout Lawful (o :: c.history) :=
    fun o hc ha => h.checks.cons (Lawful.of_other hc ha _)
  cases hm with
  | ends r => exact h.checks
  | loginSelected req user => exact h.checks
  | loginBumped user => exact hother _ rfl fun _ _ _ ha => nomatch ha
  | loginIssued user tokenVer now pair _ hm =>
    obtain ⟨-, access, -, -, rfl⟩ := issueTokens_eq hm
    exact hother _ rfl fun _ _ _ ha => nomatch ha
  | redeemed refreshToken pair val a b u v => exact hother _ rfl fun _ _ _ ha => nomatch ha
  | refreshCurrent pair u v hv => exact h.checks.cons (h.check_refresh hback hv)
  | refreshSelected pair u v => exact h.checks
  | refreshIssued parent u v now pair _ hm =>
    obtain ⟨-, access, -, -, rfl⟩ := issueTokens_eq hm
    exact hother _ rfl fun _ _ _ ha => nomatch ha
  | accessCurrent endpoint token u hsigned hsub hver =>
    exact h.checks.cons (h.check_access hsigned hsub hver)
  | accepted endpoint token u user =>
    refine h.checks.cons ⟨fun _ hc => (nomatch hc), ?_⟩
    rintro _ _ _ ⟨⟩
    exact hback
  | logoutPassed refreshToken me => exact h.checks
  | logoutRevoked refreshToken me pair => exact h.checks
  | logoutBumped me => exact hother _ rfl fun _ _ _ ha => nomatch ha

/-- A move that issues nothing. -/
theorem LineageInv.move_of_not_issue {c : Config Shared Handler Obs}
    (hinj : Function.Injective env.sha256) (h : LineageInv env c) {t : Nat} {th : Handler}
    {m : AuthMove} (hth : c.threads[t]? = some th) (hm : Moves env c.shared t th m)
    (hsigned : m.shared.signed = c.shared.signed)
    (hminted : m.shared.mintedRids = c.shared.mintedRids)
    (hredis : ∀ rid val, m.shared.redis.lookup (keyRefresh rid) = some val →
      c.shared.redis.lookup (keyRefresh rid) = some val)
    (hobs : ∀ o ∈ m.obs, ¬o.IsIssue) : LineageInv env (System.after c t m) := by
  have hsub : c.history ⊆ m.obs ++ c.history := List.subset_append_right _ _
  exact
    { versions := h.versions.move hm
      threads := forall_set (fun i th' hi => (h.threads i th' hi).mono hsub)
        (h.backed_move hinj hth hm)
      entries := by
        intro rid val hl
        obtain ⟨u, v, secret, hval, hlin⟩ := h.entries rid val (hredis rid val hl)
        exact ⟨u, v, secret, hval, hlin.mono hsub⟩
      signed := by
        intro access ha
        rw [System.after_shared, hsigned] at ha
        obtain ⟨t', parent, u, v, pair, hi, hlin⟩ := h.signed access ha
        exact ⟨t', parent, u, v, pair, hsub hi, hlin.mono hsub⟩
      claims := fun _ _ _ _ _ _ hi => h.claims _ _ _ _ _ _ (not_mem_of_not_issue hobs hi)
      rooted := fun _ _ _ _ _ hi => hsub (h.rooted _ _ _ _ _ (not_mem_of_not_issue hobs hi))
      minted := by
        intro t' parent u v access pair hi
        rw [System.after_shared, hminted]
        exact h.minted _ _ _ _ _ _ (not_mem_of_not_issue hobs hi)
      sameRid := fun _ _ _ _ _ _ _ _ _ _ _ _ h₁ h₂ =>
        h.sameRid _ _ _ _ _ _ _ _ _ _ _ _ (not_mem_of_not_issue hobs h₁)
          (not_mem_of_not_issue hobs h₂)
      checks := h.checks_move hth hm }

/-- An issued pair is the one of this move, or an earlier one with another rid. -/
theorem LineageInv.issued_cases {c : Config Shared Handler Obs} (h : LineageInv env c) {t : Nat}
    {th : Handler} {m : AuthMove} {parent : Option RefreshTokenPair} {u v : Int}
    {access : AccessClaims} {pair : RefreshTokenPair}
    (hi : Issues env c.shared t th m parent u v access pair) {t' : Nat}
    {parent' : Option RefreshTokenPair} {u' v' : Int} {access' : AccessClaims}
    {pair' : RefreshTokenPair}
    (hmem : .issued t' parent' u' v' access' pair' ∈ (System.after c t m).history) :
    (t' = t ∧ parent' = parent ∧ u' = u ∧ v' = v ∧ access' = access ∧ pair' = pair) ∨
      (.issued t' parent' u' v' access' pair' ∈ c.history ∧ pair'.rid ≠ pair.rid) := by
  rw [hi.history] at hmem
  rcases List.mem_cons.mp hmem with heq | hold
  · cases heq
    exact Or.inl ⟨rfl, rfl, rfl, rfl, rfl, rfl⟩
  · refine Or.inr ⟨hold, ?_⟩
    intro heq
    exact hi.new (heq ▸ h.minted _ _ _ _ _ _ hold)

/-- A move that issues tokens. -/
theorem LineageInv.move_of_issue {c : Config Shared Handler Obs}
    (hinj : Function.Injective env.sha256) (h : LineageInv env c) {t : Nat} {th : Handler}
    {m : AuthMove} (hth : c.threads[t]? = some th) (hm : Moves env c.shared t th m)
    {parent : Option RefreshTokenPair} {u v : Int} {access : AccessClaims}
    {pair : RefreshTokenPair} (hi : Issues env c.shared t th m parent u v access pair) :
    LineageInv env (System.after c t m) := by
  have hsub : c.history ⊆ (System.after c t m).history := List.subset_append_right _ _
  obtain ⟨hroot, hlin⟩ := h.lineal_issued access pair hth hi.may
  rw [← hi.history] at hlin
  exact
    { versions := h.versions.move hm
      threads := forall_set (fun i th' hget => (h.threads i th' hget).mono hsub)
        (h.backed_move hinj hth hm)
      entries := by
        intro rid val hl
        rcases hi.lookup_cases hl with ⟨rfl, rfl⟩ | hold
        · exact ⟨u, v, pair.secret, rfl, hlin⟩
        · obtain ⟨u', v', secret, hval, hlin'⟩ := h.entries rid val hold
          exact ⟨u', v', secret, hval, hlin'.mono hsub⟩
      signed := by
        intro access' ha
        rw [System.after_shared, hi.signed] at ha
        rcases List.mem_cons.mp ha with rfl | ha
        · exact ⟨t, parent, u, v, pair, by rw [hi.history]; exact List.mem_cons_self, hlin⟩
        · obtain ⟨t', parent', u', v', pair', hi', hlin'⟩ := h.signed access' ha
          exact ⟨t', parent', u', v', pair', hsub hi', hlin'.mono hsub⟩
      claims := by
        intro t' parent' u' v' access' pair' hmem
        rcases h.issued_cases hi hmem with ⟨-, -, rfl, rfl, rfl, -⟩ | ⟨hold, -⟩
        · exact ⟨hi.sub, hi.ver⟩
        · exact h.claims _ _ _ _ _ _ hold
      rooted := by
        intro t' u' v' access' pair' hmem
        rcases h.issued_cases hi hmem with ⟨rfl, hp, rfl, rfl, -, -⟩ | ⟨hold, -⟩
        · exact hsub (hroot hp.symm)
        · exact hsub (h.rooted _ _ _ _ _ hold)
      minted := by
        intro t' parent' u' v' access' pair' hmem
        rw [System.after_shared, hi.minted]
        rcases h.issued_cases hi hmem with ⟨-, -, -, -, -, rfl⟩ | ⟨hold, -⟩
        · exact List.mem_cons_self
        · exact List.mem_cons_of_mem _ (h.minted _ _ _ _ _ _ hold)
      sameRid := by
        intro t₁ p₁ u₁ v₁ a₁ pair₁ t₂ p₂ u₂ v₂ a₂ pair₂ h₁ h₂ hrid
        rcases h.issued_cases hi h₁ with ⟨-, -, rfl, rfl, -, rfl⟩ | ⟨hold₁, hne₁⟩
        · rcases h.issued_cases hi h₂ with ⟨-, -, rfl, rfl, -, rfl⟩ | ⟨hold₂, hne₂⟩
          · exact ⟨rfl, rfl⟩
          · exact absurd hrid.symm hne₂
        · rcases h.issued_cases hi h₂ with ⟨-, -, rfl, rfl, -, rfl⟩ | ⟨hold₂, hne₂⟩
          · exact absurd hrid hne₁
          · exact h.sameRid _ _ _ _ _ _ _ _ _ _ _ _ hold₁ hold₂ hrid
      checks := h.checks_move hth hm }

theorem LineageInv.fire {c c' : Config Shared Handler Obs} {e : Event Choice Outside}
    (hinj : Function.Injective env.sha256) (h : LineageInv env c)
    (he : (authSystem env).fire c e = some c') : LineageInv env c' := by
  rcases fire_cases he with ⟨t, th, m, hth, hm, rfl⟩ | ⟨rid, rfl⟩ | ⟨users, rfl⟩
  · rcases hm.issue_cases with ⟨parent, u, v, access, pair, hi⟩ | ⟨hs, hmin, hr, hobs⟩
    · exact h.move_of_issue hinj hth hm hi
    · exact h.move_of_not_issue hinj hth hm hs hmin hr hobs
  · refine { h with versions := h.versions.fire he, entries := ?_ }
    exact fun rid' val hl => h.entries rid' val (Redis.lookup_of_erase hl)
  · exact { h with versions := h.versions.fire he }

theorem lineage_start (users : List User) {requests : List Handler}
    (hfresh : ∀ r ∈ requests, Handler.Fresh r) :
    LineageInv env (Config.start (initial users) requests) where
  versions := versions_start users requests
  threads := by
    intro t th hth
    cases hfresh th (List.mem_of_getElem? hth) with
    | _ => trivial
  entries := by
    intro rid val hl
    simp [initial] at hl
  signed := by
    intro access ha
    simp [initial] at ha
  claims := by simp
  rooted := by simp
  minted := by simp
  sameRid := by simp
  checks := throughout_nil _

theorem lineage_invariant (hinj : Function.Injective env.sha256) {c : Config Shared Handler Obs}
    (h : Reachable env c) : LineageInv env c := by
  obtain ⟨users, requests, es, hfresh, hexec⟩ := h
  exact System.exec_invariant _ (fun c e c' hc he => hc.fire hinj he) es
    (lineage_start users hfresh) hexec

/-! ## What follows for the checks -/

/-- A login in front of a bump did not make the last one, and a logout is no login. -/
theorem FromLastLogin.bumpsAreFinal {o : Obs} {earlier : List Obs} (h : FromLastLogin o earlier)
    (hinc : Throughout BumpsIncrease earlier) : BumpsAreFinal o earlier := by
  intro u hu since t who w before heq
  obtain ⟨login, v, hlast, -, huniq⟩ := h u hu
  rw [heq] at hlast hinc
  have hbump : BumpsIncrease (.bumped t who u w) before := hinc since _ before rfl
  rcases lastBump_append hlast with hsince | ⟨rfl, rfl, rfl⟩
  · refine ⟨?_, fun _ => ⟨login, v, hsince⟩⟩
    intro login' v' hb hd
    obtain ⟨-, -, rfl⟩ := huniq login' u v' hd
    -- the last bump lies behind this one, so it cannot have produced the version again
    obtain ⟨l₁, l₂, rfl⟩ := List.append_of_mem hsince
    rw [List.append_assoc, List.cons_append] at hinc
    have hlt := hinc l₁ _ _ rfl _ _ _ _ rfl login' .login v'
      (List.mem_append_right _ (List.mem_cons_of_mem _ hb))
    omega
  · refine ⟨?_, fun hlogout => nomatch hlogout⟩
    intro login' v' hb hd
    obtain ⟨-, -, rfl⟩ := huniq login' u v' hd
    have hlt := hbump _ _ _ _ rfl login' .login v' hb
    omega

/--
**Session lineage.**

Whenever `get_current_user` reads the version of its token's user, or `refresh` that of its pair,
and finds it current, the token descends from the one login whose bump is the user's last so far.
So no bump, by a login or a logout, leaves an earlier login a token that passes again.
-/
theorem current_tokens_descend_from_last_login (hinj : Function.Injective env.sha256)
    {c : Config Shared Handler Obs} (h : Reachable env c) :
    Throughout (fun o earlier => FromLastLogin o earlier ∧ BumpsAreFinal o earlier ∧
      AcceptedAfterCheck o earlier) c.history := by
  have hinv := lineage_invariant hinj h
  intro later o earlier heq
  have hlaw := hinv.checks later o earlier heq
  have hinc : Throughout BumpsIncrease (later ++ o :: earlier) := heq ▸ hinv.versions.increase
  have hearlier : Throughout BumpsIncrease earlier := (hinc.earlier later).earlier [o]
  exact ⟨hlaw.fromLastLogin, hlaw.fromLastLogin.bumpsAreFinal hearlier, hlaw.acceptedAfterCheck⟩

theorem current_tokens_descend_in_logoutRace :
    ∃ c, Reachable sampleEnv c ∧ c.history = logoutRaceHistory ∧
      Throughout (fun o earlier => FromLastLogin o earlier ∧ BumpsAreFinal o earlier ∧
        AcceptedAfterCheck o earlier) c.history := by
  obtain ⟨c, hc, hhist⟩ := logoutRace_reachable
  exact ⟨c, hc, hhist, current_tokens_descend_from_last_login sampleSha256_injective hc⟩

/-- The law of the checks, asked of the moment in which `get_current_user` returns the user. -/
def AcceptedFromLastLogin (o : Obs) (earlier : List Obs) : Prop :=
  ∀ t token u, o = .accepted t token u → ∃ login v,
    lastBump u earlier = some (login, .login, v) ∧ AccessDescends earlier login u v token

/--
`get_current_user` returns the user one database call after it has checked the token, so a logout
that lands in between does not stop it.
-/
theorem accepted_after_logout :
    ¬∀ (env : AuthEnv) (c : Config Shared Handler Obs), Function.Injective env.sha256 →
      Reachable env c →
      Throughout (fun o earlier => FromLastLogin o earlier ∧ AcceptedFromLastLogin o earlier)
        c.history := by
  intro h
  obtain ⟨c, hc, hhist⟩ := logoutRace_reachable
  have hall := h sampleEnv c sampleSha256_injective hc
  rw [hhist] at hall
  obtain ⟨login, v, hlast, -⟩ := (hall [] _ _ rfl).2 _ _ _ rfl
  have hlogout : some (3, Bumper.logout, (2 : Int)) = some (login, Bumper.login, v) := hlast
  simp at hlogout

end EnterpriseAssistant.Authn
