import EnterpriseAssistant.Authn.Credential

/-!
# What a user's requests do to the sessions of others

The requests here carry one user's credentials: a login with the password of the user, a refresh
of a string that is not a stored token of somebody else, a logout whose access token names the
user.  The refresh token in the body of the logout may be any string.

* `Moves.others` — the only move that can take something from another user is the revocation of
  `logout`, which asks neither for the secret nor for the owner of the rid
* `others_untouched_iff` — a run leaves all others alone when none of its revocations does that
* `logout_revokes_other` — and a logout of one user can end the session of another
-/

namespace EnterpriseAssistant.Authn

open Py Core Auth Security Interleaving

variable {env : AuthEnv}

/-! ## Sessions in Redis -/

/-- The value of a refresh entry records user `b`. -/
def RecordedFor (b : Int) (val : Str) : Prop :=
  ∃ v hash, val = str b ++ '|' :: (str v ++ '|' :: hash)

theorem recordedFor_refreshValue {b u v : Int} {secret : Str} :
    RecordedFor b (refreshValue env.sha256 u v secret) ↔ b = u := by
  constructor
  · rintro ⟨w, hash, heq⟩
    have h := congrArg (splitOnce '|') heq
    simp only [refreshValue, splitOnce_append (bar_notMem_str _), Prod.mk.injEq] at h
    exact (str_injective h.1).symm
  · rintro rfl
    exact ⟨v, env.sha256 secret, rfl⟩

/-- Everything that Redis holds for user `b` is the same in both keyspaces. -/
structure SameSessions (b : Int) (redis redis' : Redis.Keyspace) : Prop where
  tokenver : getTokenver redis' b = getTokenver redis b
  entries : ∀ rid val, RecordedFor b val →
    (redis'.lookup (keyRefresh rid) = some val ↔ redis.lookup (keyRefresh rid) = some val)

/-- The sessions of everybody but `a` are the same. -/
def OthersUntouched (a : Int) (redis redis' : Redis.Keyspace) : Prop :=
  ∀ b, b ≠ a → SameSessions b redis redis'

/-- Nobody but `a` has got a new entry or another version. -/
structure NothingForOthers (a : Int) (redis redis' : Redis.Keyspace) : Prop where
  tokenver : ∀ b, b ≠ a → getTokenver redis' b = getTokenver redis b
  entries : ∀ b, b ≠ a → ∀ rid val, RecordedFor b val →
    redis'.lookup (keyRefresh rid) = some val → redis.lookup (keyRefresh rid) = some val

theorem NothingForOthers.refl (a : Int) (redis : Redis.Keyspace) :
    NothingForOthers a redis redis :=
  ⟨fun _ _ => rfl, fun _ _ _ _ _ h => h⟩

theorem NothingForOthers.trans {a : Int} {r₁ r₂ r₃ : Redis.Keyspace}
    (h₁ : NothingForOthers a r₁ r₂) (h₂ : NothingForOthers a r₂ r₃) : NothingForOthers a r₁ r₃ where
  tokenver b hb := (h₂.tokenver b hb).trans (h₁.tokenver b hb)
  entries b hb rid val hval hl := h₁.entries b hb rid val hval (h₂.entries b hb rid val hval hl)

/-! ## Requests with the credentials of one user -/

/-- The string is the refresh token of an entry that Redis holds for user `b`. -/
def StoredTokenOf (env : AuthEnv) (b : Int) (redis : Redis.Keyspace) (token : Str) : Prop :=
  ∃ pair v, unpackRefresh token = .ok pair ∧
    redis.lookup (keyRefresh pair.rid) = some (refreshValue env.sha256 b v pair.secret)

/-- The handler acts on the credentials of user `a` only. -/
def Handler.OwnedBy (env : AuthEnv) (a : Int) (s : Shared) : Handler → Prop
  | .login req => ∀ user, userByEmail s.users req.email = some user →
      env.verifyPassword req.password user.passwordHash = true → user.id = a
  | .loginBump user => user.id = a
  | .loginStore user _ => user.id = a
  | .refresh refreshToken => ∀ b, b ≠ a → ¬StoredTokenOf env b s.redis refreshToken
  | .refreshVer _ u _ => u = a
  | .refreshUser _ u _ => u = a
  | .refreshStore _ u _ => u = a
  | .currentUser _ token => ∀ access, token = some access → ∀ u, int? access.sub = some u → u = a
  | .currentUserRow _ _ u => u = a
  | .logoutRevoke _ me => me.id = a
  | .logoutBump me => me.id = a
  | .done _ => True

/-- The event is not the revocation of a rid whose entry records somebody other than `a`. -/
def RevokesNoOther (a : Int) (c : Config Shared Handler Obs) (e : Event Choice Outside) : Prop :=
  ∀ t now minted refreshToken me pair, e = .run t (.go now minted) →
    c.threads[t]? = some (.logoutRevoke refreshToken me) → unpackRefresh refreshToken = .ok pair →
    ∀ b, b ≠ a → ∀ val, RecordedFor b val → c.shared.redis.lookup (keyRefresh pair.rid) ≠ some val

/-! ## One move -/

theorem Moves.users_eq {s : Shared} {t : Nat} {th : Handler} {m : AuthMove}
    (h : Moves env s t th m) : m.shared.users = s.users := by
  cases h with
  | loginIssued user tokenVer now pair _ hm =>
    obtain ⟨-, access, -, -, rfl⟩ := issueTokens_eq hm
    rfl
  | refreshIssued parent u v now pair _ hm =>
    obtain ⟨-, access, -, -, rfl⟩ := issueTokens_eq hm
    rfl
  | _ => rfl

/-- An entry stored for `a` is nothing for others. -/
theorem nothingForOthers_store (redis : Redis.Keyspace) (pair : RefreshTokenPair) (a v : Int) :
    NothingForOthers a redis (storeRefresh env.sha256 redis pair a v) where
  tokenver b _ := getTokenver_insert_refresh _ _ _ b
  entries := by
    intro b hb rid val hval hl
    by_cases hrid : rid = pair.rid
    · subst hrid
      rw [storeRefresh, AList.lookup_insert] at hl
      cases hl
      exact absurd (recordedFor_refreshValue.mp hval) hb
    · rwa [storeRefresh, AList.lookup_insert_ne (fun hk => hrid (keyRefresh_inj.mp hk))] at hl

theorem nothingForOthers_bump (redis : Redis.Keyspace) (a n : Int) :
    NothingForOthers a redis (redis.insert (keyTokenver a) (str n)) where
  tokenver b hb := getTokenver_insert_ne redis n hb
  entries := by
    intro b _ rid val _ hl
    rwa [AList.lookup_insert_ne (keyRefresh_ne_keyTokenver rid a)] at hl

theorem nothingForOthers_erase (a : Int) (redis : Redis.Keyspace) (rid : Str) :
    NothingForOthers a redis (redis.erase (keyRefresh rid)) where
  tokenver b _ := getTokenver_erase_refresh redis rid b
  entries _ _ _ _ _ hl := Redis.lookup_of_erase hl

/-- Where nothing is added, keeping the entries is all that is left to show. -/
theorem NothingForOthers.untouched {a : Int} {redis redis' : Redis.Keyspace}
    (h : NothingForOthers a redis redis')
    (hkeep : ∀ b, b ≠ a → ∀ rid val, RecordedFor b val →
      redis.lookup (keyRefresh rid) = some val → redis'.lookup (keyRefresh rid) = some val) :
    OthersUntouched a redis redis' :=
  fun b hb => ⟨h.tokenver b hb, fun rid val hval =>
    ⟨h.entries b hb rid val hval, hkeep b hb rid val hval⟩⟩

theorem othersUntouched_refl (a : Int) (redis : Redis.Keyspace) : OthersUntouched a redis redis :=
  (NothingForOthers.refl a redis).untouched fun _ _ _ _ _ hl => hl

/-- An entry may go when nobody but `a` is recorded in it. -/
theorem othersUntouched_erase {a : Int} {redis : Redis.Keyspace} {rid : Str}
    (h : ∀ b, b ≠ a → ∀ val, RecordedFor b val → redis.lookup (keyRefresh rid) ≠ some val) :
    OthersUntouched a redis (redis.erase (keyRefresh rid)) := by
  refine (nothingForOthers_erase a redis rid).untouched ?_
  intro b hb rid' val hval hl
  by_cases hrid : rid' = rid
  · exact absurd (hrid ▸ hl) (h b hb val hval)
  · rwa [AList.lookup_erase_ne (fun hk => hrid (keyRefresh_inj.mp hk))]

theorem othersUntouched_bump (redis : Redis.Keyspace) (a n : Int) :
    OthersUntouched a redis (redis.insert (keyTokenver a) (str n)) := by
  refine (nothingForOthers_bump redis a n).untouched ?_
  intro b _ rid val _ hl
  rwa [AList.lookup_insert_ne (keyRefresh_ne_keyTokenver rid a)]

/-- A fresh rid takes the place of no entry. -/
theorem othersUntouched_store {redis : Redis.Keyspace} {pair : RefreshTokenPair}
    (hnew : redis.lookup (keyRefresh pair.rid) = none) (a v : Int) :
    OthersUntouched a redis (storeRefresh env.sha256 redis pair a v) := by
  refine (nothingForOthers_store redis pair a v).untouched ?_
  intro b _ rid val _ hl
  rw [storeRefresh, AList.lookup_insert_ne, hl]
  intro hk
  rw [hk, hnew] at hl
  cases hl

/-- A move with the credentials of `a` leaves the others alone, unless it is a revocation. -/
theorem Moves.others {c : Config Shared Handler Obs} {t : Nat} {th : Handler} {m : AuthMove}
    (h : Moves env c.shared t th m) (hinv : CredentialInv env c) {a : Int}
    (how : th.OwnedBy env a c.shared) :
    OthersUntouched a c.shared.redis m.shared.redis ∨
      ∃ refreshToken me pair, th = .logoutRevoke refreshToken me ∧
        unpackRefresh refreshToken = .ok pair ∧
        m.shared.redis = c.shared.redis.erase (keyRefresh pair.rid) := by
  have hfree : ∀ pair : RefreshTokenPair, pair.rid ∉ c.shared.mintedRids →
      c.shared.redis.lookup (keyRefresh pair.rid) = none := by
    intro pair hnew
    cases hl : c.shared.redis.lookup (keyRefresh pair.rid) with
    | none => rfl
    | some val => exact absurd (hinv.minted _ _ hl) hnew
  cases h with
  | loginBumped user =>
    obtain rfl : user.id = a := how
    exact Or.inl (othersUntouched_bump _ _ _)
  | logoutBumped me =>
    obtain rfl : me.id = a := how
    exact Or.inl (othersUntouched_bump _ _ _)
  | loginIssued user tokenVer now pair _ hm =>
    obtain ⟨hnew, access, -, -, rfl⟩ := issueTokens_eq hm
    obtain rfl : user.id = a := how
    exact Or.inl (othersUntouched_store (hfree pair hnew) _ _)
  | refreshIssued parent u v now pair _ hm =>
    obtain ⟨hnew, access, -, -, rfl⟩ := issueTokens_eq hm
    obtain rfl : u = a := how
    exact Or.inl (othersUntouched_store (hfree pair hnew) _ _)
  | redeemed refreshToken pair val x y u v hunpack hval hmatch hu hv =>
    obtain ⟨u₀, v₀, secret, rfl, -⟩ := hinv.entries pair.rid val hval
    obtain ⟨-, -, hhash⟩ := luaMatch_refreshValue env.sha256 hmatch
    refine Or.inl (othersUntouched_erase ?_)
    intro b hb val' hrec hl
    rw [hval] at hl
    cases hl
    obtain rfl := recordedFor_refreshValue.mp hrec
    -- the hashes agree, so the string would be a stored token of somebody else
    refine how b hb ⟨pair, v₀, hunpack, ?_⟩
    rw [hval, refreshValue, refreshValue, hhash]
  | logoutRevoked refreshToken me pair hunpack =>
    exact Or.inr ⟨refreshToken, me, pair, rfl, hunpack, rfl⟩
  | _ => exact Or.inl (othersUntouched_refl _ _)

/-- Nothing is added for others, in any case. -/
theorem Moves.nothingForOthers {c : Config Shared Handler Obs} {t : Nat} {th : Handler}
    {m : AuthMove} (h : Moves env c.shared t th m) (hinv : CredentialInv env c) {a : Int}
    (how : th.OwnedBy env a c.shared) : NothingForOthers a c.shared.redis m.shared.redis := by
  rcases h.others hinv how with hsame | ⟨refreshToken, me, pair, -, -, hredis⟩
  · exact
      { tokenver := fun b hb => (hsame b hb).tokenver
        entries := fun b hb rid val hval => ((hsame b hb).entries rid val hval).mp }
  · rw [hredis]
    exact nothingForOthers_erase _ _ _

/-! ## Runs -/

/-- What is owned by `a` stays so while nothing is added for others. -/
theorem Handler.OwnedBy.mono {a : Int} {s s' : Shared} (husers : s'.users = s.users)
    (hredis : NothingForOthers a s.redis s'.redis) {th : Handler} (h : th.OwnedBy env a s) :
    th.OwnedBy env a s' := by
  cases th with
  | login req =>
    intro user hu
    rw [husers] at hu
    exact h user hu
  | refresh refreshToken =>
    rintro b hb ⟨pair, v, hunpack, hl⟩
    exact h b hb ⟨pair, v, hunpack,
      hredis.entries b hb _ _ (recordedFor_refreshValue.mpr rfl) hl⟩
  | _ => exact h

/-- The handler that has moved is still owned by `a`. -/
theorem Moves.owned {c : Config Shared Handler Obs} {t : Nat} {th : Handler} {m : AuthMove}
    (h : Moves env c.shared t th m) (hinv : CredentialInv env c) {a : Int}
    (how : th.OwnedBy env a c.shared) : m.thread.OwnedBy env a m.shared := by
  cases h with
  | loginSelected req user hu hp => exact how user hu hp
  | loginBumped user => exact how
  | loginIssued user tokenVer now pair _ hm =>
    obtain ⟨-, access, -, -, rfl⟩ := issueTokens_eq hm
    trivial
  | redeemed refreshToken pair val x y u v hunpack hval hmatch hu hv =>
    obtain ⟨u₀, v₀, secret, rfl, -⟩ := hinv.entries pair.rid val hval
    obtain ⟨hx, -, hhash⟩ := luaMatch_refreshValue env.sha256 hmatch
    rw [hx, int?_str] at hu
    cases hu
    show u = a
    by_contra hne
    refine how u hne ⟨pair, v₀, hunpack, ?_⟩
    rw [hval, refreshValue, refreshValue, hhash]
  | refreshCurrent pair u v => exact how
  | refreshSelected pair u v => exact how
  | refreshIssued parent u v now pair _ hm =>
    obtain ⟨-, access, -, -, rfl⟩ := issueTokens_eq hm
    trivial
  | accessCurrent endpoint token u hsigned hsub => exact how token rfl u hsub
  | accepted endpoint token u user hu =>
    have hid : user.id = u := by simpa [userById] using List.find?_some hu
    cases endpoint with
    | me => trivial
    | logout refreshToken => exact hid.trans how
  | logoutPassed refreshToken me => exact how
  | logoutRevoked refreshToken me pair => exact how
  | logoutBumped me => trivial
  | ends h r => trivial

/-- The threads of `a` are owned by `a`. -/
def OwnThreads (env : AuthEnv) (a : Int) (mine : Nat → Prop) (c : Config Shared Handler Obs) :
    Prop :=
  ∀ t (th : Handler), c.threads[t]? = some th → mine t → th.OwnedBy env a c.shared

theorem OwnThreads.move {a : Int} {mine : Nat → Prop} {c : Config Shared Handler Obs}
    (hown : OwnThreads env a mine c) (hinv : CredentialInv env c) {t : Nat} {th : Handler}
    {m : AuthMove} (hm : Moves env c.shared t th m)
    (how : th.OwnedBy env a c.shared) : OwnThreads env a mine (System.after c t m) := by
  have hnothing := hm.nothingForOthers hinv how
  have hothers : ∀ i (th' : Handler), c.threads[i]? = some th' → mine i →
      th'.OwnedBy env a m.shared :=
    fun i th' hi hmine => (hown i th' hi hmine).mono hm.users_eq hnothing
  exact forall_set hothers fun _ => hm.owned hinv how

/-- A call that does not answer has no effect. -/
theorem step_idle {s : Shared} {t : Nat} {th : Handler} {ch : Choice} {m : AuthMove}
    (h : Handler.step env s t th ch = some m) (hch : ∀ now minted, ch ≠ .go now minted) :
    m.shared = s := by
  cases ch with
  | go now minted => exact absurd rfl (hch now minted)
  | raises => cases th <;> cases h <;> rfl
  | dies => cases th <;> cases h <;> rfl

/-- A step of `a` revokes no entry of somebody else exactly when it leaves the others alone. -/
theorem step_untouched_iff {a : Int} {c c' : Config Shared Handler Obs} {t : Nat} {ch : Choice}
    (hinv : CredentialInv env c) {th : Handler} (hth : c.threads[t]? = some th)
    (how : th.OwnedBy env a c.shared) (he : (authSystem env).fire c (.run t ch) = some c') :
    RevokesNoOther a c (.run t ch) ↔ OthersUntouched a c.shared.redis c'.shared.redis := by
  obtain ⟨th', m, hth', hstep, rfl⟩ := System.fire_run _ he
  rw [hth] at hth'
  cases hth'
  constructor
  · intro hrev
    by_cases hgo : ∃ now minted, ch = .go now minted
    · obtain ⟨now, minted, rfl⟩ := hgo
      rcases (step_moves hstep).others hinv how with hsame | ⟨refreshToken, me, pair, rfl, hpair, hr⟩
      · exact hsame
      · rw [System.after_shared, hr]
        exact othersUntouched_erase
          (hrev t now minted refreshToken me pair rfl hth hpair)
    · rw [System.after_shared, step_idle hstep fun now minted h => hgo ⟨now, minted, h⟩]
      exact othersUntouched_refl _ _
  · rintro hsame t' now minted refreshToken me pair ⟨⟩ hth₀ hunpack b hb val hval hl
    rw [hth] at hth₀
    cases hth₀
    have hm : some (logoutRevokeStep c.shared refreshToken me) = some m := hstep
    rw [logoutRevokeStep, hunpack] at hm
    cases hm
    have hgone := ((hsame b hb).entries pair.rid val hval).mpr hl
    simp only [System.after_shared, goOn, revokeRefresh, AList.lookup_erase] at hgone
    cases hgone

/-- The sessions of the others over a run of `a`, by the steps of the run. -/
theorem run_untouched {a : Int} {mine : Nat → Prop} : ∀ (es : List (Event Choice Outside))
    {c c' : Config Shared Handler Obs}, CredentialInv env c → OwnThreads env a mine c →
      (∀ e ∈ es, ∃ t ch, mine t ∧ e = .run t ch) → (authSystem env).exec c es = some c' →
      NothingForOthers a c.shared.redis c'.shared.redis ∧
        ((authSystem env).EachStep (fun c₁ e _ => RevokesNoOther a c₁ e) c es ↔
          OthersUntouched a c.shared.redis c'.shared.redis)
  | [], c, c', _, _, _, h => by
    cases h
    exact ⟨.refl _ _, iff_of_true (System.eachStep_nil _) (othersUntouched_refl _ _)⟩
  | e :: es, c, c', hinv, hown, hes, h => by
    simp only [System.exec] at h
    split at h
    · cases h
    · next c₁ he =>
      obtain ⟨t, ch, hmine, rfl⟩ := hes e List.mem_cons_self
      obtain ⟨th, m, hth, hstep, hc₁⟩ := System.fire_run _ he
      have how := hown t th hth hmine
      have hmove := step_moves hstep
      have hstepIff := step_untouched_iff hinv hth how he
      have hfirst : NothingForOthers a c.shared.redis c₁.shared.redis := by
        rw [hc₁]
        exact hmove.nothingForOthers hinv how
      have hown₁ : OwnThreads env a mine c₁ := by
        rw [hc₁]
        exact hown.move hinv hmove how
      obtain ⟨hrest, hiff⟩ := run_untouched es (hinv.fire he) hown₁
        (fun e' he' => hes e' (List.mem_cons_of_mem _ he')) h
      refine ⟨hfirst.trans hrest, ?_, ?_⟩
      · intro hall
        have hsame₁ := hstepIff.mp (hall.head he)
        have hsame := hiff.mp (hall.tail he)
        exact (hfirst.trans hrest).untouched fun b hb rid val hval hl =>
          ((hsame b hb).entries rid val hval).mpr (((hsame₁ b hb).entries rid val hval).mpr hl)
      · -- what is there at the end was there after the first step and before it
        intro hsame
        refine System.EachStep.cons he (hstepIff.mpr ?_) (hiff.mpr ?_)
        · exact hfirst.untouched fun b hb rid val hval hl =>
            hrest.entries b hb rid val hval (((hsame b hb).entries rid val hval).mpr hl)
        · exact hrest.untouched fun b hb rid val hval hl =>
            ((hsame b hb).entries rid val hval).mpr (hfirst.entries b hb rid val hval hl)

/--
**Users cannot affect each other's sessions, revocations apart.**

A run of requests that carry only the credentials of `a` leaves every other user's version and
refresh entries as they are exactly when none of its logouts deletes a rid of somebody else.
-/
theorem others_untouched_iff {c c' : Config Shared Handler Obs} (h : Reachable env c) {a : Int}
    {mine : Nat → Prop}
    (hown : OwnThreads env a mine c) {es : List (Event Choice Outside)}
    (hes : ∀ e ∈ es, ∃ t ch, mine t ∧ e = .run t ch)
    (hexec : (authSystem env).exec c es = some c') :
    OthersUntouched a c.shared.redis c'.shared.redis ↔
      (authSystem env).EachStep (fun c₁ e _ => RevokesNoOther a c₁ e) c es :=
  (run_untouched es (credential_invariant h) hown hes hexec).2.symm

def bob : User := { alice with id := 8, email := "bob@corp.example".toList }

/-- The rid of Bob's refresh token in front of a made up secret. -/
def forgedToken : Str := packRefresh { firstPair with secret := "x".toList }

/-- Bob and Alice log in, and Alice logs out with Bob's rid. -/
def logoutRequests : List Handler :=
  [.login { email := bob.email, password := alicePassword },
    .login { email := alice.email, password := alicePassword },
    .currentUser (.logout forgedToken) (some (aliceAccess 1000))]

def bothLogins : List (Event Choice Outside) :=
  [call 0 1000, call 0 1000, call 0 1000, call 1 1000, call 1 1000, call 1 1000 secondPair]

def logoutCalls : List (Event Choice Outside) :=
  [call 2 1100, call 2 1100, call 2 1100, call 2 1100]

theorem forgedLogout_run :
    ∃ c c', Reachable sampleEnv c ∧ OwnThreads sampleEnv 7 (fun t => t = 2) c ∧
      (∀ e ∈ logoutCalls, ∃ t ch, t = 2 ∧ e = .run t ch) ∧
      (authSystem sampleEnv).exec c logoutCalls = some c' ∧
      c.shared.redis.lookup (keyRefresh firstPair.rid)
        = some (refreshValue sampleEnv.sha256 8 1 firstPair.secret) ∧
      c'.shared.redis.lookup (keyRefresh firstPair.rid) = none := by
  have hbefore : ((authSystem sampleEnv).exec (Config.start (initial [bob, alice]) logoutRequests)
      bothLogins).map (fun c => (c.threads[2]?, c.shared.redis.lookup (keyRefresh firstPair.rid)))
        = some (logoutRequests[2]?, some (refreshValue sampleEnv.sha256 8 1 firstPair.secret)) := by
    decide +kernel
  have hafter : ((authSystem sampleEnv).exec (Config.start (initial [bob, alice]) logoutRequests)
      (bothLogins ++ logoutCalls)).map (fun c => c.shared.redis.lookup (keyRefresh firstPair.rid))
        = some none := by
    decide +kernel
  obtain ⟨c, hc, hpair⟩ := Option.map_eq_some_iff.mp hbefore
  obtain ⟨hthread, hentry⟩ := Prod.mk.inj hpair
  rw [System.exec_append, hc, Option.bind_some] at hafter
  obtain ⟨c', hc', hgone⟩ := Option.map_eq_some_iff.mp hafter
  refine ⟨c, c', ⟨[bob, alice], logoutRequests, bothLogins, ?_, hc⟩, ?_, ?_, hc', hentry, hgone⟩
  · simp only [logoutRequests, List.forall_mem_cons, List.not_mem_nil, false_implies, implies_true,
      and_true]
    exact ⟨.login _, .login _, .currentUser _ _⟩
  · rintro _ th hth rfl
    rw [hthread] at hth
    cases hth
    rintro _ ⟨⟩ u hu
    have hsub : int? (aliceAccess 1000).sub = some 7 := int?_str 7
    exact (Option.some.inj (hsub.symm.trans hu)).symm
  · simp only [logoutCalls, call, List.forall_mem_cons, List.not_mem_nil, false_implies,
      implies_true, and_true]
    exact ⟨⟨2, _, rfl, rfl⟩, ⟨2, _, rfl, rfl⟩, ⟨2, _, rfl, rfl⟩, ⟨2, _, rfl, rfl⟩⟩

theorem others_untouched_iff_in_forgedLogout :
    ∃ c c', Reachable sampleEnv c ∧ (authSystem sampleEnv).exec c logoutCalls = some c' ∧
      (OthersUntouched 7 c.shared.redis c'.shared.redis ↔
        (authSystem sampleEnv).EachStep (fun c₁ e _ => RevokesNoOther 7 c₁ e) c logoutCalls) := by
  obtain ⟨c, c', hc, hown, hes, hexec, -, -⟩ := forgedLogout_run
  exact ⟨c, c', hc, hexec, others_untouched_iff hc hown hes hexec⟩

/-- Alice logs out with Bob's rid, and Bob's refresh token is gone. -/
theorem logout_revokes_other :
    ¬∀ (env : AuthEnv) (c c' : Config Shared Handler Obs) (a : Int) (mine : Nat → Prop)
      (es : List (Event Choice Outside)), Reachable env c → OwnThreads env a mine c →
      (∀ e ∈ es, ∃ t ch, mine t ∧ e = .run t ch) → (authSystem env).exec c es = some c' →
      OthersUntouched a c.shared.redis c'.shared.redis := by
  intro h
  obtain ⟨c, c', hc, hown, hes, hexec, hentry, hgone⟩ := forgedLogout_run
  have hsame := h sampleEnv c c' 7 _ _ hc hown hes hexec 8 (by decide)
  have hkept := (hsame.entries _ _ (recordedFor_refreshValue.mpr rfl)).mpr hentry
  rw [hgone] at hkept
  cases hkept

end EnterpriseAssistant.Authn
