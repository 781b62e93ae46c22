import EnterpriseAssistant.Kb.Processing

/-!
# Does the metadata follow the status?

Runs of `run_ingestion` and calls of `mark_uploaded` on one asset, one after the other.

A run that fails merges its message into the metadata, and nothing takes the key out again: a run
that succeeds behind it makes the asset ready with the message of another.

* `phase_step` — where an operation stands says what the row holds
* `MetaInv` — the message of the run that has failed last, and the keys of the beginning
* `failure_meta_iff` — the runs in which the metadata follows the status
-/

namespace EnterpriseAssistant.Kb.Machine

open Py Core Infra Kb Interleaving System

/-! ## Failures as observations -/

/-- The message of a run that fails in its `try`. -/
def Task.caught : Task → List Str
  | .ingestExcept _ error _ => [error]
  | _ => []

/-- The operations, observed by the messages of the runs that fail. -/
def failureSystem (guessType : Str → Option Str) (errorText : Exn → Str) :
    System Database Task Choice Empty Str where
  step db t th ch :=
    ((kbSystem guessType errorText).step db t th ch).map fun m =>
      { shared := m.shared, thread := m.thread, obs := m.thread.caught }
  env _ e := nomatch e

abbrev FailureConfig := Config Database Task Str

/-- A run on the asset or an upload of it, before its first select. -/
def Task.Called (assetId : Int) : Task → Prop
  | .ingest id | .upload id _ => id = assetId
  | _ => False

/-- It has not begun, or it is over. -/
def Task.Idle (assetId : Int) : Task → Prop
  | .ingest id | .upload id _ => id = assetId
  | .ingested _ | .ended => True
  | _ => False

instance (assetId : Int) (th : Task) : Decidable (th.Idle assetId) :=
  match th with
  | .ingest id | .upload id _ => inferInstanceAs (Decidable (id = assetId))
  | .ingested _ | .ended => isTrue trivial
  | .ingestStart _ | .ingestLoad _ _ | .ingestFinish _ _ _ | .ingestLeave _ _ | .ingestExcept _ _ _
  | .ingestFail _ _ _ | .uploadStore _ _ | .softDelete _ | .softDeleteStore _ => isFalse id

/-- No other operation is under way. -/
def Alone (assetId : Int) (c : FailureConfig) (t : Nat) : Prop :=
  ∀ (i : Nat) (th : Task), i ≠ t → c.threads[i]? = some th → th.Idle assetId

/-- One operation after the other, and nothing is raised while a run is handling an error. -/
def InTurn (assetId : Int) (c : FailureConfig) (e : Event Choice Empty) (_ : FailureConfig) : Prop :=
  ∀ t ch, e = .run t ch → Alone assetId c t ∧
    ∀ error th, ch = .raises error → c.threads[t]? = some th → ¬th.Handling

/-- `asset.meta.get(key)`, of no metadata too. -/
def metaOf (a : KBAsset) (key : String) : Option MetaVal := (a.meta.getD []).lookup key

/-- The keys that `sniff` patches. -/
def sniffKeys : List String := ["filename", "mime_type", "source_type"]

/-- The metadata of an asset that was created with `original`, behind runs that have failed with these
messages, the last in front. -/
structure FollowsStatus (original : Meta) (messages : List Str) (a : KBAsset) : Prop where
  ready : a.status = .ready → metaOf a "error" = none
  failed : a.status = .failed →
    ∃ message, messages.head? = some message ∧ metaOf a "error" = some (.str message)
  kept : ∀ k v, original.lookup k = some v → k ∉ sniffKeys → metaOf a k = some v

def MetaFollows (original : Meta) (assetId : Int) (_ : FailureConfig) (_ : Event Choice Empty)
    (c : FailureConfig) : Prop :=
  ∃ a, assetById c.shared assetId = some a ∧ FollowsStatus original c.history a

/-- The second block of the run commits. -/
def Task.Finishing (th : Task) (ch : Choice) : Prop :=
  ∃ asset asset2 jobId now, th = .ingestFinish asset asset2 jobId ∧ ch = .go now

/-- The second block of a run does not commit after one has failed. -/
def NoneFailedBefore (c : FailureConfig) (e : Event Choice Empty) (_ : FailureConfig) : Prop :=
  ∀ t ch th, e = .run t ch → c.threads[t]? = some th → th.Finishing ch → c.history = []

/-! ## Patches -/

theorem metaOf_withStatus (status : AssetStatus) (patch : Option Meta) (a : KBAsset) (k : String) :
    metaOf (withStatus status patch a) k = ((a.meta.getD []).update (patch.getD [])).lookup k := by
  simp only [metaOf, withStatus, patchMeta]
  split
  · next h =>
    rw [h]
    rfl
  · rfl

theorem metaOf_processing (a : KBAsset) (k : String) :
    metaOf (withStatus .processing none a) k = metaOf a k :=
  metaOf_withStatus .processing none a k

theorem metaOf_failed (error : Str) (a : KBAsset) (k : String) :
    metaOf (failedRow error a) k = if k = "error" then some (.str error) else metaOf a k := by
  rw [failedRow, metaOf_withStatus]
  exact Meta.lookup_set "error" k (.str error) _

theorem key_of_mem_metaEntry {key : String} {v : Option Str} {e : String × MetaVal}
    (h : e ∈ metaEntry key v) : e.1 = key := by
  simp only [metaEntry, Option.mem_toList, Option.map_eq_some_iff] at h
  obtain ⟨s, -, rfl⟩ := h
  rfl

/-- The second block changes nothing but what `sniff` says. -/
theorem metaOf_ready (guessType : Str → Option Str) (filename : Str) (hint : Option Str)
    (a : KBAsset) {k : String} (hk : k ∉ sniffKeys) :
    metaOf (readyRow (sniff guessType filename hint) a) k = metaOf a k := by
  rw [readyRow, metaOf_withStatus]
  refine Meta.lookup_update_of_notMem (fun hmem => hk ?_) _
  obtain ⟨e, he, rfl⟩ := List.mem_map.mp hmem
  simp only [sniff, Option.getD_some, List.mem_cons, List.mem_append] at he
  rcases he with rfl | he | he
  · exact List.mem_cons_self
  · rw [key_of_mem_metaEntry he]
    simp [sniffKeys]
  · rw [key_of_mem_metaEntry he]
    simp [sniffKeys]

/-! ## The row of the asset -/

theorem flushColumn_current {α : Type} [DecidableEq α] (old new : α) :
    flushColumn old new old = new := by
  unfold flushColumn
  split
  · next h => exact h.symm
  · rfl

/-- A row that is flushed over what was loaded is the new row. -/
theorem assetById_flushed {db : Database} {a new : KBAsset} {id : Int}
    (ha : assetById db id = some a) (hnew : flushColumns a new a = new) :
    assetById (storedIn a new db) id = some new := by
  rw [assetById_storedIn, ha, Option.map_some, if_pos rfl, hnew]

theorem flushColumns_withStatus (status : AssetStatus) (patch : Option Meta) (a : KBAsset) :
    flushColumns a (withStatus status patch a) a = withStatus status patch a := by
  simp [flushColumns, withStatus, flushColumn_current]

theorem flushColumns_ready (sr : SniffResult) (a : KBAsset) :
    flushColumns a (readyRow sr a) a = readyRow sr a := by
  simp [flushColumns, readyRow, withStatus, flushColumn_current]

theorem flushColumns_uploaded (args : UploadArgs) (a : KBAsset) :
    flushColumns a (uploadedRow args a) a = uploadedRow args a := by
  simp [flushColumns, uploadedRow, flushColumn_current]

theorem assetById_congr {db db' : Database} (h : db'.assets = db.assets) (id : Int) :
    assetById db' id = assetById db id := by
  rw [assetById, assetById, h]

/-! ## What an operation knows about the row -/

/-- The row behind runs that have failed with these messages and have written them. -/
structure MetaInv (original : Meta) (messages : List Str) (a : KBAsset) : Prop where
  live : a.status ≠ .deleted
  failed : a.status = .failed → messages ≠ []
  error : metaOf a "error" = messages.head?.map .str
  kept : ∀ k, k ≠ "error" → k ∉ sniffKeys → metaOf a k = original.lookup k

/-- As above, but for the message of the run that is handling its error. -/
def HandlingInv (original : Meta) (messages : List Str) (error : Str) (a : KBAsset) : Prop :=
  a.status ≠ .failed ∧ ∃ earlier, messages = error :: earlier ∧ MetaInv original earlier a

/-- The row where an operation stands that has had the asset to itself. -/
def Task.Phase (original : Meta) (assetId : Int) (messages : List Str) (a : KBAsset) : Task → Prop
  | .ingest id | .upload id _ => id = assetId ∧ MetaInv original messages a
  | .ingestStart asset | .uploadStore asset _ => asset = a ∧ MetaInv original messages a
  | .ingestLoad asset _ =>
    asset.id = assetId ∧ a.status = .processing ∧ MetaInv original messages a
  | .ingestFinish asset asset2 _ =>
    asset.id = assetId ∧ asset2 = a ∧ a.status = .processing ∧ MetaInv original messages a
  | .ingestLeave id _ => id = assetId ∧ a.status = .ready ∧ MetaInv original messages a
  | .ingestExcept id error _ => id = assetId ∧ HandlingInv original messages error a
  | .ingestFail asset3 error _ => asset3 = some a ∧ HandlingInv original messages error a
  | .ingested _ | .ended => MetaInv original messages a
  | .softDelete _ | .softDeleteStore _ => False

/-- A step of the operation `th`: what becomes of the row. -/
inductive RowStep (th : Task) (ch : Choice) (a : KBAsset) : KBAsset → Prop where
  | same (h : ¬th.Finishing ch) : RowStep th ch a a
  | written {a' : KBAsset} (h : ¬th.Finishing ch) (hstatus : a'.status ≠ .ready) :
    RowStep th ch a a'
  | finished {a' : KBAsset} (h : th.Finishing ch) (hstatus : a'.status = .ready)
    (herror : metaOf a' "error" = metaOf a "error") : RowStep th ch a a'

section Spec

variable {guessType : Str → Option Str} {errorText : Exn → Str} {original : Meta} {assetId : Int}
  {messages : List Str} {db : Database} {t : Nat} {a : KBAsset}

/-- A row with another status and the same metadata, but for what `sniff` says. -/
theorem MetaInv.congr (h : MetaInv original messages a) {a' : KBAsset}
    (hlive : a'.status ≠ .deleted) (hfailed : a'.status ≠ .failed)
    (hmeta : ∀ k, k ∉ sniffKeys → metaOf a' k = metaOf a k) : MetaInv original messages a' where
  live := hlive
  failed := fun hstatus => absurd hstatus hfailed
  error := by
    rw [hmeta "error" (by decide)]
    exact h.error
  kept := fun k hne hk => by
    rw [hmeta k hk]
    exact h.kept k hne hk

/-- The error path writes its message. -/
theorem MetaInv.failed_row (h : MetaInv original messages a) (error : Str) :
    MetaInv original (error :: messages) (failedRow error a) where
  live := fun hstatus => AssetStatus.noConfusion hstatus
  failed := fun _ => List.cons_ne_nil _ _
  error := metaOf_failed error a "error"
  kept := fun k hne hk => by
    rw [metaOf_failed, if_neg hne]
    exact h.kept k hne hk

/-- A run that raises in its `try` goes on to handle the error. -/
theorem HandlingInv.of_try (h : MetaInv original messages a) (hstatus : a.status ≠ .failed)
    (error : Str) : HandlingInv original (error :: messages) error a :=
  ⟨hstatus, messages, rfl, h⟩

/-- What a step leaves behind. -/
def PhaseStep (original : Meta) (assetId : Int) (messages : List Str) (a : KBAsset) (th : Task)
    (ch : Choice) (m : KbMove) : Prop :=
  ∃ a', assetById m.shared assetId = some a' ∧
    m.thread.Phase original assetId (m.thread.caught ++ messages) a' ∧ RowStep th ch a a'

/-- The row that an operation has loaded is there when it writes it back. -/
theorem present_of_assetById (ha : assetById db assetId = some a) : assetById db a.id ≠ none := by
  simp [id_of_assetById ha, ha]

theorem Task.not_finishing {th : Task} {ch : Choice}
    (h : ∀ asset asset2 jobId, th ≠ .ingestFinish asset asset2 jobId) : ¬th.Finishing ch := by
  rintro ⟨asset, asset2, jobId, _, hth, -⟩
  exact h asset asset2 jobId hth

/-- A step that leaves the row as it is. -/
theorem phaseStep_goOn {th th' : Task} {ch : Choice} {obs : List Obs}
    (ha : assetById db assetId = some a) (hch : ¬th.Finishing ch)
    (hth' : th'.Phase original assetId (th'.caught ++ messages) a) :
    PhaseStep original assetId messages a th ch { shared := db, thread := th', obs := obs } :=
  ⟨a, ha, hth', .same hch⟩

theorem phaseStep_loadLive {th : Task} {ch : Choice} {next : KBAsset → Task} {otherwise : Task}
    (ha : assetById db assetId = some a) (hlive : a.status ≠ .deleted) (hch : ¬th.Finishing ch)
    (hnext : (next a).Phase original assetId ((next a).caught ++ messages) a) :
    PhaseStep original assetId messages a th ch (loadLive db t assetId next otherwise) := by
  simp only [loadLive, ha, if_neg hlive]
  exact phaseStep_goOn ha hch hnext

theorem phase_raise {th : Task} {error : Str} {m : KbMove}
    (h : raiseStep db th error = some m) (hhandled : ¬th.Handling)
    (ha : assetById db assetId = some a) (hp : th.Phase original assetId messages a) :
    PhaseStep original assetId messages a th (.raises error) m := by
  have hch : ¬th.Finishing (.raises error) := by
    rintro ⟨_, _, _, _, -, hgo⟩
    cases hgo
  cases th with
  | ingest id | upload id args =>
    cases h
    exact phaseStep_goOn ha hch hp.2
  | ingestStart asset | uploadStore asset args =>
    cases h
    exact phaseStep_goOn ha hch hp.2
  | ingestLoad asset jobId =>
    cases h
    obtain ⟨hid, hstatus, hinv⟩ := hp
    exact phaseStep_goOn ha hch ⟨hid, .of_try hinv (by rw [hstatus]; decide) error⟩
  | ingestFinish asset asset2 jobId =>
    cases h
    obtain ⟨hid, -, hstatus, hinv⟩ := hp
    exact phaseStep_goOn ha hch ⟨hid, .of_try hinv (by rw [hstatus]; decide) error⟩
  | ingestLeave id jobId =>
    cases h
    obtain ⟨hid, hstatus, hinv⟩ := hp
    exact phaseStep_goOn ha hch ⟨hid, .of_try hinv (by rw [hstatus]; decide) error⟩
  | ingestExcept id error' jobId => exact absurd trivial hhandled
  | ingestFail asset3 error' jobId => exact absurd trivial hhandled
  | ingested jobId => cases h
  | ended => cases h
  | softDelete id => cases hp
  | softDeleteStore asset => cases hp

theorem phase_start {now : Int} {m : KbMove} (ha : assetById db assetId = some a)
    (hm : m = ingestStartStep db t a now) (hinv : MetaInv original messages a) :
    PhaseStep original assetId messages a (.ingestStart a) (.go now) m := by
  have hid := id_of_assetById ha
  unfold ingestStartStep at hm
  split at hm
  · next e herr =>
    exact absurd (startBlock_error herr) (present_of_assetById ha)
  · next job db' hok =>
    obtain ⟨db₁, hinsert, rfl⟩ := startBlock_ok hok
    subst hm
    have ha₁ : assetById db₁ assetId = some a := by
      rw [assetById_congr (insertJob_assets hinsert), ha]
    refine ⟨withStatus .processing none a, ?_, ⟨hid, rfl, ?_⟩, .written ?_ ?_⟩
    · exact assetById_flushed ha₁ (flushColumns_withStatus _ _ a)
    · exact hinv.congr (fun h => AssetStatus.noConfusion h) (fun h => AssetStatus.noConfusion h)
        fun k _ => metaOf_processing a k
    · exact Task.not_finishing fun _ _ _ => Task.noConfusion
    · exact fun h => AssetStatus.noConfusion h

theorem phase_finish {now : Int} {asset : KBAsset} {jobId : Int} {m : KbMove}
    (ha : assetById db assetId = some a) (hasset : asset.id = assetId)
    (hm : m = ingestFinishStep errorText db t asset.id
      (sniff guessType asset.filename asset.mimeType) a jobId now)
    (hinv : MetaInv original messages a) :
    PhaseStep original assetId messages a (.ingestFinish asset a jobId) (.go now) m := by
  unfold ingestFinishStep at hm
  split at hm
  · next e herr =>
    exact absurd (readyBlock_error herr) (present_of_assetById ha)
  · next u db' hok =>
    have hdb := readyBlock_ok hok
    subst hm
    refine ⟨readyRow (sniff guessType asset.filename asset.mimeType) a, ?_, ⟨hasset, rfl, ?_⟩,
      .finished ⟨asset, a, jobId, now, rfl, rfl⟩ rfl (metaOf_ready _ _ _ a (by decide))⟩
    · show assetById db' assetId = _
      rw [hdb]
      exact assetById_flushed ha (flushColumns_ready _ a)
    · exact hinv.congr (fun h => AssetStatus.noConfusion h) (fun h => AssetStatus.noConfusion h)
        fun k hk => metaOf_ready _ _ _ a hk

theorem phase_fail {now : Int} {error : Str} {jobId : Int} {m : KbMove}
    (ha : assetById db assetId = some a)
    (hm : m = ingestFailStep db t (some a) error jobId now)
    (hinv : HandlingInv original messages error a) :
    PhaseStep original assetId messages a (.ingestFail (some a) error jobId) (.go now) m := by
  obtain ⟨-, earlier, rfl, hinv⟩ := hinv
  have hw := failWrite_some hinv.live error
  unfold ingestFailStep at hm
  split at hm
  · next e herr =>
    exact absurd (failBlock_error_live hinv.live herr) (present_of_assetById ha)
  · next u db' hok =>
    have hdb := failBlock_ok hok
    rw [hw] at hdb hm
    subst hm
    refine ⟨failedRow error a, ?_, hinv.failed_row error, .written ?_ ?_⟩
    · show assetById db' assetId = _
      rw [hdb]
      exact assetById_flushed ha (flushColumns_withStatus _ _ a)
    · exact Task.not_finishing fun _ _ _ => Task.noConfusion
    · exact fun h => AssetStatus.noConfusion h

theorem phase_upload {now : Int} {args : UploadArgs} {m : KbMove}
    (ha : assetById db assetId = some a) (hm : m = storeStep db t a (uploadedRow args a))
    (hinv : MetaInv original messages a) :
    PhaseStep original assetId messages a (.uploadStore a args) (.go now) m := by
  unfold storeStep at hm
  split at hm
  · next e herr =>
    exact absurd (flushAsset_error herr) (present_of_assetById ha)
  · next u db' hok =>
    have hdb := flushAsset_ok hok
    subst hm
    refine ⟨uploadedRow args a, ?_, ?_, .written ?_ ?_⟩
    · show assetById db' assetId = _
      rw [hdb]
      exact assetById_flushed ha (flushColumns_uploaded args a)
    · exact hinv.congr (fun h => AssetStatus.noConfusion h) (fun h => AssetStatus.noConfusion h)
        fun _ _ => rfl
    · exact Task.not_finishing fun _ _ _ => Task.noConfusion
    · exact fun h => AssetStatus.noConfusion h

/-- **One step** of an operation that has the asset to itself. -/
theorem phase_step {th : Task} {ch : Choice} {m : KbMove}
    (h : (kbSystem guessType errorText).step db t th ch = some m)
    (hhandled : ∀ error, ch = .raises error → ¬th.Handling)
    (ha : assetById db assetId = some a) (hp : th.Phase original assetId messages a) :
    PhaseStep original assetId messages a th ch m := by
  cases ch with
  | raises error => exact phase_raise h (hhandled error rfl) ha hp
  | go now =>
    cases th with
    | ingest id =>
      cases h
      obtain ⟨rfl, hinv⟩ := hp
      refine phaseStep_loadLive ha hinv.live (Task.not_finishing fun _ _ _ => Task.noConfusion) ?_
      split
      · exact hinv
      · exact ⟨rfl, hinv⟩
    | ingestStart asset =>
      cases h
      obtain ⟨rfl, hinv⟩ := hp
      exact phase_start ha rfl hinv
    | ingestLoad asset jobId =>
      cases h
      obtain ⟨rfl, hstatus, hinv⟩ := hp
      exact phaseStep_loadLive ha hinv.live (Task.not_finishing fun _ _ _ => Task.noConfusion)
        ⟨rfl, rfl, hstatus, hinv⟩
    | ingestFinish asset asset2 jobId =>
      cases h
      obtain ⟨hasset, rfl, -, hinv⟩ := hp
      exact phase_finish ha hasset rfl hinv
    | ingestLeave id jobId =>
      cases h
      exact phaseStep_goOn ha (Task.not_finishing fun _ _ _ => Task.noConfusion) hp.2.2
    | ingestExcept id error jobId =>
      cases h
      obtain ⟨rfl, hinv⟩ := hp
      exact phaseStep_goOn ha (Task.not_finishing fun _ _ _ => Task.noConfusion) ⟨ha, hinv⟩
    | ingestFail asset3 error jobId =>
      cases h
      obtain ⟨rfl, hinv⟩ := hp
      exact phase_fail ha rfl hinv
    | ingested jobId => cases h
    | upload id args =>
      cases h
      obtain ⟨rfl, hinv⟩ := hp
      exact phaseStep_loadLive ha hinv.live (Task.not_finishing fun _ _ _ => Task.noConfusion)
        ⟨rfl, hinv⟩
    | uploadStore asset args =>
      cases h
      obtain ⟨rfl, hinv⟩ := hp
      exact phase_upload ha rfl hinv
    | softDelete id => cases hp
    | softDeleteStore asset => cases hp
    | ended => cases h

theorem phase_of_idle {th : Task} (h : th.Idle assetId) :
    th.Phase original assetId messages a ↔ MetaInv original messages a := by
  cases th with
  | ingest id => exact and_iff_right h
  | upload id args => exact and_iff_right h
  | ingested jobId => exact Iff.rfl
  | ended => exact Iff.rfl
  | _ => cases h

/-- The metadata follows the status, but for a message that a ready asset still has. -/
theorem follows_of_phase {th : Task} (hp : th.Phase original assetId messages a)
    (hnew : original.lookup "error" = none)
    (hready : a.status = .ready → metaOf a "error" = none) : FollowsStatus original messages a := by
  have hof : ∀ {earlier : List Str}, MetaInv original earlier a →
      (a.status = .failed → earlier = messages) → FollowsStatus original messages a := by
    intro earlier hinv hsame
    refine ⟨hready, fun hstatus => ?_, fun k v hk hsniff => ?_⟩
    · obtain rfl := hsame hstatus
      obtain ⟨message, rest, rfl⟩ := List.exists_cons_of_ne_nil (hinv.failed hstatus)
      exact ⟨message, rfl, hinv.error⟩
    · rw [hinv.kept k ?_ hsniff, hk]
      rintro rfl
      rw [hnew] at hk
      cases hk
  cases th with
  | ingest id | upload id args | ingestStart asset | uploadStore asset args =>
    exact hof hp.2 fun _ => rfl
  | ingestLoad asset jobId | ingestLeave id jobId => exact hof hp.2.2 fun _ => rfl
  | ingestFinish asset asset2 jobId => exact hof hp.2.2.2 fun _ => rfl
  | ingestExcept id error jobId | ingestFail asset3 error jobId =>
    obtain ⟨-, hstatus, earlier, -, hinv⟩ := hp
    exact hof hinv fun hfailed => absurd hfailed hstatus
  | ingested jobId | ended => exact hof hp fun _ => rfl
  | softDelete id => cases hp
  | softDeleteStore asset => cases hp

end Spec

/-! ## What holds in every run -/

/-- The row of the asset, as every operation knows it that has the asset to itself. -/
def MetaRun (original : Meta) (assetId : Int) (c : FailureConfig) : Prop :=
  ∃ a, assetById c.shared assetId = some a ∧
    ∀ (t : Nat) (th : Task), Alone assetId c t → c.threads[t]? = some th →
      th.Phase original assetId c.history a

/-- What a ready asset says about failures. -/
def ReadyClean (assetId : Int) (c : FailureConfig) : Prop :=
  ∀ a, assetById c.shared assetId = some a → a.status = .ready → metaOf a "error" = none

section Runs

variable {guessType : Str → Option Str} {errorText : Exn → Str} {original : Meta} {assetId : Int}
  {c c' : FailureConfig} {e : Event Choice Empty}

/-- A step in turn: the operation that moves, and the row before and behind it. -/
theorem MetaRun.fired (hinv : MetaRun original assetId c)
    (h : (failureSystem guessType errorText).fire c e = some c')
    (hturn : InTurn assetId c e c') :
    ∃ t ch th th' a a', e = .run t ch ∧ c.threads[t]? = some th ∧
      c'.threads = c.threads.set t th' ∧ assetById c.shared assetId = some a ∧
      assetById c'.shared assetId = some a' ∧ th.Phase original assetId c.history a ∧
      th'.Phase original assetId c'.history a' ∧ RowStep th ch a a' := by
  cases e with
  | env e => exact nomatch e
  | run t ch =>
    obtain ⟨th, m, hth, hm, rfl⟩ := fire_run _ h
    obtain ⟨m, hstep, rfl⟩ := Option.map_eq_some_iff.mp hm
    obtain ⟨halone, hhandled⟩ := hturn t ch rfl
    obtain ⟨a, ha, hphase⟩ := hinv
    obtain ⟨a', ha', hphase', hrow⟩ :=
      phase_step hstep (fun error heq => hhandled error th heq hth) ha (hphase t th halone hth)
    exact ⟨t, ch, th, m.thread, a, a', rfl, hth, rfl, ha, ha', hphase t th halone hth, hphase',
      hrow⟩

theorem MetaRun.step (hinv : MetaRun original assetId c)
    (h : (failureSystem guessType errorText).fire c e = some c')
    (hturn : InTurn assetId c e c') : MetaRun original assetId c' := by
  obtain ⟨t, ch, th, th', a, a', rfl, hth, hthreads, -, ha', -, hphase', -⟩ := hinv.fired h hturn
  have hlt : t < c.threads.length := (List.getElem?_eq_some_iff.mp hth).1
  have hself : c'.threads[t]? = some th' := by
    rw [hthreads, List.getElem?_set_self hlt]
  refine ⟨a', ha', fun i th₂ halone hth₂ => ?_⟩
  by_cases hi : t = i
  · subst hi
    cases hself.symm.trans hth₂
    exact hphase'
  · -- both this operation and the one that has moved are idle
    have hmoved : th'.Idle assetId := halone t th' hi hself
    have hother : th₂.Idle assetId := by
      refine (hturn t ch rfl).1 i th₂ (Ne.symm hi) ?_
      rw [← hth₂, hthreads, List.getElem?_set_ne hi]
    exact (phase_of_idle hother).mpr ((phase_of_idle hmoved).mp hphase')

theorem ReadyClean.step (hinv : MetaRun original assetId c) (hclean : ReadyClean assetId c)
    (h : (failureSystem guessType errorText).fire c e = some c') (hturn : InTurn assetId c e c')
    (hnone : NoneFailedBefore c e c') : ReadyClean assetId c' := by
  obtain ⟨t, ch, th, th', a, a', rfl, hth, -, ha, ha', hphase, -, hrow⟩ := hinv.fired h hturn
  intro row hrow' hready
  cases ha'.symm.trans hrow'
  cases hrow with
  | same _ => exact hclean a ha hready
  | written _ hstatus => exact absurd hready hstatus
  | finished hfin hstatus herror =>
    have hhistory : c.history = [] := hnone t ch th rfl hth hfin
    obtain ⟨asset, asset2, jobId, now, rfl, -⟩ := hfin
    obtain ⟨-, -, -, hmeta⟩ := hphase
    rw [herror, hmeta.error, hhistory]
    rfl

theorem MetaRun.follows (hinv : MetaRun original assetId c) (hclean' : ReadyClean assetId c')
    (hnew : original.lookup "error" = none)
    (h : (failureSystem guessType errorText).fire c e = some c') (hturn : InTurn assetId c e c') :
    MetaFollows original assetId c e c' := by
  obtain ⟨t, ch, th, th', a, a', rfl, -, -, -, ha', -, hphase', -⟩ := hinv.fired h hturn
  exact ⟨a', ha', follows_of_phase hphase' hnew (hclean' a' ha')⟩

/-- Where the metadata follows, the second block of a run has met no failure. -/
theorem MetaRun.none_failed (hinv : MetaRun original assetId c)
    (h : (failureSystem guessType errorText).fire c e = some c') (hturn : InTurn assetId c e c')
    (hfollows : MetaFollows original assetId c e c') : NoneFailedBefore c e c' := by
  obtain ⟨t, ch, th, th', a, a', rfl, hth, -, -, ha', hphase, -, hrow⟩ := hinv.fired h hturn
  intro t₂ ch₂ th₂ heq hth₂ hfin
  cases heq
  cases hth.symm.trans hth₂
  obtain ⟨row, hrow', hstatus'⟩ := hfollows
  cases ha'.symm.trans hrow'
  cases hrow with
  | same hnot => exact absurd hfin hnot
  | written hnot _ => exact absurd hfin hnot
  | finished _ hstatus herror =>
    obtain ⟨asset, asset2, jobId, now, rfl, -⟩ := hfin
    obtain ⟨-, -, -, hmeta⟩ := hphase
    have hnone := hstatus'.ready hstatus
    rw [herror, hmeta.error, Option.map_eq_none_iff, List.head?_eq_none_iff] at hnone
    exact hnone

end Runs

/-- The row that `create_asset` inserts. -/
theorem assetById_insertAsset {args : CreateAssetArgs} {db₀ db : Database} {a : KBAsset}
    (h : insertAsset args db₀ = .ok (a, db)) :
    assetById db a.id = some a ∧ a.status = .pending ∧ a.meta = args.meta := by
  unfold insertAsset at h
  split at h
  · cases h
    refine ⟨?_, rfl, rfl⟩
    have hfresh : db₀.assets.find? (fun b => b.id == freshId (db₀.assets.map fun a => a.id))
        = none := by
      refine List.find?_eq_none.mpr fun b hb => ?_
      have hlt := lt_freshId (List.mem_map_of_mem (f := fun a : KBAsset => a.id) hb)
      simp only [beq_iff_eq]
      omega
    simp only [assetById, List.find?_append, hfresh, Option.none_or, List.find?_singleton,
      beq_self_eq_true, if_true]
  · cases h

theorem metaRun_start {args : CreateAssetArgs} {db₀ db : Database} {a : KBAsset}
    (hcreate : insertAsset args db₀ = .ok (a, db))
    (hnew : (args.meta.getD []).lookup "error" = none) {tasks : List Task}
    (htasks : ∀ th ∈ tasks, th.Called a.id) :
    MetaRun (args.meta.getD []) a.id (.start db tasks) ∧ ReadyClean a.id (.start db tasks) := by
  obtain ⟨ha, hstatus, hmeta⟩ := assetById_insertAsset hcreate
  have hinv : MetaInv (args.meta.getD []) [] a := by
    refine ⟨by rw [hstatus]; decide, fun h => ?_, ?_, fun k _ _ => ?_⟩
    · rw [hstatus] at h
      cases h
    · rw [metaOf, hmeta, hnew]
      rfl
    · rw [metaOf, hmeta]
  refine ⟨⟨a, ha, fun t th _ hth => ?_⟩, fun row hrow hready => ?_⟩
  · have hcalled := htasks th (List.mem_of_getElem? hth)
    refine (phase_of_idle ?_).mpr hinv
    cases th with
    | ingest id => exact hcalled
    | upload id args => exact hcalled
    | _ => cases hcalled
  · cases ha.symm.trans hrow
    rw [hstatus] at hready
    cases hready

/--
**When the metadata follows the status.**  For an asset that is created without an error, and
operations on it one after the other, the metadata follows the status in every state of a run
exactly when no second block commits after a run has failed.
-/
theorem failure_meta_iff (guessType : Str → Option Str) (errorText : Exn → Str)
    (args : CreateAssetArgs) (db₀ db : Database) (a : KBAsset)
    (hcreate : insertAsset args db₀ = .ok (a, db))
    (hnew : (args.meta.getD []).lookup "error" = none) (tasks : List Task)
    (htasks : ∀ th ∈ tasks, th.Called a.id) (es : List (Event Choice Empty))
    (hturn : (failureSystem guessType errorText).EachStep (InTurn a.id) (.start db tasks) es) :
    (failureSystem guessType errorText).EachStep (MetaFollows (args.meta.getD []) a.id)
        (.start db tasks) es ↔
      (failureSystem guessType errorText).EachStep NoneFailedBefore (.start db tasks) es := by
  obtain ⟨hstart, hclean⟩ := metaRun_start hcreate hnew htasks
  constructor
  · intro hfollows
    refine EachStep.of_invariant (P := fun c e c' => InTurn a.id c e c' ∧
      MetaFollows (args.meta.getD []) a.id c e c') (I := MetaRun (args.meta.getD []) a.id)
      (hturn.and hfollows) hstart ?_ ?_
    · exact fun c e c' hc he hP => hc.step he hP.1
    · exact fun c e c' hc he hP => hc.none_failed he hP.1 hP.2
  · intro hnone
    refine EachStep.of_invariant (P := fun c e c' => InTurn a.id c e c' ∧ NoneFailedBefore c e c')
      (I := fun c => MetaRun (args.meta.getD []) a.id c ∧ ReadyClean a.id c)
      (hturn.and hnone) ⟨hstart, hclean⟩ ?_ ?_
    · exact fun c e c' hc he hP => ⟨hc.1.step he hP.1, hc.2.step hc.1 he hP.1 hP.2⟩
    · exact fun c e c' hc he hP => hc.1.follows (hc.2.step hc.1 he hP.1 hP.2) hnew he hP.1

/-! ## A run that succeeds behind one that fails -/

def handbookArgs : CreateAssetArgs :=
  { workspaceId := 3, projectId := none, createdBy := 7, filename := "handbook.pdf".toList
    mimeType := none, title := none, «meta» := some [("owner", .str "ops".toList)] }

def handbook : KBAsset :=
  { id := 1, workspaceId := 3, projectId := none, createdBy := 7, filename := "handbook.pdf".toList
    title := none, mimeType := none, sourceType := none, sizeBytes := none, sha256 := none
    storageKey := none, status := .pending, «meta» := some [("owner", .str "ops".toList)] }

def beforeHandbook : Database :=
  { users := [{ id := 7, email := "owner@example.org".toList, passwordHash := [], isActive := true
                isSuperadmin := false }]
    roles := [], permissions := [], rolePermissions := [], grants := [], workspaces := [3]
    projects := [], assets := [], jobs := [] }

def withHandbook : Database := { beforeHandbook with assets := [handbook] }

theorem handbook_created : insertAsset handbookArgs beforeHandbook = .ok (handbook, withHandbook) :=
  rfl

/-- An upload and two runs. -/
def uploadAndIngestTwice : List Task :=
  [.upload 1 { storageKey := "kb/3/1/handbook.pdf".toList, sizeBytes := 20, sha256 := [] },
    .ingest 1, .ingest 1]

theorem uploadAndIngestTwice_called : ∀ th ∈ uploadAndIngestTwice, th.Called 1 := by
  intro th hth
  simp only [uploadAndIngestTwice, List.mem_cons, List.not_mem_nil, or_false] at hth
  rcases hth with rfl | rfl | rfl
  · rfl
  · rfl
  · rfl

/-- The first run fails, the second does not. -/
def failedThenReady : List (Event Choice Empty) :=
  [go 0, go 0, go 1, go 1, .run 1 (.raises "timeout".toList), go 1, go 1, go 2, go 2, go 2, go 2]

/-- The operations that do not move are idle. -/
theorem alone_of_eraseIdx {assetId : Int} {c : FailureConfig} {t : Nat}
    (h : (c.threads.eraseIdx t).all (fun th => decide (th.Idle assetId)) = true) :
    Alone assetId c t := by
  intro i th hi hth
  have hmem : th ∈ c.threads.eraseIdx t := List.mem_eraseIdx_iff_getElem?.mpr ⟨i, hi, hth⟩
  exact of_decide_eq_true (List.all_eq_true.mp h th hmem)

theorem inTurn_go {c c' : FailureConfig} (t : Nat)
    (h : (c.threads.eraseIdx t).all (fun th => decide (th.Idle 1)) = true) :
    InTurn 1 c (go t) c' := by
  intro t' ch heq
  cases heq
  exact ⟨alone_of_eraseIdx h, fun error th hch => Choice.noConfusion hch⟩

theorem failedThenReady_inTurn : (failureSystem (fun _ => none) fun _ => []).EachStep (InTurn 1)
    (.start withHandbook uploadAndIngestTwice) failedThenReady := by
  refine .cons rfl (inTurn_go 0 rfl) (.cons rfl (inTurn_go 0 rfl) (.cons rfl (inTurn_go 1 rfl)
    (.cons rfl (inTurn_go 1 rfl) (.cons rfl ?_ (.cons rfl (inTurn_go 1 rfl)
      (.cons rfl (inTurn_go 1 rfl) (.cons rfl (inTurn_go 2 rfl) (.cons rfl (inTurn_go 2 rfl)
        (.cons rfl (inTurn_go 2 rfl) (.cons rfl (inTurn_go 2 rfl) (eachStep_nil _)))))))))))
  intro t ch heq
  cases heq
  refine ⟨alone_of_eraseIdx rfl, fun error th _ hth => ?_⟩
  cases hth
  exact id

theorem failure_meta_iff_failedThenReady :
    (failureSystem (fun _ => none) fun _ => []).EachStep
        (MetaFollows [("owner", .str "ops".toList)] 1)
        (.start withHandbook uploadAndIngestTwice) failedThenReady ↔
      (failureSystem (fun _ => none) fun _ => []).EachStep NoneFailedBefore
        (.start withHandbook uploadAndIngestTwice) failedThenReady :=
  failure_meta_iff (fun _ => none) (fun _ => []) handbookArgs beforeHandbook withHandbook handbook
    handbook_created rfl uploadAndIngestTwice uploadAndIngestTwice_called failedThenReady
    failedThenReady_inTurn

/-- The asset is ready, with the message of the first run. -/
theorem failedThenReady_stale : ¬∀ es, (failureSystem (fun _ => none) fun _ => []).EachStep (InTurn 1)
      (.start withHandbook uploadAndIngestTwice) es →
    (failureSystem (fun _ => none) fun _ => []).EachStep
      (MetaFollows [("owner", .str "ops".toList)] 1)
      (.start withHandbook uploadAndIngestTwice) es := by
  intro h
  have hlast : ∃ c₁ c₂ row,
      (failureSystem (fun _ => none) fun _ => []).exec (.start withHandbook uploadAndIngestTwice)
        (failedThenReady.take 10) = some c₁ ∧
      (failureSystem (fun _ => none) fun _ => []).fire c₁ (go 2) = some c₂ ∧
      assetById c₂.shared 1 = some row ∧ row.status = .ready ∧
      metaOf row "error" = some (.str "timeout".toList) := ⟨_, _, _, rfl, rfl, rfl, rfl, rfl⟩
  obtain ⟨c₁, c₂, row, hpre, hfire, hrow, hready, herror⟩ := hlast
  obtain ⟨row', hrow', hfollows⟩ := h failedThenReady failedThenReady_inTurn _ (go 2) [] c₁ c₂ rfl
    hpre hfire
  cases hrow.symm.trans hrow'
  rw [hfollows.ready hready] at herror
  cases herror

end EnterpriseAssistant.Kb.Machine
