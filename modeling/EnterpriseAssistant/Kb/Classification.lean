import EnterpriseAssistant.Kb.Freshness

/-!
# The classification of an asset

The columns `mime_type` and `source_type` under any number of interleaved operations.  `readyRow`
computes both from the filename and the MIME type of the row that the run has loaded first, and only
columns that differ from the loaded ones are written; so a run may overwrite what another has
written in between.

* `settled_flush` — a column that every writer takes to the same value
* `sniff_settled` — what is sniffed of a classified asset is its class
* `classification_converges` — a ready asset has one classification
-/

namespace EnterpriseAssistant.Kb.Machine

open Py Core Infra Kb Interleaving System

/-! ## A column -/

section Column

variable {α : Type} [DecidableEq α] {target loaded new current : α}

/-- A column that was loaded with the target, or else is about to be written with it. -/
theorem settled_flush (hkept : loaded = target → current = target)
    (hnew : new = loaded ∨ new = target) :
    (flushColumn loaded new current = current ∨ flushColumn loaded new current = target) ∧
      (new = target → flushColumn loaded new current = target) := by
  unfold flushColumn
  split
  next heq =>
    subst heq
    exact ⟨Or.inl rfl, hkept⟩
  next hne => exact ⟨Or.inr (hnew.resolve_left hne), fun h => h⟩

end Column

/-! ## The class of an asset -/

section Class

variable (guessType : Str → Option Str) (a₀ : KBAsset)

/-- The MIME type that a run finds, or the one that is there. -/
def classMime : Option Str :=
  (orNone (sniff guessType a₀.filename a₀.mimeType).mimeType).or a₀.mimeType

def classSource : Option Str :=
  (orNone (sniff guessType a₀.filename a₀.mimeType).sourceType).or a₀.sourceType

/-- What `guess_type` says of the filename has no blanks around it: `mimetypes` takes the type of a
data URL as it is written, `data: text/html ,x`. -/
def Stripped : Prop := ∀ m, guessType (strip a₀.filename) = some m → strip m = m ∧ m ≠ []

/-- The row has its class. -/
def Classified (a : KBAsset) : Prop :=
  a.mimeType = classMime guessType a₀ ∧ a.sourceType = classSource guessType a₀

/-- A row that was read of the asset, where `current` is its row now. -/
structure Known (current a : KBAsset) : Prop where
  filename : a.filename = a₀.filename
  mime : a.mimeType = a₀.mimeType ∨ a.mimeType = classMime guessType a₀
  source : a.sourceType = a₀.sourceType ∨ a.sourceType = classSource guessType a₀
  mime_kept : a.mimeType = classMime guessType a₀ → current.mimeType = classMime guessType a₀
  source_kept :
    a.sourceType = classSource guessType a₀ → current.sourceType = classSource guessType a₀

variable {guessType} {a₀}

theorem stripped_eq_some {v : Option Str} {s : Str} (h : stripped v = some s) :
    strip s = s ∧ s ≠ [] := by
  obtain ⟨hmap, hne⟩ := Option.filter_eq_some_iff.mp h
  obtain ⟨t, -, rfl⟩ := Option.map_eq_some_iff.mp hmap
  exact ⟨strip_strip t, by simpa using hne⟩

theorem stripped_of_strip {s : Str} (h : strip s = s) (hne : s ≠ []) :
    stripped (some s) = some s := by
  simp [stripped, orNone, h, hne]

variable (hguess : Stripped guessType a₀)

include hguess

/-- **What is sniffed of a classified asset is its class.** -/
theorem sniff_settled {hint : Option Str}
    (hhint : hint = a₀.mimeType ∨ hint = classMime guessType a₀) :
    let sr := sniff guessType a₀.filename hint
    (∀ m, m = a₀.mimeType ∨ m = classMime guessType a₀ →
        (orNone sr.mimeType).or m = classMime guessType a₀) ∧
      ∀ s, s = a₀.sourceType ∨ s = classSource guessType a₀ →
        (orNone sr.sourceType).or s = classSource guessType a₀ := by
  have hor : ∀ {u v w : Option Str}, w = v ∨ w = u.or v → u.or w = u.or v := by
    rintro u v w (rfl | rfl)
    · rfl
    · cases u <;> rfl
  have hsame : sniff guessType a₀.filename hint = sniff guessType a₀.filename a₀.mimeType := by
    rcases hhint with rfl | rfl
    · rfl
    cases hm : (stripped a₀.mimeType).or (guessType (strip a₀.filename)) with
    | none =>
      have hclass : classMime guessType a₀ = a₀.mimeType := by
        simp [classMime, sniff, hm, orNone]
      rw [hclass]
    | some m =>
      -- the class is a hint that stays as it is, and the hint is looked at first
      have hstrip : strip m = m ∧ m ≠ [] := by
        rcases Option.or_eq_some_iff.mp hm with h | ⟨-, h⟩
        · exact stripped_eq_some h
        · exact hguess m h
      have hclass : classMime guessType a₀ = some m := by
        simp [classMime, sniff, hm, orNone, hstrip.2]
      rw [hclass]
      simp only [sniff, hm, stripped_of_strip hstrip.1 hstrip.2, Option.some_or]
  simp only [hsame]
  exact ⟨fun m hm => hor hm, fun s hs => hor hs⟩

end Class

/-! ## The rows that an operation holds -/

section Spec

variable {guessType : Str → Option Str} {errorText : Exn → Str} {db : Database} {t : Nat}

/-- The rows that the operation has read, the last one behind. -/
def Task.rows : Task → List KBAsset
  | .ingestStart asset | .ingestLoad asset _ | .uploadStore asset _ | .softDeleteStore asset =>
    [asset]
  | .ingestFinish asset asset2 _ => [asset, asset2]
  | .ingestFail asset3 _ _ => asset3.toList
  | _ => []

/-- The rows of a step are rows from before, or have been read in the step. -/
def RowsStep (db : Database) (th : Task) (m : KbMove) : Prop :=
  ∀ a ∈ m.thread.rows, a ∈ th.rows ∨ (m.shared = db ∧ assetById db a.id = some a)

theorem RowsStep.of_nil {th : Task} {m : KbMove} (h : m.thread.rows = []) : RowsStep db th m := by
  intro a ha
  rw [h] at ha
  cases ha

theorem rowsStep_loadLive {th : Task} {assetId : Int} {next : KBAsset → Task} {otherwise : Task}
    (hnext : ∀ a, ∀ b ∈ (next a).rows, b ∈ th.rows ∨ b = a) (hother : otherwise.rows = []) :
    RowsStep db th (loadLive db t assetId next otherwise) := by
  unfold loadLive
  split
  · exact .of_nil hother
  · next a ha =>
    split
    · exact .of_nil hother
    · intro b hb
      rcases hnext a b hb with hold | rfl
      · exact Or.inl hold
      · exact Or.inr ⟨rfl, by rw [id_of_assetById ha, ha]⟩

theorem rowsStep_store (th : Task) (loaded new : KBAsset) :
    RowsStep db th (storeStep db t loaded new) := by
  unfold storeStep
  split
  · exact .of_nil rfl
  · exact .of_nil rfl

theorem rowsStep_raise {th : Task} {error : Str} {m : KbMove}
    (h : raiseStep db th error = some m) : RowsStep db th m := by
  unfold raiseStep at h
  split at h
  all_goals first
    | cases h; exact .of_nil rfl
    | cases h

theorem rowsStep_go {th : Task} {now : Int} {m : KbMove}
    (h : goStep guessType errorText db t th now = some m) : RowsStep db th m := by
  cases th with
  | ingest assetId =>
    cases h
    refine rowsStep_loadLive (fun a b hb => ?_) rfl
    split at hb
    · cases hb
    · exact Or.inr (List.mem_singleton.mp hb)
  | ingestStart asset =>
    cases h
    unfold ingestStartStep
    split
    · exact .of_nil rfl
    · exact fun b hb => Or.inl hb
  | ingestLoad asset jobId =>
    cases h
    refine rowsStep_loadLive (fun a b hb => ?_) rfl
    rcases List.mem_cons.mp hb with rfl | hb
    · exact Or.inl (.head _)
    · exact Or.inr (List.mem_singleton.mp hb)
  | ingestFinish asset asset2 jobId =>
    cases h
    unfold ingestFinishStep
    split
    · exact .of_nil rfl
    · exact .of_nil rfl
  | ingestLeave assetId jobId =>
    cases h
    exact .of_nil rfl
  | ingestExcept assetId error jobId =>
    -- the `except` block takes the row whether it is deleted or not
    cases h
    intro b hb
    have hrow : assetById db assetId = some b := Option.mem_toList.mp hb
    exact Or.inr ⟨rfl, by rw [id_of_assetById hrow, hrow]⟩
  | ingestFail asset3 error jobId =>
    cases h
    unfold ingestFailStep
    split
    · exact .of_nil rfl
    · split
      · exact .of_nil rfl
      · exact .of_nil rfl
  | ingested jobId => cases h
  | upload assetId args =>
    cases h
    exact rowsStep_loadLive (fun a b hb => Or.inr (List.mem_singleton.mp hb)) rfl
  | uploadStore asset args =>
    cases h
    exact rowsStep_store _ asset _
  | softDelete assetId =>
    cases h
    exact rowsStep_loadLive (fun a b hb => Or.inr (List.mem_singleton.mp hb)) rfl
  | softDeleteStore asset =>
    cases h
    exact rowsStep_store _ asset _
  | ended => cases h

theorem rows_step {th : Task} {ch : Choice} {m : KbMove}
    (h : (kbSystem guessType errorText).step db t th ch = some m) : RowsStep db th m := by
  cases ch with
  | raises error => exact rowsStep_raise h
  | go now => exact rowsStep_go h

/-- What an operation is about to flush leaves the class as it was loaded and does not write
`ready`, but for the second block of a run. -/
theorem write_class {th : Task} {loaded new : KBAsset}
    (h : th.write guessType = some (loaded, new)) :
    loaded ∈ th.rows ∧ ((new.mimeType = loaded.mimeType ∧ new.sourceType = loaded.sourceType ∧
        new.status ≠ .ready) ∨
      ∃ asset jobId, th = .ingestFinish asset loaded jobId ∧
        new = readyRow (sniff guessType asset.filename asset.mimeType) loaded) := by
  cases th with
  | ingestFinish asset asset2 jobId =>
    cases h
    exact ⟨.tail _ (.head _), Or.inr ⟨asset, jobId, rfl, rfl⟩⟩
  | ingestFail asset3 error jobId =>
    cases asset3 with
    | none => cases h
    | some a =>
      have hw : failWrite (some a) error = some (loaded, new) := h
      unfold failWrite at hw
      split at hw
      · cases hw
      · next hsome =>
        cases hsome
        split at hw
        · cases hw
        · cases hw
          exact ⟨.head _, Or.inl ⟨rfl, rfl, AssetStatus.noConfusion⟩⟩
  | _ =>
    cases h
    all_goals exact ⟨.head _, Or.inl ⟨rfl, rfl, AssetStatus.noConfusion⟩⟩

end Spec

/-! ## What holds in every run -/

/-- The row of the asset has its class when it is ready, and every row of it that is held is known. -/
structure ClassInv (guessType : Str → Option Str) (id : Int) (a₀ : KBAsset) (c : KbConfig) :
    Prop where
  row : ∃ a, assetById c.shared id = some a ∧ Known guessType a₀ a a ∧
    (a.status = .ready → Classified guessType a₀ a) ∧
      ∀ (t : Nat) (th : Task), c.threads[t]? = some th → ∀ b ∈ th.rows, b.id = id →
        Known guessType a₀ a b
  same : ∀ (t : Nat) (th : Task), c.threads[t]? = some th → th.SameAsset

section Runs

variable {guessType : Str → Option Str} {errorText : Exn → Str} {id : Int} {a₀ : KBAsset}

theorem classInv_start {db : Database} {tasks : List Task} (h : ∀ th ∈ tasks, th.Fresh)
    (ha₀ : assetById db id = some a₀) (hready : a₀.status = .ready → Classified guessType a₀ a₀) :
    ClassInv guessType id a₀ (.start db tasks) := by
  refine ⟨⟨a₀, ha₀, ⟨rfl, Or.inl rfl, Or.inl rfl, fun h => h, fun h => h⟩, hready, ?_⟩,
    (begunInv_start h).same⟩
  intro t th hth b hb
  cases h th (List.mem_of_getElem? hth) with
  | _ => cases hb

/-- What is known of a row is known of it when the asset is written. -/
theorem Known.mono {a a' b : KBAsset} (h : Known guessType a₀ a b)
    (hmime : a'.mimeType = a.mimeType ∨ a'.mimeType = classMime guessType a₀)
    (hsource : a'.sourceType = a.sourceType ∨ a'.sourceType = classSource guessType a₀) :
    Known guessType a₀ a' b where
  filename := h.filename
  mime := h.mime
  source := h.source
  mime_kept hb := hmime.elim (fun heq => heq.trans (h.mime_kept hb)) fun heq => heq
  source_kept hb := hsource.elim (fun heq => heq.trans (h.source_kept hb)) fun heq => heq

/-- The row that a flush makes of the asset. -/
theorem flushed_class (hguess : Stripped guessType a₀)
    {th : Task} {a loaded new : KBAsset} (hrow : a.status = .ready → Classified guessType a₀ a)
    (hw : th.write guessType = some (loaded, new)) (hsame : th.SameAsset) (hid : loaded.id = id)
    (hheld : ∀ b ∈ th.rows, b.id = id → Known guessType a₀ a b) :
    let a' := flushColumns loaded new a
    (a'.mimeType = a.mimeType ∨ a'.mimeType = classMime guessType a₀) ∧
      (a'.sourceType = a.sourceType ∨ a'.sourceType = classSource guessType a₀) ∧
        (a'.status = .ready → Classified guessType a₀ a') := by
  intro a'
  obtain ⟨hmem, ⟨hmime, hsource, hstatus⟩ | ⟨asset, jobId, rfl, rfl⟩⟩ := write_class hw
  · -- both columns are flushed as they were loaded, so that the row keeps its own
    have hmime' : a'.mimeType = a.mimeType := if_pos hmime
    have hsource' : a'.sourceType = a.sourceType := if_pos hsource
    refine ⟨Or.inl hmime', Or.inl hsource', fun hready => ?_⟩
    have hbefore : a.status = .ready := by
      have hflush : flushColumn loaded.status new.status a.status = .ready := hready
      unfold flushColumn at hflush
      split at hflush
      · exact hflush
      · exact absurd hflush hstatus
    obtain ⟨hm, hs⟩ := hrow hbefore
    exact ⟨hmime'.trans hm, hsource'.trans hs⟩
  · -- the run has loaded both rows of this asset
    have hfirst := hheld asset (.head _) (hsame.symm.trans hid)
    have hsecond := hheld loaded hmem hid
    obtain ⟨hmime, hsource⟩ := sniff_settled hguess hfirst.mime
    rw [← hfirst.filename] at hmime hsource
    have hm := hmime loaded.mimeType hsecond.mime
    have hs := hsource loaded.sourceType hsecond.source
    obtain ⟨hm', hclass⟩ := settled_flush hsecond.mime_kept (Or.inr hm)
    obtain ⟨hs', hclass'⟩ := settled_flush hsecond.source_kept (Or.inr hs)
    exact ⟨hm', hs', fun _ => ⟨hclass hm, hclass' hs⟩⟩

/-- What a step makes of the row of an asset. -/
theorem class_step (hguess : Stripped guessType a₀)
    {db : Database} {t : Nat} {th : Task} {ch : Choice} {m : KbMove} {a : KBAsset}
    (hm : (kbSystem guessType errorText).step db t th ch = some m) (ha : assetById db id = some a)
    (hrow : a.status = .ready → Classified guessType a₀ a) (hsame : th.SameAsset)
    (hheld : ∀ b ∈ th.rows, b.id = id → Known guessType a₀ a b) :
    ∃ a', assetById m.shared id = some a' ∧ a'.filename = a.filename ∧
      (a'.mimeType = a.mimeType ∨ a'.mimeType = classMime guessType a₀) ∧
      (a'.sourceType = a.sourceType ∨ a'.sourceType = classSource guessType a₀) ∧
        (a'.status = .ready → Classified guessType a₀ a') := by
  have hkept : m.shared.assets = db.assets → assetById m.shared id = some a := fun h => by
    rw [assetById, h]
    exact ha
  have hstep := step_cases hm
  generalize m.obs = obs, m.thread.write guessType = w' at hstep
  cases hstep with
  | quiet hassets _ => exact ⟨a, hkept hassets, rfl, Or.inl rfl, Or.inl rfl, hrow⟩
  | load _ _ => exact ⟨a, ha, rfl, Or.inl rfl, Or.inl rfl, hrow⟩
  | @store _ now loaded new _ hw _ hassets =>
    have hset : assetById m.shared id =
        some (if a.id = loaded.id then flushColumns loaded new a else a) := by
      rw [assetById, hassets, ← assetById, assetById_storedIn, ha, Option.map_some]
    by_cases hid : a.id = loaded.id
    · rw [if_pos hid] at hset
      obtain ⟨hmime, hsource, hready⟩ := flushed_class hguess hrow hw hsame
        (hid.symm.trans (id_of_assetById ha)) hheld
      exact ⟨_, hset, rfl, hmime, hsource, hready⟩
    · rw [if_neg hid] at hset
      exact ⟨a, hset, rfl, Or.inl rfl, Or.inl rfl, hrow⟩

theorem ClassInv.step (hguess : Stripped guessType a₀)
    {c c' : KbConfig} {e : Event Choice Empty} (hinv : ClassInv guessType id a₀ c)
    (h : (kbSystem guessType errorText).fire c e = some c') : ClassInv guessType id a₀ c' := by
  obtain ⟨⟨a, ha, hknown, hready, hheld⟩, hsame⟩ := hinv
  cases e with
  | env e => exact nomatch e
  | run t ch =>
    obtain ⟨th, m, hth, hm, rfl⟩ := fire_run _ h
    obtain ⟨a', ha', hname, hmime, hsource, hready'⟩ := class_step hguess hm ha hready
      (hsame t th hth) (hheld t th hth)
    have hown : Known guessType a₀ a' a' :=
      { filename := hname.trans hknown.filename
        mime := hmime.elim (fun heq => heq ▸ hknown.mime) Or.inr
        source := hsource.elim (fun heq => heq ▸ hknown.source) Or.inr
        mime_kept := fun h => h
        source_kept := fun h => h }
    refine ⟨⟨a', ha', hown, hready', forall_set (fun i th' hth' b hb hid => ?_) fun b hb hid => ?_⟩,
      forall_set hsame (begun_step hm).1⟩
    · exact (hheld i th' hth' b hb hid).mono hmime hsource
    · rcases rows_step hm b hb with hold | ⟨hdb, hread⟩
      · exact (hheld t th hth b hold hid).mono hmime hsource
      · -- the step has read the row, and has written nothing
        rw [hdb, hid.symm, hread] at ha'
        cases ha'
        exact hown

end Runs

/--
**The classification of an asset converges**: whatever runs, uploads and deletions of it are
interleaved and whichever of them raise, its filename stays, its two columns hold what they held at
first or the class of the asset, and an asset that is ready has its class, as long as the type that
is guessed of its filename has no blanks around it.
-/
theorem classification_converges (guessType : Str → Option Str) (errorText : Exn → Str)
    (db : Database) (tasks : List Task) (hfresh : ∀ th ∈ tasks, th.Fresh) (id : Int) (a₀ : KBAsset)
    (ha₀ : assetById db id = some a₀) (hguess : Stripped guessType a₀)
    (hready : a₀.status = .ready → Classified guessType a₀ a₀) (es : List (Event Choice Empty))
    (c : KbConfig) (h : (kbSystem guessType errorText).exec (.start db tasks) es = some c) :
    ∃ a, assetById c.shared id = some a ∧ a.filename = a₀.filename ∧
      (a.mimeType = a₀.mimeType ∨ a.mimeType = classMime guessType a₀) ∧
      (a.sourceType = a₀.sourceType ∨ a.sourceType = classSource guessType a₀) ∧
      (a.status = .ready → Classified guessType a₀ a) := by
  have hinv : ClassInv guessType id a₀ c :=
    exec_invariant _ (fun _ _ _ hc he => hc.step hguess he) es (classInv_start hfresh ha₀ hready) h
  obtain ⟨a, ha, hknown, hclass, -⟩ := hinv.row
  exact ⟨a, ha, hknown.filename, hknown.mime, hknown.source, hclass⟩

/-- A run, and an upload between its blocks; the new version is then made ready. -/
theorem classification_converges_between : ∃ c a,
    (kbSystem (fun _ => some "application/pdf".toList) fun _ => []).exec
        (.start manualDb ingestAndUpload) (uploadedBetween ++ [go 0]) = some c ∧
      assetById c.shared 1 = some a ∧ a.status = .ready ∧
      a.mimeType = some "application/pdf".toList ∧ a.sourceType = some "document".toList := by
  have hguess : Stripped (fun _ => some "application/pdf".toList) manual := by
    rintro m ⟨⟩
    decide
  have hrun : ∃ c, (kbSystem (fun _ => some "application/pdf".toList) fun _ => []).exec
      (.start manualDb ingestAndUpload) (uploadedBetween ++ [go 0]) = some c ∧
        statusOf c.shared 1 = some .ready := ⟨_, rfl, rfl⟩
  obtain ⟨c, hc, hstatus⟩ := hrun
  obtain ⟨a, ha, -, -, -, hclass⟩ := classification_converges _ (fun _ => []) manualDb
    ingestAndUpload ingestAndUpload_fresh 1 manual rfl hguess (fun h => nomatch h) _ c hc
  have hready : a.status = .ready := by
    rw [statusOf, ha] at hstatus
    exact Option.some.inj hstatus
  obtain ⟨hmime, hsource⟩ := hclass hready
  exact ⟨c, a, hc, ha, hready, hmime, hsource⟩

end EnterpriseAssistant.Kb.Machine
