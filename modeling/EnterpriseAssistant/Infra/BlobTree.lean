import EnterpriseAssistant.Infra.LocalFs
import EnterpriseAssistant.Lib.FileTree

/-!
# Blobs in a tree of directories

`LocalFSStorage` of `app/infra/blob_storage/local_fs.py` on a POSIX file tree, with the errors of
the operating system.

* `likeMap_iff` — after any calls, the storage answers for a key like a map just when the key is
  joined to a path where no directory stands, below directories only
* `put_get` — there a blob can be put, read back, tested and deleted
* `nested_not_likeMap` — a key that is a directory of another one exists and cannot be read
-/

namespace EnterpriseAssistant.Infra.BlobTree

open Py Posix FileTree Program Program.Prog

/-- The `ValueError` of the key check, or an error of the system. -/
inductive StorageError where
  | valueError (message : String)
  | osError (e : OsError)
deriving DecidableEq, Repr

abbrev Disk := Tree Str Bytes

/-- The names in a normalised path; two slashes at its front are the same root as one. -/
def place (p : Str) : Place Str := (plain p).reverse

variable (L : Limits Str) (st : LocalFSStorage)

/-- `_join`. -/
def joined (key : Str) : Except StorageError Str :=
  match joinKey st.cwd st.rootDir key with
  | .ok p => .ok p
  | .error message => .error (.valueError message)

def putBytes (key : Str) (data : Bytes) (contentType : Option Str) :
    Prog Disk StorageError StoredObject := do
  let p ← ofExcept (joined st key)
  mapError .osError (makedirs L (place (dirname p)))
  mapError .osError (writeFile L (place p) data)
  pure { key := key, size := data.length, contentType := contentType, etag := st.digest data }

def getBytes (key : Str) (t : Disk) : Except StorageError Bytes :=
  match joined st key with
  | .error e => .error e
  | .ok p =>
    match t.readFile L (place p) with
    | .ok data => .ok data
    | .error e => .error (.osError e)

/-- `exists`. -/
def fileExists (key : Str) (t : Disk) : Except StorageError Bool :=
  match joined st key with
  | .error e => .error e
  | .ok p => .ok (t.pathExists L (place p))

/-- A file that is not there is passed over. -/
def delete (key : Str) : Prog Disk StorageError Unit := do
  let p ← ofExcept (joined st key)
  mapError .osError (tryExcept (remove L (place p)) fun e =>
    if e = .fileNotFound then pure () else raise e)

/-! ## Runs of calls -/

inductive Call where
  | put (key : Str) (data : Bytes) (contentType : Option Str)
  | delete (key : Str)

def Call.key : Call → Str
  | .put key _ _ => key
  | .delete key => key

/-- The disk, and the calls that returned, the last one first: the data that was put under a key,
or none where it was deleted. -/
structure Run where
  disk : Disk
  returned : List (Str × Option Bytes)

def Run.call (s : Run) : Call → Run
  | .put key data contentType =>
    match putBytes L st key data contentType s.disk with
    | (.ok _, t) => ⟨t, (key, some data) :: s.returned⟩
    | (.error _, t) => ⟨t, s.returned⟩
  | .delete key =>
    match delete L st key s.disk with
    | (.ok _, t) => ⟨t, (key, none) :: s.returned⟩
    | (.error _, t) => ⟨t, s.returned⟩

def run (t : Disk) (calls : List Call) : Run := calls.foldl (Run.call L st) ⟨t, []⟩

/-- The names of the path of a key. -/
def placeOf (key : Str) : Option (Place Str) := (joined st key).toOption.map place

/-- The data of the last put to the path of `key` that no deletion has followed. -/
def kept (key : Str) : List (Str × Option Bytes) → Option Bytes
  | [] => none
  | (k, x) :: returned => if placeOf st k = placeOf st key then x else kept key returned

/-- The directory of the storage. -/
def root : Place Str := place (abspath st.cwd st.rootDir)

/-- It is there, with nothing in it. -/
structure EmptyRoot (t : Disk) : Prop where
  dir : t.node (root st) = some .dir
  empty : ∀ n up, root st <:+ up → t.node (n :: up) = none

/-- For `key` the storage answers like the map of what was put. -/
structure LikeMap (key : Str) (s : Run) : Prop where
  exists_iff : fileExists L st key s.disk = .ok true ↔ ∃ data, getBytes L st key s.disk = .ok data
  get_iff : ∀ data, getBytes L st key s.disk = .ok data ↔ kept st key s.returned = some data
  delete_absent : kept st key s.returned = none → delete L st key s.disk = (.ok (), s.disk)

variable {L st} {key : Str} {t t' : Disk}

/-! ## What the calls do to the tree -/

theorem joined_eq_ok {p : Str} : joined st key = .ok p ↔ joinKey st.cwd st.rootDir key = .ok p := by
  unfold joined
  split <;> next h => simp [h]

theorem placeOf_eq {p : Str} (h : joined st key = .ok p) : placeOf st key = some (place p) := by
  rw [placeOf, h]
  rfl

/-- Every key is joined below the directory of the storage. -/
theorem place_below {p : Str} (h : joined st key = .ok p) : root st <:+ place p := by
  obtain ⟨k, -, -, hunder⟩ := joinKey_ok (joined_eq_ok.mp h)
  rcases hunder with rfl | ⟨rest, rfl⟩
  · exact List.suffix_rfl
  · rw [List.append_assoc, List.singleton_append, root, place, place, plain_append,
      List.reverse_append]
    exact List.suffix_append _ _

/-- The directories that a put makes are those on the way to the file. -/
theorem place_dirname (hcwd : isabs st.cwd = true) {p : Str} (h : joined st key = .ok p) :
    place (dirname p) = (place p).tail := by
  obtain ⟨k, -, rfl, -⟩ := joinKey_ok (joined_eq_ok.mp h)
  rw [place, place, plain_dirname_abspath hcwd, List.tail_reverse]

theorem putBytes_ok {data : Bytes} {contentType : Option Str} {obj : StoredObject}
    (h : putBytes L st key data contentType t = (.ok obj, t')) :
    ∃ p t₁, joined st key = .ok p ∧ t.Grows (place (dirname p)) t₁ ∧
      t₁.node (place p) ≠ some .dir ∧
        t'.node = Function.update t₁.node (place p) (some (.file data)) := by
  obtain ⟨p, s, hp, h⟩ := bind_eq_ok.mp h
  obtain ⟨⟨⟩, t₁, hdirs, h⟩ := bind_eq_ok.mp h
  obtain ⟨⟨⟩, t₂, hfile, h⟩ := bind_eq_ok.mp h
  cases h
  obtain ⟨hok, rfl⟩ := ofExcept_eq.mp hp
  have hgrows := makedirs_grows (L := L) (place (dirname p)) t
  rw [mapError_eq_ok.mp hdirs] at hgrows
  exact ⟨p, t₁, hok, hgrows, writeFile_ok (mapError_eq_ok.mp hfile)⟩

/-- A put that raises may leave directories. -/
theorem putBytes_error {data : Bytes} {contentType : Option Str} {e : StorageError}
    (h : putBytes L st key data contentType t = (.error e, t')) :
    t' = t ∨ ∃ p, joined st key = .ok p ∧ t.Grows (place (dirname p)) t' := by
  rcases bind_eq_error.mp h with hp | ⟨p, s, hp, h⟩
  · exact Or.inl (ofExcept_eq.mp hp).2.symm
  · rw [← (ofExcept_eq.mp hp).2] at h
    refine Or.inr ⟨p, (ofExcept_eq.mp hp).1, ?_⟩
    have hgrows := makedirs_grows (L := L) (place (dirname p)) t
    rcases bind_eq_error.mp h with hdirs | ⟨⟨⟩, t₁, hdirs, h⟩
    · obtain ⟨d, hdirs, -⟩ := mapError_eq_error.mp hdirs
      rw [hdirs] at hgrows
      exact hgrows
    · rw [mapError_eq_ok.mp hdirs] at hgrows
      rcases bind_eq_error.mp h with hfile | ⟨⟨⟩, t₂, -, h⟩
      · obtain ⟨d, hfile, -⟩ := mapError_eq_error.mp hfile
        rw [writeFile_error hfile]
        exact hgrows
      · cases h

theorem delete_eq {p : Str} (hp : joined st key = .ok p) (t : Disk) : delete L st key t =
    match remove L (place p) t with
    | (.ok (), t') => (.ok (), t')
    | (.error e, t') => if e = .fileNotFound then (.ok (), t') else (.error (.osError e), t') := by
  unfold delete
  rw [bind_ok (ofExcept_eq.mpr ⟨hp, rfl⟩), mapError, tryExcept]
  rcases remove L (place p) t with ⟨e | ⟨⟩, t'⟩
  · by_cases he : e = .fileNotFound <;> simp [he]
  · rfl

theorem delete_ok (h : delete L st key t = (.ok (), t')) :
    ∃ p, joined st key = .ok p ∧ t.node (place p) ≠ some .dir ∧
      t'.node = Function.update t.node (place p) none := by
  obtain ⟨p, s, hp, -⟩ := bind_eq_ok.mp h
  have hp := (ofExcept_eq.mp hp).1
  refine ⟨p, hp, ?_⟩
  rw [delete_eq hp] at h
  split at h
  · next hremove =>
    cases h
    exact remove_ok hremove
  · next e t₁ hremove =>
    split at h
    · next he =>
      cases h
      -- nothing was there
      have hnone := node_of_remove_fileNotFound (he ▸ hremove)
      rw [remove_error hremove]
      exact ⟨by simp [hnone], by rw [← hnone, Function.update_eq_self]⟩
    · cases h

theorem delete_error {e : StorageError} (h : delete L st key t = (.error e, t')) : t' = t := by
  rcases bind_eq_error.mp h with hp | ⟨p, s, hp, -⟩
  · exact (ofExcept_eq.mp hp).2.symm
  · rw [delete_eq (ofExcept_eq.mp hp).1] at h
    split at h
    · cases h
    · next hremove =>
      split at h
      · cases h
      · cases h
        exact remove_error hremove

/-! ## The files are what was put -/

/-- A call that returns sets one file, or removes it; any call may add directories. -/
theorem call_cases (s : Run) (c : Call) :
    (∃ x p t₁, joined st c.key = .ok p ∧ s.disk.Grows (place (dirname p)) t₁ ∧
      t₁.node (place p) ≠ some .dir ∧
      (s.call L st c).disk.node = Function.update t₁.node (place p) (x.map .file) ∧
      (s.call L st c).returned = (c.key, x) :: s.returned) ∨
    ((s.call L st c).disk = s.disk ∨
      ∃ p, joined st c.key = .ok p ∧ s.disk.Grows (place (dirname p)) (s.call L st c).disk) ∧
      (s.call L st c).returned = s.returned := by
  cases c with
  | put key data contentType =>
    rw [Run.call]
    split
    · next h =>
      obtain ⟨p, t₁, hp, hgrows, hdir, hnode⟩ := putBytes_ok h
      exact Or.inl ⟨some data, p, t₁, hp, hgrows, hdir, hnode, rfl⟩
    · next h => exact Or.inr ⟨putBytes_error h, rfl⟩
  | delete key =>
    rw [Run.call]
    split
    · next h =>
      obtain ⟨p, hp, hdir, hnode⟩ := delete_ok h
      exact Or.inl ⟨none, p, s.disk, hp, fun _ => Or.inl rfl, hdir, hnode, rfl⟩
    · next h => exact Or.inr ⟨Or.inl (delete_error h), rfl⟩

/-- A file stands at the path of a key just when it was put there last. -/
def FilesKept (st : LocalFSStorage) (s : Run) : Prop :=
  ∀ key p, joined st key = .ok p → ∀ data,
    s.disk.node (place p) = some (.file data) ↔ kept st key s.returned = some data

theorem filesKept_empty (h : EmptyRoot st t) : FilesKept st ⟨t, []⟩ := by
  intro key p hp data
  have hnode : t.node (place p) = some .dir ∨ t.node (place p) = none := by
    have hbelow := place_below hp
    cases hplace : place p with
    | nil => exact Or.inl t.root_dir
    | cons n up =>
      rw [hplace] at hbelow
      rcases List.suffix_cons_iff.mp hbelow with heq | hup
      · rw [← heq]
        exact Or.inl h.dir
      · exact Or.inr (h.empty n up hup)
  rcases hnode with hdir | hnone <;> simp [*, kept]

theorem FilesKept.call {s : Run} (h : FilesKept st s) (c : Call) :
    FilesKept st (s.call L st c) := by
  intro key p hp data
  rcases call_cases (L := L) s c with ⟨x, q, t₁, hq, hgrows, -, hnode, hreturned⟩ |
    ⟨hsame | ⟨q, -, hgrows⟩, hreturned⟩
  · rw [hnode, hreturned, kept, placeOf_eq hq, placeOf_eq hp]
    by_cases heq : place p = place q
    · simp [heq]
    · rw [Function.update_of_ne heq, hgrows.file_iff, if_neg (by simpa using Ne.symm heq)]
      exact h key p hp data
  · rw [hsame, hreturned]
    exact h key p hp data
  · rw [hgrows.file_iff, hreturned]
    exact h key p hp data

theorem filesKept_run (h : EmptyRoot st t) (calls : List Call) :
    FilesKept st (run L st t calls) := by
  refine List.foldlRecOn calls (Run.call L st) (filesKept_empty h) ?_
  exact fun s hs c _ => hs.call c

/-! ## Like a map -/

theorem getBytes_ok_iff {p : Str} (hp : joined st key = .ok p) {data : Bytes} :
    getBytes L st key t = .ok data ↔ t.resolve L (place p) = .ok (some (.file data)) := by
  rw [getBytes, hp, ← Tree.readFile_ok_iff]
  cases h : t.readFile L (place p) <;> simp [h]

theorem fileExists_iff {p : Str} (hp : joined st key = .ok p) :
    fileExists L st key t = .ok true ↔ t.pathExists L (place p) = true := by
  simp [fileExists, hp]

/-- What can be no file cannot be deleted either. -/
theorem delete_returns_iff {p : Str} (hp : joined st key = .ok p) :
    (delete L st key t).1 = .ok () ↔ t.Clear L (place p) := by
  have hfst := remove_fst (L := L) t (place p)
  rw [Tree.clear_iff, delete_eq hp]
  generalize remove L (place p) t = done at hfst ⊢
  obtain ⟨r, t'⟩ := done
  subst hfst
  rcases t.resolve L (place p) with e | _ | _ | data
  · by_cases he : e = .fileNotFound <;> simp [he]
  · simp
  · simp
  · simp

/-- A key that is read, or else deleted, is joined to a path that can be a file. -/
theorem LikeMap.clear {s : Run} (h : LikeMap L st key s) :
    ∃ p, joined st key = .ok p ∧ s.disk.Clear L (place p) := by
  cases hlast : kept st key s.returned with
  | some data =>
    have hget := (h.get_iff data).mpr hlast
    cases hp : joined st key with
    | error e =>
      rw [getBytes, hp] at hget
      cases hget
    | ok p =>
      have hfile := (getBytes_ok_iff hp).mp hget
      exact ⟨p, rfl, Tree.clear_iff.mpr (Or.inr (Or.inr ⟨data, hfile⟩))⟩
  | none =>
    have hdelete := h.delete_absent hlast
    obtain ⟨p, hp, -, -⟩ := delete_ok hdelete
    exact ⟨p, hp, (delete_returns_iff hp).mp (by rw [hdelete])⟩

/-- Where nothing is, a deletion returns and does nothing. -/
theorem delete_nothing {p : Str} (hp : joined st key = .ok p) (hclear : t.Clear L (place p))
    (hnone : t.node (place p) = none) : delete L st key t = (.ok (), t) := by
  have hreturns := (delete_returns_iff hp).mpr hclear
  rcases hrun : delete L st key t with ⟨r, t'⟩
  rw [hrun] at hreturns
  cases hreturns
  obtain ⟨q, hq, -, hnode⟩ := delete_ok hrun
  cases hp.symm.trans hq
  rw [← hnone, Function.update_eq_self] at hnode
  rw [Tree.ext_node hnode]

/-- On the way to the file there are directories then, and at its place still none. -/
theorem makedirs_way {p : Place Str} (htakes : L.Takes p) (hclear : t.Clear L p) :
    ∃ t₁, makedirs L p.tail t = (.ok (), t₁) ∧ t₁.node p.tail = some .dir ∧
      t₁.node p ≠ some .dir := by
  obtain ⟨t₁, hrun, hdir⟩ := makedirs_dir (htakes.of_suffix (List.tail_suffix p))
    fun q hq => hclear.passable.no_file hq
  have hgrows := makedirs_grows (L := L) p.tail t
  rw [hrun] at hgrows
  refine ⟨t₁, hrun, hdir, ?_⟩
  rcases hgrows p with hsame | ⟨-, -, hway⟩
  · rw [hsame]
    exact hclear.notDir
  · -- only the root is on the way to itself
    have hlen := hway.length_le
    cases p with
    | nil => exact absurd t.root_dir hclear.notDir
    | cons n up => exact absurd hlen (by simp)

/-- Where nothing is in the way and the system takes the names, what is put under a key is there
until it is deleted. -/
theorem put_get (hcwd : isabs st.cwd = true) {p : Str} (hp : joined st key = .ok p)
    (htakes : L.Takes (place p)) (hclear : t.Clear L (place p)) (data : Bytes)
    (contentType : Option Str) : ∃ obj t' t'',
      putBytes L st key data contentType t = (.ok obj, t') ∧ getBytes L st key t' = .ok data ∧
        fileExists L st key t' = .ok true ∧ delete L st key t' = (.ok (), t'') ∧
          fileExists L st key t'' = .ok false := by
  obtain ⟨t₁, hdirs, hup, hnode⟩ := makedirs_way htakes hclear
  rw [← place_dirname hcwd hp] at hdirs
  obtain ⟨t', hwrite⟩ := writeFile_returns htakes hup hnode data
  have hput : putBytes L st key data contentType t = (.ok _, t') :=
    bind_eq_ok.mpr ⟨p, t, ofExcept_eq.mpr ⟨hp, rfl⟩, bind_eq_ok.mpr ⟨(), t₁,
      mapError_eq_ok.mpr hdirs, bind_eq_ok.mpr ⟨(), t', mapError_eq_ok.mpr hwrite, rfl⟩⟩⟩
  have hfile : t'.node (place p) = some (.file data) := by
    rw [(writeFile_ok hwrite).2, Function.update_self]
  have hresolve : t'.resolve L (place p) = .ok (some (.file data)) :=
    hfile ▸ Tree.resolve_there htakes (by simp [hfile])
  have hclear' : t'.Clear L (place p) := Tree.clear_iff.mpr (Or.inr (Or.inr ⟨data, hresolve⟩))
  rcases hrun : delete L st key t' with ⟨r, t''⟩
  have hreturns := (delete_returns_iff hp).mpr hclear'
  rw [hrun] at hreturns
  cases hreturns
  refine ⟨_, t', t'', hput, (getBytes_ok_iff hp).mpr hresolve,
    (fileExists_iff hp).mpr (hclear'.pathExists_iff.mpr ⟨data, hresolve⟩), hrun, ?_⟩
  obtain ⟨q, hq, -, hgone⟩ := delete_ok hrun
  cases hp.symm.trans hq
  rw [fileExists, hp]
  refine congrArg Except.ok (Bool.eq_false_iff.mpr fun hexists => ?_)
  unfold Tree.pathExists at hexists
  split at hexists
  · next hx =>
    have hthere := (Tree.resolve_ok hx).1
    rw [hgone, Function.update_self] at hthere
    cases hthere
  · cases hexists

theorem FilesKept.likeMap {s : Run} (h : FilesKept st s) {p : Str} (hp : joined st key = .ok p)
    (hclear : s.disk.Clear L (place p)) : LikeMap L st key s where
  exists_iff := by
    rw [fileExists_iff hp, hclear.pathExists_iff]
    exact exists_congr fun data => (getBytes_ok_iff hp).symm
  get_iff := by
    intro data
    rw [getBytes_ok_iff hp, hclear.resolve_file_iff]
    exact h key p hp data
  delete_absent := by
    intro hlast
    refine delete_nothing hp hclear ?_
    rcases hnode : s.disk.node (place p) with _ | _ | data
    · rfl
    · exact absurd hnode hclear.notDir
    · rw [(h key p hp data).mp hnode] at hlast
      cases hlast

/-- **Blobs are a map** at a key exactly when its path can be a file: the key is joined, its path
is no directory, no file stands on the way to it, and the system takes its names. -/
theorem likeMap_iff (h : EmptyRoot st t) (calls : List Call) (key : Str) :
    LikeMap L st key (run L st t calls) ↔
      ∃ p, joined st key = .ok p ∧ (run L st t calls).disk.Clear L (place p) := by
  constructor
  · exact LikeMap.clear
  · rintro ⟨p, hp, hclear⟩
    exact (filesKept_run h calls).likeMap hp hclear

/-! ## Keys that are no directories of one another -/

/-- What stands below the root is at the path of a key in use, or on the way to one. -/
structure Spread (st : LocalFSStorage) (used : Str → Prop) (t : Disk) : Prop where
  root_dir : t.node (root st) = some .dir
  dirs : ∀ q, root st <:+ q → t.node q = some .dir →
    q = root st ∨ ∃ k p, used k ∧ joined st k = .ok p ∧ q <:+ (place p).tail
  files : ∀ q data, root st <:+ q → t.node q = some (.file data) →
    ∃ k p, used k ∧ joined st k = .ok p ∧ place p = q

section Spread

variable {used : Str → Prop}

theorem spread_empty (h : EmptyRoot st t) : Spread st used t := by
  have hbelow : ∀ q, root st <:+ q → t.node q ≠ none → q = root st := by
    intro q hq hnode
    cases q with
    | nil => exact (List.suffix_nil.mp hq).symm
    | cons n up =>
      rcases List.suffix_cons_iff.mp hq with heq | hup
      · exact heq.symm
      · exact absurd (h.empty n up hup) hnode
  refine ⟨h.dir, fun q hq hdir => Or.inl (hbelow q hq (by simp [hdir])), ?_⟩
  intro q data hq hfile
  rw [hbelow q hq (by simp [hfile]), h.dir] at hfile
  cases hfile

theorem Spread.grows (h : Spread st used t) (hcwd : isabs st.cwd = true) {p : Str}
    (hused : used key) (hp : joined st key = .ok p) (hgrows : t.Grows (place (dirname p)) t') :
    Spread st used t' := by
  refine ⟨hgrows.dir h.root_dir, fun q hq hdir => ?_, fun q data hq hfile => ?_⟩
  · rcases hgrows q with hsame | ⟨-, -, hway⟩
    · exact h.dirs q hq (hsame ▸ hdir)
    · exact Or.inr ⟨key, p, hused, hp, place_dirname hcwd hp ▸ hway⟩
  · exact h.files q data hq (hgrows.file_iff.mp hfile)

theorem Spread.update (h : Spread st used t) {p : Str} (hused : used key)
    (hp : joined st key = .ok p) (hdir : t.node (place p) ≠ some .dir) {x : Option Bytes}
    (hnode : t'.node = Function.update t.node (place p) (x.map .file)) : Spread st used t' := by
  have hother : ∀ q, q ≠ place p → t'.node q = t.node q := fun q hq => by
    rw [hnode, Function.update_of_ne hq]
  have hself : t'.node (place p) = x.map .file := by rw [hnode, Function.update_self]
  refine ⟨?_, fun q hq hq' => ?_, fun q data hq hfile => ?_⟩
  · rw [hother (root st) fun heq => hdir (heq ▸ h.root_dir), h.root_dir]
  · refine h.dirs q hq ?_
    rw [← hother q, hq']
    rintro rfl
    rw [hself] at hq'
    cases x <;> cases hq'
  · by_cases heq : q = place p
    · exact ⟨key, p, hused, hp, heq.symm⟩
    · exact h.files q data hq (hother q heq ▸ hfile)

theorem Spread.call (hcwd : isabs st.cwd = true) {s : Run} (h : Spread st used s.disk) {c : Call}
    (hused : used c.key) : Spread st used (s.call L st c).disk := by
  rcases call_cases (L := L) s c with ⟨x, p, t₁, hp, hgrows, hdir, hnode, -⟩ |
    ⟨hsame | ⟨p, hp, hgrows⟩, -⟩
  · exact (h.grows hcwd hused hp hgrows).update hused hp hdir hnode
  · rw [hsame]
    exact h
  · exact h.grows hcwd hused hp hgrows

theorem spread_run (hcwd : isabs st.cwd = true) (h : EmptyRoot st t) (calls : List Call) :
    Spread st (fun k => ∃ c ∈ calls, c.key = k) (run L st t calls).disk := by
  have hstart : Spread st (fun k => ∃ c ∈ calls, c.key = k) (Run.mk t []).disk := spread_empty h
  refine List.foldlRecOn calls (Run.call L st) (motive := fun s => Spread st _ s.disk) hstart ?_
  exact fun s hs c hc => hs.call hcwd ⟨c, hc, rfl⟩

end Spread

/-- At a key whose path is neither a directory of another one in use nor below one, **blobs are a
map**, as long as the system takes its names. -/
theorem likeMap_of_apart (hcwd : isabs st.cwd = true) (h : EmptyRoot st t) (calls : List Call)
    {p : Str} (hp : joined st key = .ok p) (hroot : place p ≠ root st)
    (htaken : L.place (place p) = true) (hnames : ∀ n ∈ place p, L.name n = true)
    (hapart : ∀ c ∈ calls, ∀ p', joined st c.key = .ok p' →
      place p <:+ place p' ∨ place p' <:+ place p → place p' = place p) :
    LikeMap L st key (run L st t calls) := by
  have hspread := spread_run (L := L) hcwd h calls
  have hshorter : ∀ {n q}, n :: q <:+ place p → q ≠ place p := by
    rintro n q hq rfl
    exact absurd hq.length_le (by simp)
  refine (filesKept_run h calls).likeMap hp ⟨htaken, fun n up hup => ⟨?_, ?_⟩, fun hdir => ?_⟩
  · intro data hfile
    have hway : up <:+ place p := (List.suffix_cons n up).trans hup
    rcases List.suffix_or_suffix_of_suffix (place_below hp) hway with hbelow | habove
    · obtain ⟨k, p', ⟨c, hc, rfl⟩, hp', heq⟩ := hspread.files up data hbelow hfile
      exact hshorter hup (heq.symm.trans (hapart c hc p' hp' (Or.inr (heq ▸ hway))))
    · have hdir := Tree.dir_of_suffix hspread.root_dir habove
      rw [hfile] at hdir
      cases hdir
  · exact fun _ => hnames n (hup.subset List.mem_cons_self)
  · rcases hspread.dirs (place p) (place_below hp) hdir with heq | ⟨k, p', ⟨c, hc, rfl⟩, hp', hway⟩
    · exact hroot heq
    · have hsame := hapart c hc p' hp' (Or.inl (hway.trans (List.tail_suffix _)))
      rw [hsame] at hway
      -- only the root of the tree is its own directory
      cases hplace : place p with
      | nil => exact hroot (hplace.trans (List.suffix_nil.mp (hplace ▸ place_below hp)).symm)
      | cons n up =>
        rw [hplace] at hway
        exact absurd hway.length_le (by simp)

/-! ## A sample storage -/

/-- The length in UTF-8. -/
def nameBytes (n : Str) : Nat := n.foldr (fun c k => c.utf8Size + k) 0

/-- `NAME_MAX` and `PATH_MAX`; a null byte is in no path. -/
def linux : Limits Str where
  place p := (p.all fun n => !n.contains '\x00') &&
    decide (p.foldr (fun n k => nameBytes n + 1 + k) 0 < 4096)
  name n := decide (nameBytes n ≤ 255)

def dataStorage : LocalFSStorage where
  rootDir := "/data".toList
  cwd := "/".toList
  digest := fun _ => []

/-- The directory of the storage alone. -/
def dataDisk : Disk where
  node p := if p = [] ∨ p = ["data".toList] then some .dir else none
  root_dir := rfl
  parent_dir := by
    intro n up hn
    split at hn
    · next h =>
      rcases h with h | h
      · cases h
      · cases h
        rfl
    · exact absurd rfl hn

theorem emptyRoot_dataDisk : EmptyRoot dataStorage dataDisk where
  dir := by decide
  empty := by
    intro n up hup
    have hlen := hup.length_le
    refine if_neg ?_
    rintro (h | h)
    · cases h
    · cases h
      exact absurd hlen (by decide)

def nestedPut : List Call := [.put "a/b".toList [7] none]

theorem likeMap_iff_nestedPut : EmptyRoot dataStorage dataDisk ∧
    LikeMap linux dataStorage "a/b".toList (run linux dataStorage dataDisk nestedPut) := by
  have hclear : (run linux dataStorage dataDisk nestedPut).disk.Clear linux
      (place "/data/a/b".toList) :=
    Tree.clear_iff.mpr (Or.inr (Or.inr ⟨[7], by decide⟩))
  exact ⟨emptyRoot_dataDisk,
    (likeMap_iff emptyRoot_dataDisk nestedPut _).mpr ⟨_, by decide, hclear⟩⟩

/-- What a put under `a/b` leaves at `a` exists, and can be neither read nor deleted. -/
theorem nested_not_likeMap : EmptyRoot dataStorage dataDisk ∧
    safeKey "a/b".toList = .ok "a/b".toList ∧ safeKey "a".toList = .ok "a".toList ∧
    (run linux dataStorage dataDisk nestedPut).returned = [("a/b".toList, some [7])] ∧
    fileExists linux dataStorage "a".toList (run linux dataStorage dataDisk nestedPut).disk
      = .ok true ∧
    getBytes linux dataStorage "a".toList (run linux dataStorage dataDisk nestedPut).disk
      = .error (.osError .isADirectory) ∧
    (delete linux dataStorage "a".toList (run linux dataStorage dataDisk nestedPut).disk).1
      = .error (.osError .isADirectory) ∧
    ¬LikeMap linux dataStorage "a".toList (run linux dataStorage dataDisk nestedPut) := by
  have hexists : fileExists linux dataStorage "a".toList
      (run linux dataStorage dataDisk nestedPut).disk = .ok true := by decide
  have hget : getBytes linux dataStorage "a".toList
      (run linux dataStorage dataDisk nestedPut).disk = .error (.osError .isADirectory) := by decide
  refine ⟨emptyRoot_dataDisk, by decide, by decide, by decide, hexists, hget, by decide, ?_⟩
  intro hlike
  obtain ⟨data, hdata⟩ := hlike.exists_iff.mp hexists
  rw [hget] at hdata
  cases hdata

end EnterpriseAssistant.Infra.BlobTree
