import EnterpriseAssistant.Infra.LocalFs

/-!
# Where the blobs of an asset are stored

`app/modules/kb/storage_keys.py`, and what `LocalFSStorage` makes of its keys.

* `blobs_apart` — two blobs are never stored under one path, nor one below the other
* `Blob.joinKey_key` — the builder takes every name, the backend none with two dots in a row
-/

namespace EnterpriseAssistant.Kb

open Py Posix Infra

section Keys

-- `sha256(..).hexdigest()`
variable (sha256 : Str → Str)

def isHex (c : Char) : Bool := c.isDigit || (c.toNat ≥ 97 && c.toNat ≤ 102)

/-- Hexadecimal digits, two for each of the 32 bytes. -/
def HexDigest : Prop := ∀ s, (sha256 s).length = 64 ∧ (sha256 s).all isHex = true

/-- `str(name or "").strip() or default` -/
def effectiveName (default name : Str) : Str := if strip name = [] then default else strip name

/-- What the salt is the digest of. -/
def saltInput (workspaceId assetId : Int) (name : Str) : Str :=
  str workspaceId ++ ':' :: (str assetId ++ ':' :: name)

def salt (workspaceId assetId : Int) (name : Str) : Str :=
  (sha256 (saltInput workspaceId assetId name)).take 16

/-- The key of a file of an asset, in the directory of its kind. -/
def assetKey (kind default : Str) (workspaceId assetId : Int) (name : Str) : Str :=
  let nm := effectiveName default name
  "kb/ws/".toList ++ str workspaceId ++ "/assets/".toList ++ str assetId ++ '/' :: kind ++
    '/' :: salt sha256 workspaceId assetId nm ++ '/' :: nm

def assetOriginalKey (workspaceId assetId : Int) (filename : Str) : Str :=
  assetKey sha256 "original".toList "file".toList workspaceId assetId filename

def assetDerivativeKey (workspaceId assetId : Int) (name : Str) : Str :=
  assetKey sha256 "derived".toList "derivative".toList workspaceId assetId name

inductive BlobKind where
  | original
  | derived
deriving DecidableEq, Repr

/-- What is stored for an asset: its file, or something derived from it. -/
structure Blob where
  kind : BlobKind
  workspaceId : Int
  assetId : Int
  name : Str

namespace Blob

def key (b : Blob) : Str :=
  match b.kind with
  | .original => assetOriginalKey sha256 b.workspaceId b.assetId b.name
  | .derived => assetDerivativeKey sha256 b.workspaceId b.assetId b.name

/-- The directory of the kind, in the directory of the asset. -/
def segment (b : Blob) : Str :=
  match b.kind with
  | .original => "original".toList
  | .derived => "derived".toList

/-- The name, stripped, or the default of the kind. -/
def effective (b : Blob) : Str :=
  match b.kind with
  | .original => effectiveName "file".toList b.name
  | .derived => effectiveName "derivative".toList b.name

/-- Below the storage root. -/
def home (b : Blob) : Str :=
  "/kb/ws/".toList ++ str b.workspaceId ++ "/assets/".toList ++ str b.assetId ++ '/' :: b.segment

/-- Two calls of the builders that differ in nothing that counts. -/
def Same (b b' : Blob) : Prop :=
  b.workspaceId = b'.workspaceId ∧ b.assetId = b'.assetId ∧ b.kind = b'.kind ∧
    b.effective = b'.effective

/-- What the salt of the blob is the digest of. -/
def salted (b : Blob) : Str := saltInput b.workspaceId b.assetId b.effective

/-- The directories in front of the salt. -/
def above (b : Blob) : List Str :=
  ["kb".toList, "ws".toList, str b.workspaceId, "assets".toList, str b.assetId, b.segment]

/-- The directories in front of the name. -/
def dirs (b : Blob) : List Str := b.above ++ [salt sha256 b.workspaceId b.assetId b.effective]

end Blob

end Keys

/-! ## The components of a key -/

theorem isSpace_getLast_strip {s : Str} (h : strip s ≠ []) :
    isSpace ((strip s).getLast h) = false :=
  Bool.eq_false_iff.mpr (List.rdropWhile_last_not isSpace (s.dropWhile isSpace) h)

/-- A name is never empty, and never ends with a blank. -/
theorem effectiveName_last {default : Str} (hd : default ≠ [])
    (hlast : isSpace (default.getLast hd) = false) (name : Str) :
    ∃ hne : effectiveName default name ≠ [],
      isSpace ((effectiveName default name).getLast hne) = false := by
  unfold effectiveName
  split
  · exact ⟨hd, hlast⟩
  · next h => exact ⟨h, isSpace_getLast_strip h⟩

namespace Blob

theorem effective_last (b : Blob) :
    ∃ hne : b.effective ≠ [], isSpace (b.effective.getLast hne) = false := by
  obtain ⟨kind, w, a, name⟩ := b
  cases kind with
  | original => exact effectiveName_last (by decide) (by decide) name
  | derived => exact effectiveName_last (by decide) (by decide) name

variable {sha256 : Str → Str}

theorem key_eq (b : Blob) :
    b.key sha256 = ['/'].intercalate (b.dirs sha256) ++ '/' :: b.effective := by
  obtain ⟨kind, w, a, name⟩ := b
  have hshape : ∀ ws as k nm salt : Str, "kb/ws/".toList ++ ws ++ "/assets/".toList ++ as ++ '/' :: k ++
      '/' :: salt ++ '/' :: nm
      = ['/'].intercalate ["kb".toList, "ws".toList, ws, "assets".toList, as, k, salt] ++ '/' :: nm := by
    intro ws as k nm salt
    simp only [List.intercalate_cons_cons, List.intercalate_singleton]
    simp
  cases kind with
  | original => exact hshape _ _ _ _ _
  | derived => exact hshape _ _ _ _ _

/-- A directory in front of the name: not empty, and neither slash, backslash nor dot in it. -/
structure PlainDir (d : Str) : Prop where
  ne_nil : d ≠ []
  slash : '/' ∉ d
  backslash : '\\' ∉ d
  dot : '.' ∉ d

theorem PlainDir.counts {d : Str} (h : PlainDir d) : counts d = true := by
  have hdot : d ≠ ['.'] := by
    rintro rfl
    exact h.dot List.mem_cons_self
  simp [Posix.counts, h.ne_nil, hdot]

theorem plainDir_str (n : Int) : PlainDir (str n) where
  ne_nil := str_ne_nil n
  slash := notMem_str (by decide) (by decide) n
  backslash := notMem_str (by decide) (by decide) n
  dot := notMem_str (by decide) (by decide) n

theorem plainDir_salt (h : HexDigest sha256) (w a : Int) (name : Str) :
    PlainDir (salt sha256 w a name) := by
  obtain ⟨hlen, hhex⟩ := h (saltInput w a name)
  have hnot : ∀ c, isHex c = false → c ∉ salt sha256 w a name := by
    intro c hc hmem
    have hc' := List.all_eq_true.mp hhex c (List.mem_of_mem_take hmem)
    rw [hc] at hc'
    cases hc'
  refine ⟨?_, hnot _ (by decide), hnot _ (by decide), hnot _ (by decide)⟩
  intro hnil
  have hzero := congrArg List.length hnil
  rw [salt, List.length_take, hlen] at hzero
  cases hzero

theorem plainDir_segment (b : Blob) : PlainDir b.segment := by
  obtain ⟨kind, w, a, name⟩ := b
  cases kind with
  | original =>
    show PlainDir "original".toList
    exact ⟨by decide, by decide, by decide, by decide⟩
  | derived =>
    show PlainDir "derived".toList
    exact ⟨by decide, by decide, by decide, by decide⟩

theorem plainDir_of_mem_dirs (h : HexDigest sha256) (b : Blob) : ∀ d ∈ b.dirs sha256, PlainDir d := by
  simp only [dirs, above, List.cons_append, List.nil_append, List.forall_mem_cons, List.not_mem_nil,
    false_implies, implies_true, and_true]
  exact ⟨⟨by decide, by decide, by decide, by decide⟩, ⟨by decide, by decide, by decide, by decide⟩,
    plainDir_str _, ⟨by decide, by decide, by decide, by decide⟩, plainDir_str _,
    plainDir_segment b, plainDir_salt h _ _ _⟩

/-- What is in no directory is not in front of the name either, the slashes apart. -/
theorem notMem_intercalate {ds : List Str} {c : Char} (hc : ∀ d ∈ ds, c ∉ d) (hslash : c ≠ '/') :
    c ∉ ['/'].intercalate ds := by
  induction ds with
  | nil => exact List.not_mem_nil
  | cons d ds ih =>
    have hd := hc d List.mem_cons_self
    have hrest := ih fun e he => hc e (List.mem_cons_of_mem _ he)
    cases ds with
    | nil => rwa [List.intercalate_singleton]
    | cons e es =>
      rw [List.intercalate_cons_cons]
      simp [hd, hslash, hrest]

theorem forwardSlashes_of_notMem {s : Str} (h : '\\' ∉ s) : forwardSlashes s = s := by
  refine (List.map_congr_left fun c hc => if_neg ?_).trans (List.map_id s)
  rintro rfl
  exact h hc

theorem forwardSlashes_key (h : HexDigest sha256) (b : Blob) :
    forwardSlashes (b.key sha256)
      = ['/'].intercalate (b.dirs sha256) ++ '/' :: forwardSlashes b.effective := by
  have hback := notMem_intercalate (c := '\\')
    (fun d hd => (plainDir_of_mem_dirs h b d hd).backslash) (by decide)
  rw [key_eq, forwardSlashes, List.map_append, ← forwardSlashes, forwardSlashes_of_notMem hback]
  rfl

/-- The directories of a key, and what counts of its name. -/
theorem plain_key (h : HexDigest sha256) (b : Blob) :
    plain (forwardSlashes (b.key sha256))
      = b.dirs sha256 ++ plain (forwardSlashes b.effective) := by
  have hdirs := plainDir_of_mem_dirs h b
  rw [forwardSlashes_key h, plain_append, plain_intercalate fun d hd =>
    ⟨(hdirs d hd).slash, (hdirs d hd).counts⟩]

/-- Two dots in a row can only be in the name. -/
theorem parent_infix_key (h : HexDigest sha256) (b : Blob) :
    parent <:+: b.key sha256 ↔ parent <:+: b.effective := by
  have hdot := notMem_intercalate (c := '.')
    (fun d hd => (plainDir_of_mem_dirs h b d hd).dot) (by decide)
  have hskip : ∀ front : Str, '.' ∉ front →
      (parent <:+: front ++ '/' :: b.effective ↔ parent <:+: b.effective) := by
    intro front
    induction front with
    | nil =>
      intro _
      rw [List.nil_append, List.infix_cons_iff]
      simp [parent]
    | cons c front ih =>
      intro hnot
      obtain ⟨hc, hfront⟩ := not_or.mp fun hor => hnot (List.mem_cons.mpr hor)
      rw [List.cons_append, List.infix_cons_iff, ih hfront]
      simp [parent, hc]
  rw [key_eq]
  exact hskip _ hdot

theorem strip_key (b : Blob) : strip (b.key sha256) = b.key sha256 := by
  obtain ⟨hne, hlast⟩ := b.effective_last
  rw [strip_eq_self_iff]
  intro hkey
  constructor
  · have hhead : (b.key sha256).head? = some 'k' := by
      rw [key_eq]
      rfl
    rw [List.head?_eq_some_head hkey] at hhead
    rw [Option.some.inj hhead]
    decide
  · have heq : (b.key sha256).getLast hkey = b.effective.getLast hne := by
      simp only [key_eq]
      rw [List.getLast_append_of_ne_nil _ (List.cons_ne_nil _ _), List.getLast_cons hne]
    rw [heq, hlast]

/-! ## Where the backend puts a key -/

variable {cwd root p : Str}

theorem joinKey_key (h : HexDigest sha256) (hcwd : isabs cwd = true) (root : Str) (b : Blob) :
    joinKey cwd root (b.key sha256) =
      if ¬parent <:+: b.effective ∧ abspath cwd root ≠ ['/'] ∧ abspath cwd root ≠ ['/', '/'] then
        .ok (abspath cwd root ++
          '/' :: ['/'].intercalate (b.dirs sha256 ++ plain (forwardSlashes b.effective)))
      else .error badStorageKey := by
  have hhead : (b.key sha256).head? = some 'k' := by
    rw [key_eq]
    rfl
  have hplain : plain (forwardSlashes (b.key sha256)) ≠ [] := by
    rw [plain_key h]
    exact List.append_ne_nil_of_left_ne_nil (List.cons_ne_nil _ _) _
  rw [joinKey_eq hcwd root (strip_key b) (by rw [isabs, hhead]; rfl) (by rw [hhead]; decide) hplain,
    plain_key h]
  simp only [parent_infix_key h]

theorem joinKey_key_ok (h : HexDigest sha256) (hcwd : isabs cwd = true) {b : Blob}
    (hp : joinKey cwd root (b.key sha256) = .ok p) :
    p = abspath cwd root ++
      '/' :: ['/'].intercalate (b.dirs sha256 ++ plain (forwardSlashes b.effective)) := by
  rw [joinKey_key h hcwd] at hp
  split at hp
  · exact (Except.ok.inj hp).symm
  · cases hp

theorem home_eq (b : Blob) : b.home = '/' :: ['/'].intercalate b.above := by
  have hshape : ∀ ws as k : Str, "/kb/ws/".toList ++ ws ++ "/assets/".toList ++ as ++ '/' :: k
      = '/' :: ['/'].intercalate ["kb".toList, "ws".toList, ws, "assets".toList, as, k] := by
    intro ws as k
    simp only [List.intercalate_cons_cons, List.intercalate_singleton]
    simp
  exact hshape _ _ _

/-- An accepted blob lies in the directory of its kind and its asset. -/
theorem below_home (h : HexDigest sha256) (hcwd : isabs cwd = true) {b : Blob}
    (hp : joinKey cwd root (b.key sha256) = .ok p) : Below (abspath cwd root ++ b.home) p := by
  have hsalt := (plainDir_salt h b.workspaceId b.assetId b.effective).ne_nil
  refine ⟨['/'].intercalate (salt sha256 b.workspaceId b.assetId b.effective ::
    plain (forwardSlashes b.effective)), ?_, ?_⟩
  · cases plain (forwardSlashes b.effective) with
    | nil => rwa [List.intercalate_singleton]
    | cons d ds =>
      rw [List.intercalate_cons_cons, List.append_assoc]
      exact List.append_ne_nil_of_left_ne_nil hsalt _
  · rw [joinKey_key_ok h hcwd hp, dirs, List.append_assoc, List.singleton_append,
      intercalate_append (show b.above ≠ [] from List.cons_ne_nil _ _) (List.cons_ne_nil _ _),
      home_eq, List.append_assoc,
      List.cons_append]

/-- The components of a stored path: those of the root, the seven directories, and the name. -/
theorem split_stored (h : HexDigest sha256) (hcwd : isabs cwd = true) {b : Blob}
    (hp : joinKey cwd root (b.key sha256) = .ok p) :
    split p = split (abspath cwd root) ++ (b.dirs sha256 ++ plain (forwardSlashes b.effective)) := by
  have hslash := fun d (hd : d ∈ b.dirs sha256 ++ plain (forwardSlashes b.effective)) =>
    (List.mem_append.mp hd).elim (fun hd => (plainDir_of_mem_dirs h b d hd).slash)
      fun hd => (mem_plain hd).1
  rw [joinKey_key_ok h hcwd hp, split_append, split_intercalate hslash (List.cons_ne_nil _ _)]

theorem saltInput_inj {w a : Int} {name name' : Str}
    (h : saltInput w a name = saltInput w a name') : name = name' := by
  unfold saltInput at h
  exact List.cons.inj (List.append_cancel_left (List.cons.inj (List.append_cancel_left h)).2) |>.2

/-- The directories say which blob it is. -/
theorem same_of_dirs {b b' : Blob} (h : b.dirs sha256 = b'.dirs sha256)
    (hsalt : salt sha256 b.workspaceId b.assetId b.effective
        = salt sha256 b'.workspaceId b'.assetId b'.effective → b.salted = b'.salted) :
    b.Same b' := by
  simp only [dirs, above, List.cons_append, List.nil_append, List.cons.injEq, true_and, and_true,
    str_inj] at h
  obtain ⟨hw, ha, hsegment, hs⟩ := h
  have hname := hsalt hs
  rw [salted, salted, hw, ha] at hname
  refine ⟨hw, ha, ?_, saltInput_inj hname⟩
  obtain ⟨kind, w, a, name⟩ := b
  obtain ⟨kind', w', a', name'⟩ := b'
  cases kind with
  | original =>
    cases kind' with
    | original => rfl
    | derived => exact absurd hsegment (by show "original".toList ≠ "derived".toList; decide)
  | derived =>
    cases kind' with
    | original => exact absurd hsegment (by show "derived".toList ≠ "original".toList; decide)
    | derived => rfl

/-- Both begin with seven directories, whatever the names are. -/
theorem same_of_begins {b b' : Blob} {name name' : List Str}
    (h : b.dirs sha256 ++ name <+: b'.dirs sha256 ++ name')
    (hsalt : salt sha256 b.workspaceId b.assetId b.effective
        = salt sha256 b'.workspaceId b'.assetId b'.effective → b.salted = b'.salted) :
    b.Same b' := by
  obtain ⟨rest, hrest⟩ := h
  rw [List.append_assoc] at hrest
  have heq : b.dirs sha256 = b'.dirs sha256 := List.append_inj_left hrest rfl
  exact same_of_dirs heq hsalt

/-- Of two blobs that differ neither is stored at, or on the way to, the other. -/
theorem not_pathPrefix (h : HexDigest sha256) (hcwd : isabs cwd = true) {p' : Str} {b b' : Blob}
    (hp : joinKey cwd root (b.key sha256) = .ok p) (hp' : joinKey cwd root (b'.key sha256) = .ok p')
    (hsalt : salt sha256 b.workspaceId b.assetId b.effective
        = salt sha256 b'.workspaceId b'.assetId b'.effective → b.salted = b'.salted)
    (hne : ¬b.Same b') : ¬PathPrefix p p' := by
  intro hprefix
  have hcomps := hprefix.split_prefix
  rw [split_stored h hcwd hp, split_stored h hcwd hp', List.prefix_append_right_inj] at hcomps
  exact hne (same_of_begins hcomps hsalt)

end Blob

variable {sha256 : Str → Str}

/-- **Apart.**  An accepted key leads strictly below the directory of its asset and its kind, and
two keys that differ in workspace, asset, kind or effective name lead to paths neither of which is
the other or on the way to it, as long as their salts do not collide. -/
theorem blobs_apart (h : HexDigest sha256) {cwd : Str} (hcwd : isabs cwd = true) (root : Str) :
    (∀ (b : Blob) (p : Str), joinKey cwd root (b.key sha256) = .ok p →
      Below (abspath cwd root ++ b.home) p) ∧
    ∀ (b b' : Blob) (p p' : Str), joinKey cwd root (b.key sha256) = .ok p →
      joinKey cwd root (b'.key sha256) = .ok p' → ¬b.Same b' →
      (salt sha256 b.workspaceId b.assetId b.effective
        = salt sha256 b'.workspaceId b'.assetId b'.effective → b.salted = b'.salted) →
      ¬PathPrefix p p' ∧ ¬PathPrefix p' p := by
  refine ⟨fun b p hp => Blob.below_home h hcwd hp, ?_⟩
  intro b b' p p' hp hp' hne hsalt
  have hne' : ¬b'.Same b := fun ⟨hw, ha, hkind, hname⟩ =>
    hne ⟨hw.symm, ha.symm, hkind.symm, hname.symm⟩
  exact ⟨Blob.not_pathPrefix h hcwd hp hp' hsalt hne,
    Blob.not_pathPrefix h hcwd hp' hp (fun heq => (hsalt heq.symm).symm) hne'⟩

/-! ## Sample keys -/

/-- The digests of two names of asset 2 in workspace 1. -/
def sampleDigest (s : Str) : Str :=
  if s = "1:2:report.pdf".toList then
    "9648f35f5c7046eef9b1be44cd2fc6635eace2f5848c1a0187902fc0e510f4e4".toList
  else if s = "1:2:v1..2.pdf".toList then
    "f620966877bc54a3bea51c77428887ea62b697d358893a6a64f9bdd012338757".toList
  else List.replicate 64 '0'

theorem hexDigest_sampleDigest : HexDigest sampleDigest := by
  intro s
  unfold sampleDigest
  split
  · exact ⟨rfl, rfl⟩
  · split
    · exact ⟨rfl, rfl⟩
    · exact ⟨rfl, rfl⟩

def sampleReport (kind : BlobKind) : Blob :=
  { kind := kind, workspaceId := 1, assetId := 2, name := " report.pdf".toList }

def sampleStorage : LocalFSStorage :=
  { rootDir := "./data/blobs".toList, cwd := "/srv/app".toList, digest := fun _ => [] }

theorem blobs_apart_sample :
    ∃ p p', joinKey sampleStorage.cwd sampleStorage.rootDir
        ((sampleReport .original).key sampleDigest) = .ok p ∧
      p = "/srv/app/data/blobs/kb/ws/1/assets/2/original/9648f35f5c7046ee/report.pdf".toList ∧
      joinKey sampleStorage.cwd sampleStorage.rootDir
        ((sampleReport .derived).key sampleDigest) = .ok p' ∧
      Below ("/srv/app/data/blobs/kb/ws/1/assets/2/original".toList) p ∧
      ¬PathPrefix p p' ∧ ¬PathPrefix p' p := by
  have hp : joinKey sampleStorage.cwd sampleStorage.rootDir
      ((sampleReport .original).key sampleDigest) = .ok
        "/srv/app/data/blobs/kb/ws/1/assets/2/original/9648f35f5c7046ee/report.pdf".toList := by
    decide
  have hp' : joinKey sampleStorage.cwd sampleStorage.rootDir
      ((sampleReport .derived).key sampleDigest) = .ok
        "/srv/app/data/blobs/kb/ws/1/assets/2/derived/9648f35f5c7046ee/report.pdf".toList := by
    decide
  have hapart := blobs_apart hexDigest_sampleDigest (by decide : isabs sampleStorage.cwd = true)
    sampleStorage.rootDir
  have hne : ¬(sampleReport .original).Same (sampleReport .derived) := fun hsame =>
    BlobKind.noConfusion hsame.2.2.1
  exact ⟨_, _, hp, rfl, hp', hapart.1 _ _ hp, hapart.2 _ _ _ _ hp hp' hne fun _ => rfl⟩

end EnterpriseAssistant.Kb
