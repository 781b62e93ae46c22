import EnterpriseAssistant.Infra.BlobTree
import EnterpriseAssistant.Kb.StorageKeys

/-!
# The blobs of the assets on the disk

The keys of `app/modules/kb/storage_keys.py` in a `LocalFSStorage` on a POSIX file tree.

* `key_accepted_iff` — the storage refuses the names with two dots in a row, and has room for the
  others where nothing is in the way
* `blobs_like_map` — under its own keys the application has a map, whatever the calls
-/

namespace EnterpriseAssistant.Kb

open Py Posix Infra Infra.BlobTree

variable {sha256 : Str → Str} {L : FileTree.Limits Str} {st : LocalFSStorage} {t : Disk}

namespace Blob

theorem key_of_same {b b' : Blob} (h : b.Same b') : b.key sha256 = b'.key sha256 := by
  obtain ⟨hw, ha, hkind, hname⟩ := h
  have hsegment : b.segment = b'.segment := by
    unfold segment
    rw [hkind]
  rw [key_eq, key_eq, dirs, dirs, above, above, hw, ha, hsegment, hname]

/-- The names of a stored path: those of the root, the seven directories, and what counts of the
name. -/
theorem plain_stored (h : HexDigest sha256) (hcwd : isabs st.cwd = true) {b : Blob} {p : Str}
    (hp : joined st (b.key sha256) = .ok p) : plain p = plain (abspath st.cwd st.rootDir) ++
      (b.dirs sha256 ++ plain (forwardSlashes b.effective)) := by
  have hdirs := plainDir_of_mem_dirs h b
  rw [joinKey_key_ok h hcwd (joined_eq_ok.mp hp), plain_append, plain_intercalate]
  intro c hc
  rcases List.mem_append.mp hc with hc | hc
  · exact ⟨(hdirs c hc).slash, (hdirs c hc).counts⟩
  · exact counts_of_mem_plain hc

/-- Of two blobs the one is on the way to the other only if they are the same. -/
theorem same_of_suffix (h : HexDigest sha256) (hcwd : isabs st.cwd = true) {b b' : Blob}
    {p p' : Str} (hp : joined st (b.key sha256) = .ok p) (hp' : joined st (b'.key sha256) = .ok p')
    (hsalt : salt sha256 b.workspaceId b.assetId b.effective
        = salt sha256 b'.workspaceId b'.assetId b'.effective → b.salted = b'.salted)
    (hway : place p <:+ place p') : b.Same b' := by
  have hprefix := List.reverse_suffix.mp hway
  rw [plain_stored h hcwd hp, plain_stored h hcwd hp', List.prefix_append_right_inj] at hprefix
  exact same_of_begins hprefix hsalt

end Blob

/-! ## Keys that are accepted -/

/-- **Agreement.**  On a storage that is not the root of the file system, the built key is refused
when its name has two dots in a row; every other built key has a path, and under it a blob can be
stored, read back, tested and deleted wherever nothing is in the way of a file and the system takes
the names. -/
theorem key_accepted_iff (h : HexDigest sha256) (st : LocalFSStorage) (hcwd : isabs st.cwd = true)
    (hroot : abspath st.cwd st.rootDir ≠ ['/'] ∧ abspath st.cwd st.rootDir ≠ ['/', '/']) (b : Blob) :
    (parent <:+: b.effective → joinKey st.cwd st.rootDir (b.key sha256) = .error badStorageKey) ∧
    (¬parent <:+: b.effective → ∃ p, joinKey st.cwd st.rootDir (b.key sha256) = .ok p ∧
      ∀ (L : FileTree.Limits Str) (t : Disk), L.Takes (place p) → t.Clear L (place p) →
        ∀ (data : Bytes) (contentType : Option Str), ∃ obj t' t'',
          putBytes L st (b.key sha256) data contentType t = (.ok obj, t') ∧
            getBytes L st (b.key sha256) t' = .ok data ∧
              fileExists L st (b.key sha256) t' = .ok true ∧
                delete L st (b.key sha256) t' = (.ok (), t'') ∧
                  fileExists L st (b.key sha256) t'' = .ok false) := by
  have hkey := Blob.joinKey_key h hcwd st.rootDir b
  constructor
  · intro hdots
    rw [hkey, if_neg (fun hall => hall.1 hdots)]
  · intro hnone
    rw [if_pos ⟨hnone, hroot⟩] at hkey
    exact ⟨_, hkey, fun L t htakes hclear data contentType =>
      put_get hcwd (joined_eq_ok.mpr hkey) htakes hclear data contentType⟩

/-- A disk with nothing on it. -/
def bareDisk : Disk where
  node p := if p = [] then some .dir else none
  root_dir := rfl
  parent_dir := by
    intro n up hn
    exact absurd (if_neg (List.cons_ne_nil n up)) hn

/-- The builder takes two dots in a row, the backend does not; and of a name of 270 bytes it makes a
key that is accepted, but the system does not take the name. -/
theorem names_refused :
    HexDigest sampleDigest ∧
      abspath sampleStorage.cwd sampleStorage.rootDir = "/srv/app/data/blobs".toList ∧
        joinKey sampleStorage.cwd sampleStorage.rootDir
          (assetOriginalKey sampleDigest 1 2 "v1..2.pdf".toList) = .error badStorageKey ∧
        (putBytes linux sampleStorage
          (assetOriginalKey sampleDigest 1 2 (List.replicate 90 '中')) [37, 80] none bareDisk).1
            = .error (.osError .badName) :=
  ⟨hexDigest_sampleDigest, by decide, by decide, by decide +kernel⟩

theorem key_accepted_sample : ∃ p, place p = ["report.pdf".toList, "9648f35f5c7046ee".toList,
      "original".toList, "2".toList, "assets".toList, "1".toList, "ws".toList, "kb".toList,
      "blobs".toList, "data".toList, "app".toList, "srv".toList] ∧
    ∃ obj t' t'', putBytes linux sampleStorage ((sampleReport .original).key sampleDigest) [37, 80]
        none bareDisk = (.ok obj, t') ∧
      getBytes linux sampleStorage ((sampleReport .original).key sampleDigest) t' = .ok [37, 80] ∧
        fileExists linux sampleStorage ((sampleReport .original).key sampleDigest) t' = .ok true ∧
          delete linux sampleStorage ((sampleReport .original).key sampleDigest) t'
              = (.ok (), t'') ∧
            fileExists linux sampleStorage ((sampleReport .original).key sampleDigest) t''
              = .ok false := by
  obtain ⟨p, hp, hall⟩ := (key_accepted_iff hexDigest_sampleDigest sampleStorage (by decide)
    ⟨by decide, by decide⟩ (sampleReport .original)).2 (by decide)
  have hplace : place p = ["report.pdf".toList, "9648f35f5c7046ee".toList, "original".toList,
      "2".toList, "assets".toList, "1".toList, "ws".toList, "kb".toList, "blobs".toList,
      "data".toList, "app".toList, "srv".toList] := by
    have hpath : joinKey sampleStorage.cwd sampleStorage.rootDir
        ((sampleReport .original).key sampleDigest) = .ok
          "/srv/app/data/blobs/kb/ws/1/assets/2/original/9648f35f5c7046ee/report.pdf".toList := by
      decide
    cases hp.symm.trans hpath
    decide
  refine ⟨p, hplace, hall linux bareDisk ?_ ?_ [37, 80] none⟩
  · rw [hplace]
    decide
  · rw [hplace]
    exact FileTree.Tree.clear_iff.mpr (Or.inr (Or.inl (by decide)))

/-! ## Runs of calls -/

/-- **Blobs are a map** under the keys that the application builds, as long as their salts do not
collide and the system takes the names. -/
theorem blobs_like_map (h : HexDigest sha256) (hcwd : isabs st.cwd = true) (hroot : EmptyRoot st t)
    (calls : List Call) (b : Blob) {p : Str} (hp : joined st (b.key sha256) = .ok p)
    (htaken : L.place (place p) = true) (hnames : ∀ n ∈ place p, L.name n = true)
    (hcalls : ∀ c ∈ calls, ∃ b' : Blob, c.key = b'.key sha256 ∧
      (salt sha256 b.workspaceId b.assetId b.effective
        = salt sha256 b'.workspaceId b'.assetId b'.effective → b.salted = b'.salted)) :
    LikeMap L st (b.key sha256) (run L st t calls) := by
  refine likeMap_of_apart hcwd hroot calls hp ?_ htaken hnames fun c hc p' hp' hway => ?_
  · intro heq
    have hplain := List.reverse_injective heq
    rw [Blob.plain_stored h hcwd hp, List.append_right_eq_self] at hplain
    exact List.cons_ne_nil _ _ hplain
  · obtain ⟨b', hkey, hsalt⟩ := hcalls c hc
    rw [hkey] at hp'
    have hsame : b.key sha256 = b'.key sha256 := by
      rcases hway with hway | hway
      · exact Blob.key_of_same (Blob.same_of_suffix h hcwd hp hp' hsalt hway)
      · exact (Blob.key_of_same (Blob.same_of_suffix h hcwd hp' hp
          (fun heq => (hsalt heq.symm).symm) hway)).symm
    rw [hsame] at hp
    rw [Except.ok.inj (hp'.symm.trans hp)]

end EnterpriseAssistant.Kb
