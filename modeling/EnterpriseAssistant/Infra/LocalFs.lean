import EnterpriseAssistant.Lib.PosixPath

/-!
# The keys of the local file system

`LocalFSStorage` of `app/infra/blob_storage/local_fs.py` and its check of the keys.

* `joinKey_eq` — which relative keys have a path, and which path
-/

namespace EnterpriseAssistant.Infra

open Py Posix

/-- The only `ValueError` of the backend. -/
def badStorageKey : String := "bad_storage_key"

/-- `k.replace("\\", "/")`. -/
def forwardSlashes (k : Str) : Str := k.map fun c => if c = '\\' then '/' else c

/-- `_safe_key`. -/
def safeKey (key : Str) : Except String Str :=
  let k := strip key
  if k = [] ∨ isabs k = true ∨ parent <:+: k then .error badStorageKey else .ok (forwardSlashes k)

/-- `_join`, in the working directory `cwd`. -/
def joinKey (cwd root key : Str) : Except String Str := do
  let key ← safeKey key
  let p := abspath cwd (join root key)
  let r := abspath cwd root
  if ¬(r ++ ['/'] <+: p) ∧ p ≠ r then .error badStorageKey else .ok p

abbrev Bytes := List UInt8

structure StoredObject where
  key : Str
  size : Nat
  contentType : Option Str
  etag : Str
deriving DecidableEq, Repr

/-- `LocalFSStorage`, in the working directory of its process; `digest` is `sha256(..).hexdigest()`. -/
structure LocalFSStorage where
  rootDir : Str
  cwd : Str
  digest : Bytes → Str

/-! ## What the key check accepts -/

theorem isabs_forwardSlashes {k : Str} (h : isabs k = false) (hback : k.head? ≠ some '\\') :
    isabs (forwardSlashes k) = false := by
  cases k with
  | nil => rfl
  | cons c k =>
    have hc : c ≠ '\\' := fun heq => hback (by rw [heq]; rfl)
    simpa [isabs, forwardSlashes, hc] using h

/-- Turning backslashes makes no `..`. -/
theorem parent_notMem_split {k : Str} (h : ¬parent <:+: k) : parent ∉ split (forwardSlashes k) := by
  intro hmem
  obtain ⟨l, hl, heq⟩ := List.infix_map_iff.mp (infix_of_mem_split hmem)
  have hdot : ∀ c : Char, (if c = '\\' then '/' else c) = '.' → c = '.' := by
    intro c hc
    split at hc
    · exact absurd hc (by decide)
    · exact hc
  obtain ⟨a, l, rfl, ha, htail⟩ := List.map_eq_cons_iff.mp heq.symm
  obtain ⟨b, l, rfl, hb, hnil⟩ := List.map_eq_cons_iff.mp htail
  rw [List.map_eq_nil_iff.mp hnil, hdot a ha, hdot b hb] at hl
  exact h hl

theorem safeKey_of_strip {key : Str} (hstrip : strip key = key) (hne : key ≠ [])
    (habs : isabs key = false) :
    safeKey key = if parent <:+: key then .error badStorageKey else .ok (forwardSlashes key) := by
  unfold safeKey
  simp only [hstrip, hne, habs, Bool.false_eq_true, false_or]

/-- A joined path is the directory of the storage or begins with it. -/
theorem joinKey_ok {cwd root key p : Str} (h : joinKey cwd root key = .ok p) :
    ∃ k, safeKey key = .ok k ∧ p = abspath cwd (join root k) ∧
      (p = abspath cwd root ∨ abspath cwd root ++ ['/'] <+: p) := by
  unfold joinKey at h
  cases hkey : safeKey key with
  | error e =>
    rw [hkey] at h
    cases h
  | ok k =>
    rw [hkey] at h
    change (if _ then _ else _) = _ at h
    split at h
    · cases h
    · next hunder =>
      cases h
      refine ⟨k, rfl, rfl, ?_⟩
      by_cases heq : abspath cwd (join root k) = abspath cwd root
      · exact Or.inl heq
      · exact Or.inr (by_contra fun hnot => hunder ⟨hnot, heq⟩)

/-- **`_join`** answers for a relative key without `..`, unless the storage is the root of the file
system. -/
theorem joinKey_eq {cwd : Str} (hcwd : isabs cwd = true) (root : Str) {key : Str}
    (hstrip : strip key = key) (habs : isabs key = false) (hback : key.head? ≠ some '\\')
    (hplain : plain (forwardSlashes key) ≠ []) :
    joinKey cwd root key =
      if ¬parent <:+: key ∧ abspath cwd root ≠ ['/'] ∧ abspath cwd root ≠ ['/', '/'] then
        .ok (abspath cwd root ++ '/' :: ['/'].intercalate (plain (forwardSlashes key)))
      else .error badStorageKey := by
  have hne : key ≠ [] := by
    rintro rfl
    exact hplain rfl
  have hrel := isabs_forwardSlashes habs hback
  have hroot := normComps_ne_nil_iff hcwd root
  rw [joinKey, safeKey_of_strip hstrip hne habs]
  by_cases hdots : parent <:+: key
  · rw [if_pos hdots, if_neg (fun h => h.1 hdots)]
    rfl
  · have hnone := parent_notMem_split hdots
    have hbelow := below_abspath_iff (a := root) hcwd hrel hnone hplain
    rw [if_neg hdots]
    show (if _ then _ else _) = _
    by_cases hr : normComps true (absolute cwd root) = []
    · rw [if_pos ⟨fun h => hbelow.mp h hr, abspath_join_ne hcwd hrel hnone hplain⟩,
        if_neg (fun h => hroot.mpr h.2 hr)]
    · rw [if_neg (fun h => h.1 (hbelow.mpr hr)), if_pos ⟨hdots, hroot.mp hr⟩,
        abspath_join_below hcwd hrel hnone hplain hr]

end EnterpriseAssistant.Infra
