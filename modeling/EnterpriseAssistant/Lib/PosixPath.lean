import Mathlib.Data.List.Infix
import EnterpriseAssistant.Lib.PyStr

/-!
# POSIX paths

`os.path.join`, `os.path.normpath` and `os.path.abspath` of the Python library, on POSIX.

A normalised absolute path is one slash (or two) and its components.

* `abspath_join` — a relative path without `..` adds its components to those of the directory
* `below_abspath_iff` — so it ends up below the directory, unless that is the root of the file system
-/

namespace Posix

open Py

def isabs (p : Str) : Bool := p.head? == some '/'

/-- `os.path.join` of two paths. -/
def join (a b : Str) : Str :=
  if isabs b then b
  else if a = [] ∨ a.getLast? = some '/' then a ++ b
  else a ++ '/' :: b

/-- The components between the slashes. -/
def split (p : Str) : List Str := p.splitOn '/'

/-- Neither empty nor a dot. -/
def counts (comp : Str) : Bool := comp != [] && comp != ['.']

def parent : Str := ['.', '.']

/-- One turn of the loop of `normpath`: the components so far, and the next one. -/
def normStep (rooted : Bool) (done : List Str) (comp : Str) : List Str :=
  if !counts comp then done
  else if comp ≠ parent ∨ (!rooted ∧ done = []) ∨ done.getLast? = some parent then done ++ [comp]
  else done.dropLast

def normComps (rooted : Bool) (p : Str) : List Str := (split p).foldl (normStep rooted) []

/-- The slashes at the front. -/
def leading (p : Str) : Str := p.takeWhile fun c => c == '/'

/-- Two slashes at the front are kept, three or more count as one. -/
def slashes (p : Str) : Str :=
  match (leading p).length with
  | 0 => []
  | 2 => ['/', '/']
  | _ => ['/']

def normpath (p : Str) : Str :=
  if p = [] then ['.']
  else
    let q := slashes p ++ ['/'].intercalate (normComps (isabs p) p)
    if q = [] then ['.'] else q

/-- A relative path is taken from the working directory. -/
def absolute (cwd p : Str) : Str := if isabs p then p else join cwd p

/-- `os.path.abspath`, in the working directory `cwd`. -/
def abspath (cwd p : Str) : Str := normpath (absolute cwd p)

/-- `os.path.dirname`: what stands in front of the last slash, without the slashes at its end. -/
def dirname (p : Str) : Str :=
  let head := (p.reverse.dropWhile fun c => c != '/').reverse
  if head ≠ [] ∧ head.any (fun c => c != '/') then
    (head.reverse.dropWhile fun c => c == '/').reverse
  else head

/-- `p` lies strictly below the directory `d`. -/
def Below (d p : Str) : Prop := ∃ rest, rest ≠ [] ∧ p = d ++ '/' :: rest

/-- `p` is `q`, or a directory on the way to it. -/
def PathPrefix (p q : Str) : Prop := p = q ∨ Below p q

/-! ## Components -/

theorem split_append (a b : Str) : split (a ++ '/' :: b) = split a ++ split b :=
  List.splitOn_append_cons_self a b

theorem split_intercalate {comps : List Str} (h : ∀ c ∈ comps, '/' ∉ c) (hne : comps ≠ []) :
    split (['/'].intercalate comps) = comps :=
  List.splitOn_intercalate '/' h hne

theorem slash_notMem_of_mem_split {p c : Str} (hc : c ∈ split p) : '/' ∉ c :=
  (mem_splitOn_iff.mp hc).1

/-- A component is a piece of the path. -/
theorem infix_of_mem_split {p c : Str} (hc : c ∈ split p) : c <:+: p := by
  obtain ⟨-, a, b, rfl, -, -⟩ := mem_splitOn_iff.mp hc
  exact ⟨a, b, List.append_assoc a c b⟩

/-- A path prefix is a prefix of the components. -/
theorem PathPrefix.split_prefix {p q : Str} (h : PathPrefix p q) : split p <+: split q := by
  rcases h with rfl | ⟨rest, -, rfl⟩
  · exact List.prefix_rfl
  · rw [split_append]
    exact List.prefix_append _ _

/-! ## Joining a path without `..` -/

/-- The components that stay. -/
def plain (p : Str) : List Str := (split p).filter counts

theorem plain_append (a b : Str) : plain (a ++ '/' :: b) = plain a ++ plain b := by
  rw [plain, split_append, List.filter_append, plain, plain]

theorem plain_intercalate {comps : List Str} (h : ∀ c ∈ comps, '/' ∉ c ∧ counts c = true) :
    plain (['/'].intercalate comps) = comps := by
  by_cases hne : comps = []
  · rw [hne]
    rfl
  · rw [plain, split_intercalate (fun c hc => (h c hc).1) hne,
      List.filter_eq_self.mpr fun c hc => (h c hc).2]

theorem foldl_normStep {rooted : Bool} {comps : List Str} (h : parent ∉ comps) (done : List Str) :
    comps.foldl (normStep rooted) done = done ++ comps.filter counts := by
  induction comps generalizing done with
  | nil => simp
  | cons c comps ih =>
    obtain ⟨hc, hcs⟩ := not_or.mp (fun hor => h (List.mem_cons.mpr hor))
    rw [List.foldl_cons, ih hcs]
    by_cases hcount : counts c = true
    · rw [normStep, if_neg (by simp [hcount]), if_pos (Or.inl (Ne.symm hc)),
        List.filter_cons_of_pos hcount, List.append_assoc, List.singleton_append]
    · rw [normStep, if_pos (by simpa using hcount), List.filter_cons_of_neg hcount]

theorem normComps_append (rooted : Bool) (a b : Str) :
    normComps rooted (a ++ '/' :: b) = (split b).foldl (normStep rooted) (normComps rooted a) := by
  rw [normComps, split_append, List.foldl_append, normComps]

/-- A slash at the end adds nothing. -/
theorem normComps_slash (rooted : Bool) (a : Str) : normComps rooted (a ++ ['/']) = normComps rooted a := by
  rw [normComps_append]
  rfl

theorem normComps_join {rooted : Bool} {a b : Str} (ha : a ≠ []) (hb : isabs b = false)
    (hnone : parent ∉ split b) : normComps rooted (join a b) = normComps rooted a ++ plain b := by
  rw [join, if_neg (by simp [hb])]
  split
  · next h =>
    have hlast := h.resolve_left ha
    obtain ⟨front, rfl⟩ : ∃ front, a = front ++ ['/'] := List.getLast?_eq_some_iff.mp hlast
    rw [List.append_assoc, List.singleton_append, normComps_append, foldl_normStep hnone,
      normComps_slash, plain]
  · rw [normComps_append, foldl_normStep hnone, plain]

theorem exists_cons_of_isabs {p : Str} (h : isabs p = true) : ∃ rest, p = '/' :: rest := by
  cases p with
  | nil => cases h
  | cons x rest => exact ⟨rest, by rw [show x = '/' by simpa [isabs] using h]⟩

theorem slashes_ne_nil {p : Str} (h : isabs p = true) : slashes p ≠ [] := by
  obtain ⟨rest, rfl⟩ := exists_cons_of_isabs h
  unfold slashes
  split
  · next hlen => simp [leading] at hlen
  · exact List.cons_ne_nil _ _
  · exact List.cons_ne_nil _ _

theorem leading_join {a b : Str} (ha : a ≠ []) (hb : isabs b = false) :
    leading (join a b) = leading a := by
  have hnone : leading b = [] := by
    cases b with
    | nil => rfl
    | cons x b =>
      have hx : (x == '/') = false := by simpa [isabs] using hb
      rw [leading, List.takeWhile_cons, hx]
      rfl
  rw [join, if_neg (by simp [hb])]
  split
  · rw [leading, List.takeWhile_append]
    split
    · next hall =>
      show a ++ leading b = leading a
      rw [hnone, List.append_nil]
      exact ((List.takeWhile_prefix _).eq_of_length hall).symm
    · rfl
  · next hend =>
    rw [leading, List.takeWhile_append, if_neg]
    · rfl
    · -- a path of slashes alone ends with one
      intro hall
      have heq := (List.takeWhile_prefix _).eq_of_length hall
      have hlast := List.takeWhile_eq_self_iff.mp heq _ (List.getLast_mem ha)
      exact hend (Or.inr (by rw [List.getLast?_eq_some_getLast ha, beq_iff_eq.mp hlast]))

/-- **Joining** a relative path without `..` adds its components. -/
theorem normalize_join {a b : Str} (ha : isabs a = true) (hb : isabs b = false)
    (hnone : parent ∉ split b) :
    normpath (join a b) = slashes a ++ ['/'].intercalate (normComps true a ++ plain b) := by
  have hne : a ≠ [] := by
    rintro rfl
    cases ha
  have habs : isabs (join a b) = true := by
    obtain ⟨x, a, rfl⟩ := List.exists_cons_of_ne_nil hne
    rw [join, if_neg (by simp [hb])]
    split <;> exact ha
  have hslash : slashes a ≠ [] := slashes_ne_nil ha
  have hjoin : join a b ≠ [] := by
    intro hnil
    rw [hnil] at habs
    cases habs
  rw [normpath, if_neg hjoin, habs, normComps_join hne hb hnone, slashes, leading_join hne hb,
    ← slashes]
  exact if_neg (by simp [hslash])

/-! ## Absolute paths -/

theorem isabs_append {a : Str} (h : isabs a = true) (b : Str) : isabs (a ++ b) = true := by
  obtain ⟨rest, rfl⟩ := exists_cons_of_isabs h
  rfl

theorem isabs_join {a : Str} (h : isabs a = true) (b : Str) : isabs (join a b) = true := by
  unfold join
  split
  · assumption
  · split
    · exact isabs_append h _
    · exact isabs_append h _

theorem isabs_absolute {cwd : Str} (h : isabs cwd = true) (p : Str) :
    isabs (absolute cwd p) = true := by
  unfold absolute
  split
  · assumption
  · exact isabs_join h p

/-- A directory with its slash. -/
def asDir (a : Str) : Str := if a = [] ∨ a.getLast? = some '/' then a else a ++ ['/']

theorem join_relative {b : Str} (hb : isabs b = false) (a : Str) : join a b = asDir a ++ b := by
  rw [join, if_neg (by simp [hb]), asDir]
  split <;> simp

theorem asDir_append (a b : Str) : asDir (asDir a ++ b) = asDir a ++ asDir b := by
  cases b with
  | nil =>
    rw [List.append_nil, show asDir [] = [] by simp [asDir], List.append_nil]
    conv_lhs => rw [asDir]
    refine if_pos ?_
    unfold asDir
    split
    · assumption
    · simp
  | cons x b =>
    have hlast : (asDir a ++ x :: b).getLast? = (x :: b).getLast? := by
      rw [List.getLast?_append]
      simp [List.getLast?_cons]
    rw [asDir, asDir.eq_def (x :: b), hlast]
    simp only [List.append_eq_nil_iff, reduceCtorEq, and_false, false_or]
    split <;> simp

theorem isabs_join_relative {a b : Str} (ha : isabs a = false) (hb : isabs b = false) :
    isabs (join a b) = false := by
  rw [join_relative hb]
  cases a with
  | nil => exact hb
  | cons x a =>
    unfold asDir
    split <;> exact ha

theorem join_assoc {cwd a b : Str} (ha : isabs a = false) (hb : isabs b = false) :
    join cwd (join a b) = join (join cwd a) b := by
  rw [join_relative (isabs_join_relative ha hb), join_relative hb, join_relative hb,
    join_relative ha, asDir_append, List.append_assoc]

theorem absolute_join {cwd a b : Str} (hb : isabs b = false) :
    absolute cwd (join a b) = join (absolute cwd a) b := by
  unfold absolute
  cases habs : isabs a with
  | true =>
    rw [if_pos (isabs_join habs b)]
    rfl
  | false =>
    rw [isabs_join_relative habs hb]
    exact join_assoc habs hb

/-- The normal form of an absolute path. -/
theorem abspath_eq {cwd : Str} (hcwd : isabs cwd = true) (p : Str) :
    abspath cwd p = slashes (absolute cwd p) ++ ['/'].intercalate (normComps true (absolute cwd p)) := by
  have habs := isabs_absolute hcwd p
  obtain ⟨rest, heq⟩ := exists_cons_of_isabs habs
  rw [abspath, normpath, habs, if_neg (by rw [heq]; exact List.cons_ne_nil _ _)]
  exact if_neg (by simp [slashes_ne_nil habs])

/-- **Joining** a relative path without `..` adds its components. -/
theorem abspath_join {cwd a b : Str} (hcwd : isabs cwd = true) (hb : isabs b = false)
    (hnone : parent ∉ split b) :
    abspath cwd (join a b)
      = slashes (absolute cwd a) ++ ['/'].intercalate (normComps true (absolute cwd a) ++ plain b) := by
  rw [abspath, absolute_join hb,
    normalize_join (isabs_absolute hcwd a) hb hnone]

/-! ## Below a directory -/

theorem counts_of_mem_normComps {rooted : Bool} {p c : Str} (h : c ∈ normComps rooted p) :
    '/' ∉ c ∧ counts c = true := by
  have hfold : ∀ (comps done : List Str), (∀ d ∈ comps, '/' ∉ d) →
      (∀ d ∈ done, '/' ∉ d ∧ counts d = true) →
      ∀ d ∈ comps.foldl (normStep rooted) done, '/' ∉ d ∧ counts d = true := by
    intro comps
    induction comps with
    | nil => exact fun done _ hdone => hdone
    | cons e comps ih =>
      intro done hcomps hdone
      refine ih _ (fun d hd => hcomps d (List.mem_cons_of_mem _ hd)) fun d hd => ?_
      unfold normStep at hd
      split at hd
      · exact hdone d hd
      · next hcount =>
        split at hd
        · rcases List.mem_append.mp hd with hd | hd
          · exact hdone d hd
          · rw [List.mem_singleton.mp hd]
            exact ⟨hcomps e List.mem_cons_self, by simpa using hcount⟩
        · exact hdone d (List.dropLast_subset _ hd)
  exact hfold _ [] (fun d hd => slash_notMem_of_mem_split hd) (fun d hd => nomatch hd) c h

theorem ne_nil_of_counts {c : Str} (h : counts c = true) : c ≠ [] := by
  rintro rfl
  cases h

theorem mem_normComps {rooted : Bool} {p c : Str} (h : c ∈ normComps rooted p) :
    '/' ∉ c ∧ c ≠ [] :=
  (counts_of_mem_normComps h).imp_right ne_nil_of_counts

theorem counts_of_mem_plain {p c : Str} (h : c ∈ plain p) : '/' ∉ c ∧ counts c = true :=
  (List.mem_filter.mp h).imp_left slash_notMem_of_mem_split

theorem mem_plain {p c : Str} (h : c ∈ plain p) : '/' ∉ c ∧ c ≠ [] :=
  (counts_of_mem_plain h).imp_right ne_nil_of_counts

theorem intercalate_append {as bs : List Str} (ha : as ≠ []) (hb : bs ≠ []) :
    ['/'].intercalate (as ++ bs) = ['/'].intercalate as ++ '/' :: ['/'].intercalate bs := by
  induction as with
  | nil => exact absurd rfl ha
  | cons a as ih =>
    cases as with
    | nil =>
      rw [List.singleton_append, List.intercalate_cons_of_ne_nil hb, List.intercalate_singleton]
      simp
    | cons a' as =>
      rw [List.cons_append, List.cons_append, List.intercalate_cons_cons, ← List.cons_append,
        ih (List.cons_ne_nil _ _), List.intercalate_cons_cons]
      simp

/-- The components of a normal form, behind the slashes at its front. -/
theorem split_render {s : Str} (hs : s = ['/'] ∨ s = ['/', '/']) {comps : List Str}
    (h : ∀ c ∈ comps, '/' ∉ c) (hne : comps ≠ []) :
    split (s ++ ['/'].intercalate comps) = s.map (fun _ => []) ++ comps := by
  rcases hs with rfl | rfl
  · show split ([] ++ '/' :: ['/'].intercalate comps) = _
    rw [split_append, split_intercalate h hne]
    rfl
  · show split ([] ++ '/' :: ([] ++ '/' :: ['/'].intercalate comps)) = _
    rw [split_append, split_append, split_intercalate h hne]
    rfl

theorem slashes_cases {p : Str} (h : isabs p = true) : slashes p = ['/'] ∨ slashes p = ['/', '/'] := by
  have hne := slashes_ne_nil h
  unfold slashes at hne ⊢
  split
  · next hlen => simp [hlen] at hne
  · exact Or.inr rfl
  · exact Or.inl rfl

section Below

variable {cwd a b : Str} (hcwd : isabs cwd = true) (hb : isabs b = false) (hnone : parent ∉ split b)
  (hplain : plain b ≠ [])

include hcwd hb hnone hplain

/-- What a relative path adds to a directory other than the root. -/
theorem abspath_join_below (ha : normComps true (absolute cwd a) ≠ []) :
    abspath cwd (join a b) = abspath cwd a ++ '/' :: ['/'].intercalate (plain b) := by
  rw [abspath_join hcwd hb hnone, abspath_eq hcwd, intercalate_append ha hplain, List.append_assoc]

/-- The root of the file system ends with a slash itself, so nothing begins with it and a slash. -/
theorem below_abspath_iff :
    abspath cwd a ++ ['/'] <+: abspath cwd (join a b) ↔ normComps true (absolute cwd a) ≠ [] := by
  constructor
  · intro hprefix hnil
    rw [abspath_join hcwd hb hnone, abspath_eq hcwd, hnil, List.intercalate_nil, List.append_nil,
      List.nil_append, List.prefix_append_right_inj] at hprefix
    obtain ⟨c, cs, hc⟩ := List.exists_cons_of_ne_nil hplain
    obtain ⟨hslash, hne⟩ := mem_plain (hc ▸ List.mem_cons_self : c ∈ plain b)
    obtain ⟨x, c, rfl⟩ := List.exists_cons_of_ne_nil hne
    obtain ⟨rest, hrest⟩ := hprefix
    have hx : x = '/' := by
      rw [hc] at hrest
      cases cs with
      | nil =>
        rw [List.intercalate_singleton] at hrest
        exact (List.cons.inj hrest).1.symm
      | cons d ds =>
        rw [List.intercalate_cons_cons] at hrest
        exact (List.cons.inj hrest).1.symm
    exact hslash (hx ▸ List.mem_cons_self)
  · intro ha
    rw [abspath_join_below hcwd hb hnone hplain ha]
    exact ⟨['/'].intercalate (plain b), by simp⟩

theorem abspath_join_ne : abspath cwd (join a b) ≠ abspath cwd a := by
  by_cases ha : normComps true (absolute cwd a) = []
  · rw [abspath_join hcwd hb hnone, abspath_eq hcwd, ha, List.nil_append]
    intro heq
    have hnil := List.append_cancel_left heq
    have hsplit := split_intercalate (fun c hc => (mem_plain hc).1) hplain
    rw [hnil, List.intercalate_nil] at hsplit
    exact (mem_plain (hsplit ▸ List.mem_singleton.mpr rfl : [] ∈ plain b)).2 rfl
  · rw [abspath_join_below hcwd hb hnone hplain ha]
    simp

end Below

/-- A directory that is not the root of the file system. -/
theorem normComps_ne_nil_iff {cwd : Str} (hcwd : isabs cwd = true) (p : Str) :
    normComps true (absolute cwd p) ≠ [] ↔ abspath cwd p ≠ ['/'] ∧ abspath cwd p ≠ ['/', '/'] := by
  have hcases := slashes_cases (isabs_absolute hcwd p)
  rw [abspath_eq hcwd]
  constructor
  · intro hne
    have hmem := fun c hc => @mem_normComps true (absolute cwd p) c hc
    have hrender := split_render hcases (fun c hc => (hmem c hc).1) hne
    obtain ⟨c, cs, hc⟩ := List.exists_cons_of_ne_nil hne
    have hcne := (hmem c (hc ▸ List.mem_cons_self)).2
    -- a path of slashes alone has empty components only
    have hnot : ∀ q : Str, (∀ d ∈ split q, d = []) → slashes (absolute cwd p) ++
        ['/'].intercalate (normComps true (absolute cwd p)) ≠ q := by
      rintro q hq rfl
      rw [hrender] at hq
      exact hcne (hq c (List.mem_append_right _ (hc ▸ List.mem_cons_self)))
    exact ⟨hnot _ (by decide), hnot _ (by decide)⟩
  · rintro ⟨h1, h2⟩ hnil
    rw [hnil, List.intercalate_nil, List.append_nil] at h1 h2
    rcases hcases with h | h
    · exact h1 h
    · exact h2 h

/-! ## The directory of a path -/

theorem plain_slash (a : Str) : plain (a ++ ['/']) = plain a := by
  rw [plain_append]
  exact List.append_nil _

theorem plain_reverse_dropWhile (a : Str) :
    plain (a.dropWhile fun c => c == '/').reverse = plain a.reverse := by
  induction a with
  | nil => rfl
  | cons x a ih =>
    rw [List.dropWhile_cons]
    split
    · next hx => rw [ih, List.reverse_cons, beq_iff_eq.mp hx, plain_slash]
    · rfl

theorem plain_dirname {c : Str} (hc : '/' ∉ c) (a : Str) :
    plain (dirname (a ++ '/' :: c)) = plain a := by
  have hhead : ((a ++ '/' :: c).reverse.dropWhile fun c => c != '/').reverse = a ++ ['/'] := by
    have hall : ∀ d ∈ c.reverse, (d != '/') = true := fun d hd =>
      bne_iff_ne.mpr fun heq => hc (heq ▸ List.mem_reverse.mp hd)
    rw [List.reverse_append, List.reverse_cons, List.append_assoc,
      List.dropWhile_append_of_pos hall]
    simp
  rw [dirname, hhead]
  split
  · rw [plain_reverse_dropWhile, List.reverse_reverse, plain_slash]
  · exact plain_slash a

theorem plain_render {s : Str} (hs : s = ['/'] ∨ s = ['/', '/']) {comps : List Str}
    (h : ∀ c ∈ comps, '/' ∉ c ∧ counts c = true) : plain (s ++ ['/'].intercalate comps) = comps := by
  rcases hs with rfl | rfl
  · exact (plain_append [] _).trans (plain_intercalate h)
  · exact (plain_append ['/'] _).trans (plain_intercalate h)

theorem plain_abspath {cwd : Str} (hcwd : isabs cwd = true) (p : Str) :
    plain (abspath cwd p) = normComps true (absolute cwd p) := by
  rw [abspath_eq hcwd]
  exact plain_render (slashes_cases (isabs_absolute hcwd p)) fun c hc => counts_of_mem_normComps hc

/-- The directory of a normalised path has all its components but the last one. -/
theorem plain_dirname_abspath {cwd : Str} (hcwd : isabs cwd = true) (p : Str) :
    plain (dirname (abspath cwd p)) = (plain (abspath cwd p)).dropLast := by
  have hs := slashes_cases (isabs_absolute hcwd p)
  have hmem := fun c hc => @counts_of_mem_normComps true (absolute cwd p) c hc
  rw [plain_abspath hcwd, abspath_eq hcwd]
  generalize slashes (absolute cwd p) = s at hs
  generalize normComps true (absolute cwd p) = comps at hmem
  obtain rfl | ⟨cs, c, rfl⟩ := List.eq_nil_or_concat comps
  · rcases hs with rfl | rfl <;> rfl
  · rw [List.concat_eq_append] at hmem ⊢
    have hc := (hmem c (by simp)).1
    have hcs : ∀ d ∈ cs, '/' ∉ d ∧ counts d = true := fun d hd => hmem d (by simp [hd])
    rw [List.dropLast_concat]
    by_cases hne : cs = []
    · subst hne
      rw [List.nil_append, List.intercalate_singleton]
      rcases hs with rfl | rfl
      · exact plain_dirname hc []
      · exact plain_dirname hc ['/']
    · rw [intercalate_append hne (List.cons_ne_nil c []), List.intercalate_singleton,
        ← List.append_assoc, plain_dirname hc, plain_render hs hcs]

end Posix
