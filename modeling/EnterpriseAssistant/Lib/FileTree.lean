import Mathlib.Logic.Function.Basic
import Mathlib.Data.List.Infix
import EnterpriseAssistant.Lib.Program

/-!
# A POSIX file tree

Directories, files, and the calls that make, read and remove them.  Links, permissions and full
disks are left out; what names the system takes is a parameter.

* `makedirs_grows` — `os.makedirs` adds directories where nothing was, also when it raises
* `makedirs_dir` — it returns where no file is in the way and the system takes the names
* `clear_iff` — where no directory stands in the way of a file, reading finds the file or nothing
-/

namespace FileTree

open Program

inductive Node (D : Type) where
  | dir
  | file (data : D)
deriving DecidableEq, Repr

/-- The exceptions of the calls.  `badName` is a name or a path that the system does not take. -/
inductive OsError where
  | fileNotFound
  | notADirectory
  | isADirectory
  | fileExists
  | badName
deriving DecidableEq, Repr

/-- The names on the way from the root, the last one first. -/
abbrev Place (N : Type) := List N

/-- A tree of directories and files: what is not in a directory is not there. -/
structure Tree (N D : Type) where
  node : Place N → Option (Node D)
  root_dir : node [] = some .dir
  parent_dir : ∀ n up, node (n :: up) ≠ none → node up = some .dir

/-- The whole paths and the single names that the system takes. -/
structure Limits (N : Type) where
  place : Place N → Bool
  name : N → Bool

variable {N D : Type} (L : Limits N)

/-- The system takes the path, those of the directories on the way to it, and all their names. -/
def Limits.Takes (p : Place N) : Prop :=
  (∀ q ∈ p.tails, L.place q = true) ∧ ∀ n ∈ p, L.name n = true

instance (p : Place N) : Decidable (L.Takes p) := inferInstanceAs (Decidable (_ ∧ _))

theorem Limits.Takes.of_suffix {L : Limits N} {p q : Place N} (h : L.Takes p) (hq : q <:+ p) :
    L.Takes q :=
  ⟨fun r hr => h.1 r ((List.mem_tails _ _).mpr (((List.mem_tails _ _).mp hr).trans hq)),
    fun n hn => h.2 n (hq.subset hn)⟩

namespace Tree

variable {L} {t t' : Tree N D} {p q : Place N}

@[ext] theorem ext_node (h : t.node = t'.node) : t = t' := by
  cases t
  cases t'
  cases h
  rfl

/-- Another file or nothing, in a directory. -/
def set [DecidableEq N] (t : Tree N D) (p : Place N) (x : Option (Node D))
    (hp : t.node p ≠ some .dir) (hup : t.node p.tail = some .dir) : Tree N D where
  node := Function.update t.node p x
  root_dir := by
    have hne : [] ≠ p := fun heq => hp (heq ▸ t.root_dir)
    rw [Function.update_of_ne hne, t.root_dir]
  parent_dir := by
    intro n up hn
    have hup' : t.node up = some .dir := by
      by_cases heq : n :: up = p
      · rw [← heq] at hup
        exact hup
      · rw [Function.update_of_ne heq] at hn
        exact t.parent_dir n up hn
    have hne : up ≠ p := fun heq => hp (heq ▸ hup')
    rw [Function.update_of_ne hne, hup']

@[simp] theorem set_node [DecidableEq N] (x : Option (Node D)) (hp : t.node p ≠ some .dir)
    (hup : t.node p.tail = some .dir) : (t.set p x hp hup).node = Function.update t.node p x := rfl

theorem dir_of_suffix (hq : t.node q = some .dir) (h : p <:+ q) : t.node p = some .dir := by
  induction q with
  | nil =>
    rw [List.suffix_nil.mp h]
    exact t.root_dir
  | cons n up ih =>
    rcases List.suffix_cons_iff.mp h with rfl | h
    · exact hq
    · exact ih (t.parent_dir n up (by simp [hq])) h

/-! ## The walk -/

variable (L) in
/-- The walk to a place: what stands there. -/
def look (t : Tree N D) : Place N → Except OsError (Option (Node D))
  | [] => .ok (some .dir)
  | n :: up =>
    match t.look up with
    | .error e => .error e
    | .ok none => .error .fileNotFound
    | .ok (some (.file _)) => .error .notADirectory
    | .ok (some .dir) => if L.name n then .ok (t.node (n :: up)) else .error .badName

variable (L) in
/-- A path that is too long is refused before the walk. -/
def resolve (t : Tree N D) (p : Place N) : Except OsError (Option (Node D)) :=
  if L.place p then t.look L p else .error .badName

theorem resolve_eq (htakes : L.Takes p) : t.resolve L p = t.look L p :=
  if_pos (htakes.1 p ((List.mem_tails _ _).mpr List.suffix_rfl))

theorem look_ok {x : Option (Node D)} (h : t.look L p = .ok x) :
    t.node p = x ∧ t.node p.tail = some .dir := by
  induction p generalizing x with
  | nil =>
    cases h
    exact ⟨t.root_dir, t.root_dir⟩
  | cons n up ih =>
    rw [look] at h
    split at h
    · cases h
    · cases h
    · cases h
    · next hup =>
      split at h
      · cases h
        exact ⟨rfl, (ih hup).1⟩
      · cases h

theorem resolve_ok {x : Option (Node D)} (h : t.resolve L p = .ok x) :
    t.node p = x ∧ t.node p.tail = some .dir := by
  unfold resolve at h
  split at h
  · exact look_ok h
  · cases h

/-- On the way to a place that is not there nothing else stands either. -/
theorem node_of_look_fileNotFound (h : t.look L p = .error .fileNotFound) : t.node p = none := by
  induction p with
  | nil => cases h
  | cons n up ih =>
    have hup : t.node up ≠ some .dir := by
      rw [look] at h
      split at h
      · next e he =>
        cases h
        simp [ih he]
      · next hnone =>
        simp [(look_ok hnone).1]
      · cases h
      · split at h <;> cases h
    by_contra hn
    exact hup (t.parent_dir n up hn)

theorem node_of_resolve_fileNotFound (h : t.resolve L p = .error .fileNotFound) :
    t.node p = none := by
  unfold resolve at h
  split at h
  · exact node_of_look_fileNotFound h
  · cases h

/-! ## The calls that only read -/

variable (L) in
/-- `os.path.exists`: whatever the error, `False`. -/
def pathExists (t : Tree N D) (p : Place N) : Bool :=
  match t.resolve L p with
  | .ok (some _) => true
  | _ => false

variable (L) in
/-- `os.path.isdir`. -/
def isdir (t : Tree N D) (p : Place N) : Bool :=
  match t.resolve L p with
  | .ok (some .dir) => true
  | _ => false

variable (L) in
/-- `open(p, "rb").read()`. -/
def readFile (t : Tree N D) (p : Place N) : Except OsError D :=
  match t.resolve L p with
  | .error e => .error e
  | .ok none => .error .fileNotFound
  | .ok (some .dir) => .error .isADirectory
  | .ok (some (.file data)) => .ok data

theorem readFile_ok_iff {data : D} :
    t.readFile L p = .ok data ↔ t.resolve L p = .ok (some (.file data)) := by
  unfold readFile
  split
  · next h => simp [h]
  · next h => simp [h]
  · next h => simp [h]
  · next h => simp [h]

/-! ## Places that a file can take -/

variable (L) in
/-- No file stands on the way, and the system takes the names that the walk meets. -/
def Passable (t : Tree N D) (p : Place N) : Prop :=
  ∀ n up, n :: up <:+ p →
    (∀ data, t.node up ≠ some (.file data)) ∧ (t.node up = some .dir → L.name n = true)

variable (L) in
/-- The place of a file, or one where a file can be put. -/
structure Clear (t : Tree N D) (p : Place N) : Prop where
  taken : L.place p = true
  passable : t.Passable L p
  notDir : t.node p ≠ some .dir

theorem passable_cons {n : N} {up : Place N} : t.Passable L (n :: up) ↔ t.Passable L up ∧
    (∀ data, t.node up ≠ some (.file data)) ∧ (t.node up = some .dir → L.name n = true) := by
  constructor
  · intro h
    exact ⟨fun m q hq => h m q (hq.trans (List.suffix_cons n up)), h n up List.suffix_rfl⟩
  · rintro ⟨hup, hn⟩ m q hq
    rcases List.suffix_cons_iff.mp hq with heq | hq
    · cases heq
      exact hn
    · exact hup m q hq

theorem passable_iff :
    t.Passable L p ↔ (∃ x, t.look L p = .ok x) ∨ t.look L p = .error .fileNotFound := by
  induction p with
  | nil =>
    refine ⟨fun _ => Or.inl ⟨_, rfl⟩, fun _ n up hq => ?_⟩
    exact absurd (List.suffix_nil.mp hq) (by simp)
  | cons n up ih =>
    rw [passable_cons, ih, look]
    cases hup : t.look L up with
    | error e =>
      have hnone : e = .fileNotFound → t.node up = none := fun he =>
        node_of_look_fileNotFound (he ▸ hup)
      constructor
      · rintro ⟨⟨_, hx⟩ | he, -⟩
        · cases hx
        · exact Or.inr he
      · rintro (⟨_, hx⟩ | he)
        · cases hx
        · have hn := hnone (Except.error.inj he)
          exact ⟨Or.inr he, by simp [hn]⟩
    | ok x =>
      have hx := (look_ok hup).1
      rcases x with _ | _ | data
      · simp [hx]
      · cases hname : L.name n <;> simp [hx]
      · simp [hx]

theorem Passable.no_file (h : t.Passable L p) (hq : q <:+ p.tail) (data : D) :
    t.node q ≠ some (.file data) := by
  induction p with
  | nil =>
    rw [List.suffix_nil.mp hq, t.root_dir]
    simp
  | cons n up ih =>
    obtain ⟨hpass, hfile, -⟩ := passable_cons.mp h
    cases up with
    | nil =>
      rw [List.suffix_nil.mp hq]
      exact hfile data
    | cons m rest =>
      rcases List.suffix_cons_iff.mp hq with rfl | hq
      · exact hfile data
      · exact ih hpass hq

/-- What a walk to a clear place comes upon. -/
theorem clear_iff : t.Clear L p ↔ t.resolve L p = .ok none ∨
    t.resolve L p = .error .fileNotFound ∨ ∃ data, t.resolve L p = .ok (some (.file data)) := by
  constructor
  · rintro ⟨htaken, hpass, hdir⟩
    rw [resolve, if_pos htaken]
    rcases passable_iff.mp hpass with ⟨x, hx⟩ | hmissing
    · rw [(look_ok hx).1] at hdir
      rcases x with _ | _ | data
      · exact Or.inl hx
      · exact absurd rfl hdir
      · exact Or.inr (Or.inr ⟨data, hx⟩)
    · exact Or.inr (Or.inl hmissing)
  · intro h
    have htaken : L.place p = true := by
      by_contra hnot
      rw [resolve, if_neg hnot] at h
      simp at h
    rw [resolve, if_pos htaken] at h
    rcases h with hnone | hmissing | ⟨data, hfile⟩
    · exact ⟨htaken, passable_iff.mpr (Or.inl ⟨_, hnone⟩), by simp [(look_ok hnone).1]⟩
    · exact ⟨htaken, passable_iff.mpr (Or.inr hmissing), by
        simp [node_of_look_fileNotFound hmissing]⟩
    · exact ⟨htaken, passable_iff.mpr (Or.inl ⟨_, hfile⟩), by rw [(look_ok hfile).1]; simp⟩

/-- Below directories only, the walk ends at what stands there. -/
theorem look_eq (hnames : ∀ n ∈ p, L.name n = true) (hup : t.node p.tail = some .dir) :
    t.look L p = .ok (t.node p) := by
  induction p with
  | nil =>
    rw [t.root_dir]
    rfl
  | cons n up ih =>
    have hrest := ih (fun m hm => hnames m (List.mem_cons_of_mem n hm))
      (dir_of_suffix hup (List.tail_suffix up))
    simp only [List.tail_cons] at hup
    rw [look, hrest, hup]
    exact if_pos (hnames n List.mem_cons_self)

theorem resolve_there (htakes : L.Takes p) (h : t.node p ≠ none) :
    t.resolve L p = .ok (t.node p) := by
  refine (resolve_eq htakes).trans (look_eq htakes.2 ?_)
  cases p with
  | nil => exact t.root_dir
  | cons n up => exact t.parent_dir n up h

/-- The same nodes, and directories where nothing was on the way to `p`. -/
def Grows (p : Place N) (t t' : Tree N D) : Prop :=
  ∀ q, t'.node q = t.node q ∨ t.node q = none ∧ t'.node q = some .dir ∧ q <:+ p

theorem Grows.file_iff (h : Grows p t t') {data : D} :
    t'.node q = some (.file data) ↔ t.node q = some (.file data) := by
  rcases h q with heq | ⟨hnone, hdir, -⟩
  · rw [heq]
  · rw [hnone, hdir]
    simp

theorem Grows.dir (h : Grows p t t') (hq : t.node q = some .dir) : t'.node q = some .dir := by
  rcases h q with heq | ⟨-, hdir, -⟩
  · rw [heq, hq]
  · exact hdir

theorem Clear.resolve_file_iff (h : t.Clear L p) {data : D} :
    t.resolve L p = .ok (some (.file data)) ↔ t.node p = some (.file data) := by
  refine ⟨fun hfile => (resolve_ok hfile).1, fun hnode => ?_⟩
  rcases clear_iff.mp h with hnone | hmissing | ⟨other, hfile⟩
  · rw [(resolve_ok hnone).1] at hnode
    cases hnode
  · rw [node_of_resolve_fileNotFound hmissing] at hnode
    cases hnode
  · rw [(resolve_ok hfile).1] at hnode
    rw [hfile, hnode]

theorem Clear.pathExists_iff (h : t.Clear L p) :
    t.pathExists L p = true ↔ ∃ data, t.resolve L p = .ok (some (.file data)) := by
  unfold pathExists
  rcases clear_iff.mp h with hnone | hmissing | ⟨data, hfile⟩
  · simp [hnone]
  · simp [hmissing]
  · simp [hfile]

end Tree

/-! ## The calls that change the tree -/

section Changes

open Prog

variable [DecidableEq N]

/-- `os.mkdir`. -/
def mkdir (p : Place N) : Prog (Tree N D) OsError Unit := fun t =>
  match h : t.resolve L p with
  | .error e => (.error e, t)
  | .ok (some _) => (.error .fileExists, t)
  | .ok none =>
    (.ok (), t.set p (some .dir) (by simp [(Tree.resolve_ok h).1]) (Tree.resolve_ok h).2)

/-- `os.makedirs` with `exist_ok`. -/
def makedirs : Place N → Prog (Tree N D) OsError Unit
  | [] => tryExcept (mkdir L []) fun e t => if t.isdir L [] then (.ok (), t) else (.error e, t)
  | n :: up => do
    fun t =>
      if t.pathExists L up then (.ok (), t)
      else tryExcept (makedirs up) (fun e => if e = .fileExists then pure () else raise e) t
    tryExcept (mkdir L (n :: up)) fun e t =>
      if t.isdir L (n :: up) then (.ok (), t) else (.error e, t)

/-- `open(p, "wb").write(data)`: the file is made or emptied. -/
def writeFile (p : Place N) (data : D) : Prog (Tree N D) OsError Unit := fun t =>
  match h : t.resolve L p with
  | .error e => (.error e, t)
  | .ok (some .dir) => (.error .isADirectory, t)
  | .ok (some (.file _)) =>
    (.ok (), t.set p (some (.file data)) (by simp [(Tree.resolve_ok h).1])
      (Tree.resolve_ok h).2)
  | .ok none =>
    (.ok (), t.set p (some (.file data)) (by simp [(Tree.resolve_ok h).1])
      (Tree.resolve_ok h).2)

/-- `os.remove`. -/
def remove (p : Place N) : Prog (Tree N D) OsError Unit := fun t =>
  match h : t.resolve L p with
  | .error e => (.error e, t)
  | .ok none => (.error .fileNotFound, t)
  | .ok (some .dir) => (.error .isADirectory, t)
  | .ok (some (.file _)) =>
    (.ok (), t.set p none (by simp [(Tree.resolve_ok h).1]) (Tree.resolve_ok h).2)

variable {L} {t t' : Tree N D} {p : Place N}

theorem writeFile_ok {data : D} (h : writeFile L p data t = (.ok (), t')) :
    t.node p ≠ some .dir ∧ t'.node = Function.update t.node p (some (.file data)) := by
  unfold writeFile at h
  split at h
  · cases h
  · cases h
  · next hfile =>
    cases h
    exact ⟨by simp [(Tree.resolve_ok hfile).1], rfl⟩
  · next hnone =>
    cases h
    exact ⟨by simp [(Tree.resolve_ok hnone).1], rfl⟩

theorem writeFile_error {data : D} {e : OsError} (h : writeFile L p data t = (.error e, t')) :
    t' = t := by
  unfold writeFile at h
  split at h <;> cases h <;> rfl

theorem remove_ok (h : remove L p t = (.ok (), t')) :
    t.node p ≠ some .dir ∧ t'.node = Function.update t.node p none := by
  unfold remove at h
  split at h
  · cases h
  · cases h
  · cases h
  · next hfile =>
    cases h
    exact ⟨by simp [(Tree.resolve_ok hfile).1], rfl⟩

theorem remove_error {e : OsError} (h : remove L p t = (.error e, t')) : t' = t := by
  unfold remove at h
  split at h <;> cases h <;> rfl

theorem remove_fst (t : Tree N D) (p : Place N) : (remove L p t).1 =
    match t.resolve L p with
    | .error e => .error e
    | .ok none => .error .fileNotFound
    | .ok (some .dir) => .error .isADirectory
    | .ok (some (.file _)) => .ok () := by
  unfold remove
  split <;> next h => simp [h]

theorem node_of_remove_fileNotFound (h : remove L p t = (.error .fileNotFound, t')) :
    t.node p = none := by
  have hfst := remove_fst (L := L) t p
  rw [h] at hfst
  split at hfst
  · next he =>
    cases hfst
    exact Tree.node_of_resolve_fileNotFound he
  · next hnone => exact (Tree.resolve_ok hnone).1
  · cases hfst
  · cases hfst

/-! ### Directories are only added -/

theorem keeps_grows_mkdir {a : Place N} (hp : p <:+ a) :
    Keeps (Tree.Grows a t) (mkdir L p) := by
  intro s hs
  unfold mkdir
  split
  · exact hs
  · exact hs
  · next h =>
    intro q
    by_cases heq : q = p
    · have hnone : s.node q = none := heq ▸ (Tree.resolve_ok h).1
      refine Or.inr ⟨?_, by simp [heq], heq ▸ hp⟩
      rcases hs q with hsame | ⟨hq, -⟩
      · rw [← hsame, hnone]
      · exact hq
    · simpa [heq] using hs q

theorem keeps_grows_makedirs {a : Place N} (hp : p <:+ a) :
    Keeps (Tree.Grows a t) (makedirs L p) := by
  -- what stands there already only decides what is raised
  have hlast : ∀ q, q <:+ a → Keeps (Tree.Grows a t) (tryExcept (mkdir L q) fun e s =>
      if s.isdir L q then (.ok (), s) else (.error e, s)) := by
    refine fun q hq => (keeps_grows_mkdir hq).tryExcept fun e s hs => ?_
    split <;> exact hs
  induction p with
  | nil => exact hlast [] hp
  | cons n up ih =>
    refine Keeps.bind (fun s hs => ?_) fun _ => hlast (n :: up) hp
    split
    · exact hs
    · refine (ih ((List.suffix_cons n up).trans hp)).tryExcept (fun e => ?_) s hs
      split
      · exact keeps_pure ()
      · exact keeps_raise e

/-- **`os.makedirs`** leaves every file as it was, also when it raises. -/
theorem makedirs_grows (p : Place N) (t : Tree N D) : t.Grows p (makedirs L p t).2 :=
  keeps_grows_makedirs List.suffix_rfl t fun _ => Or.inl rfl

/-! ### A way to a file -/

theorem mkdir_there {x : Node D} (h : t.resolve L p = .ok (some x)) :
    mkdir L p t = (.error .fileExists, t) := by
  unfold mkdir
  split
  · next he => cases h.symm.trans he
  · rfl
  · next hnone => cases h.symm.trans hnone

theorem mkdir_new (h : t.resolve L p = .ok none) :
    ∃ t', mkdir L p t = (.ok (), t') ∧ t'.node p = some .dir := by
  unfold mkdir
  split
  · next he => cases h.symm.trans he
  · next hsome => cases h.symm.trans hsome
  · exact ⟨_, rfl, by simp⟩

/-- Where no file is in the way, there is a directory afterwards. -/
theorem mkdir_dir (htakes : L.Takes p) (hup : t.node p.tail = some .dir)
    (hfile : ∀ data, t.node p ≠ some (.file data)) :
    ∃ t', (tryExcept (mkdir L p) fun e t => if t.isdir L p then (.ok (), t) else (.error e, t)) t
      = (.ok (), t') ∧ t'.node p = some .dir := by
  have hresolve : t.resolve L p = .ok (t.node p) :=
    (Tree.resolve_eq htakes).trans (Tree.look_eq htakes.2 hup)
  unfold tryExcept
  rcases hnode : t.node p with _ | _ | data
  · obtain ⟨t', hrun, hdir⟩ := mkdir_new (hresolve.trans (congrArg Except.ok hnode))
    rw [hrun]
    exact ⟨t', rfl, hdir⟩
  · rw [hnode] at hresolve
    rw [mkdir_there hresolve]
    exact ⟨t, if_pos (by rw [Tree.isdir, hresolve]), hnode⟩
  · exact absurd hnode (hfile data)

/-- What `os.makedirs` does behind the directories on the way. -/
theorem makedirs_cons {n : N} {up : Place N} {t₁ : Tree N D}
    (h : (if t.pathExists L up = true then (Except.ok (), t)
      else tryExcept (makedirs L up) (fun e => if e = .fileExists then pure () else raise e) t)
        = (.ok (), t₁)) :
    makedirs L (n :: up) t = (tryExcept (mkdir L (n :: up)) fun e t =>
      if t.isdir L (n :: up) then (.ok (), t) else (.error e, t)) t₁ := by
  rw [makedirs]
  exact bind_ok h _

theorem makedirs_dir (htakes : L.Takes p)
    (hfiles : ∀ q, q <:+ p → ∀ data, t.node q ≠ some (.file data)) :
    ∃ t', makedirs L p t = (.ok (), t') ∧ t'.node p = some .dir := by
  induction p with
  | nil => exact mkdir_dir htakes t.root_dir (hfiles [] List.suffix_rfl)
  | cons n up ih =>
    have hup : up <:+ n :: up := List.suffix_cons n up
    have hrest : ∃ t₁ : Tree N D, t.Grows up t₁ ∧ t₁.node up = some .dir ∧
        makedirs L (n :: up) t = (tryExcept (mkdir L (n :: up)) fun e t =>
          if t.isdir L (n :: up) then (.ok (), t) else (.error e, t)) t₁ := by
      by_cases hexists : t.pathExists L up = true
      · refine ⟨t, fun _ => Or.inl rfl, ?_, makedirs_cons (if_pos hexists)⟩
        unfold Tree.pathExists at hexists
        split at hexists
        · next x hx =>
          have hnode := (Tree.resolve_ok hx).1
          cases x with
          | dir => exact hnode
          | file data => exact absurd hnode (hfiles up hup data)
        · cases hexists
      · obtain ⟨t₁, hrun, hdir⟩ := ih (htakes.of_suffix hup) fun q hq => hfiles q (hq.trans hup)
        have hgrows := makedirs_grows (L := L) up t
        rw [hrun] at hgrows
        refine ⟨t₁, hgrows, hdir, makedirs_cons ((if_neg hexists).trans ?_)⟩
        rw [tryExcept, hrun]
    obtain ⟨t₁, hgrows, hdir, heq⟩ := hrest
    rw [heq]
    exact mkdir_dir htakes hdir fun data hfile =>
      hfiles _ List.suffix_rfl data (hgrows.file_iff.mp hfile)

theorem writeFile_returns (htakes : L.Takes p) (hup : t.node p.tail = some .dir)
    (hdir : t.node p ≠ some .dir) (data : D) : ∃ t', writeFile L p data t = (.ok (), t') := by
  have hresolve : t.resolve L p = .ok (t.node p) :=
    (Tree.resolve_eq htakes).trans (Tree.look_eq htakes.2 hup)
  unfold writeFile
  split
  · next he => cases hresolve.symm.trans he
  · next hx => exact absurd (Except.ok.inj (hresolve.symm.trans hx)) hdir
  · exact ⟨_, rfl⟩
  · exact ⟨_, rfl⟩

end Changes

end FileTree
