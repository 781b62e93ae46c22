import EnterpriseAssistant.Authz.ScopeKeys

/-!
# Reading scope keys

`parse_scope_key` of `app/modules/authz/scope_keys.py`, against the builders.

* `parse_key` — the key of a scope parses to this scope, as long as it is not too long
* `spells_of_parse` — what an accepted text looks like
* `keys_parse_back`, `rebuilt_iff` — parsing behind building, and building behind parsing
-/

namespace EnterpriseAssistant.Authz

open Py

/-! ## The parser -/

/-- `kind` of `ParsedScope`. -/
inductive ScopeKind where
  | global
  | workspace
  | project
  | resource
deriving DecidableEq, Repr

structure ParsedScope where
  kind : ScopeKind
  workspaceId : Option Int := none
  projectId : Option Int := none
  resourceType : Option Str := none
  refId : Option Int := none
deriving DecidableEq, Repr

/-- The two kinds of `ValueError` that parsing raises. -/
inductive ScopeError where
  | badScopeKey
  /-- `int` does not read this text -/
  | invalidLiteral (v : Str)
deriving DecidableEq, Repr

/-- `_MAX_LEN` -/
def maxLen : Nat := 128

/-- `int(v)` -/
def readId (v : Str) : Except ScopeError Int :=
  match int? v with
  | some n => .ok n
  | none => .error (.invalidLiteral v)

/-- What follows the prefix of a resource key. -/
def parseResource (rest : Str) : Except ScopeError ParsedScope :=
  if ':' ∉ rest then .error .badScopeKey
  else
    let rt := strip (splitOnce ':' rest).1
    if rt = [] ∨ ':' ∈ rt then .error .badScopeKey
    else do
      let id ← readId (splitOnce ':' rest).2
      pure { kind := .resource, resourceType := some rt, refId := some id }

def parseScopeKey (scopeKey : Str) : Except ScopeError ParsedScope :=
  let sk := strip scopeKey
  if sk = [] ∨ maxLen < sk.length then .error .badScopeKey
  else if sk = globalKey then .ok { kind := .global }
  else if prefixWorkspace.isPrefixOf sk then do
    let id ← readId (sk.drop prefixWorkspace.length)
    pure { kind := .workspace, workspaceId := some id }
  else if prefixProject.isPrefixOf sk then do
    let id ← readId (sk.drop prefixProject.length)
    pure { kind := .project, projectId := some id }
  else if prefixResource.isPrefixOf sk then parseResource (sk.drop prefixResource.length)
  else .error .badScopeKey

/-- The builder of the kind, on the fields that the kind has; `TypeError` where they are `None`. -/
def rebuildKey (p : ParsedScope) : Except String Str :=
  match p.kind, p.workspaceId, p.projectId, p.resourceType, p.refId with
  | .global, _, _, _, _ => .ok scopeGlobal
  | .workspace, some n, _, _, _ => .ok (scopeWorkspace n)
  | .project, _, some n, _, _ => .ok (scopeProject n)
  | .resource, _, _, some rt, some n => scopeResource rt n
  | _, _, _, _, _ => .error "TypeError"

/-! ## Scopes as the parser answers them -/

def ScopeDescriptor.parsed : ScopeDescriptor → ParsedScope
  | .global => { kind := .global }
  | .workspace n => { kind := .workspace, workspaceId := some n }
  | .project n => { kind := .project, projectId := some n }
  | .resource t n => { kind := .resource, resourceType := some t.name, refId := some n }

theorem ScopeDescriptor.rebuild_parsed (d : ScopeDescriptor) : rebuildKey d.parsed = .ok d.key := by
  rw [← d.build_eq]
  cases d with
  | _ => rfl

theorem ScopeDescriptor.key_ne_globalKey {d : ScopeDescriptor} (hd : d ≠ .global) :
    d.key ≠ globalKey := fun h =>
  hd (ScopeDescriptor.key_injective h)

theorem readId_str (n : Int) : readId (str n) = .ok n := by
  rw [readId, int?_str]

theorem parseResource_key (t : ResourceType) (n : Int) :
    parseResource (t.name ++ ':' :: str n) = .ok (ScopeDescriptor.resource t n).parsed := by
  have hcolon : ':' ∈ t.name ++ ':' :: str n := List.mem_append_right _ List.mem_cons_self
  unfold parseResource
  rw [if_neg (not_not.mpr hcolon), splitOnce_append t.noColon]
  simp only [t.stripped, t.nonempty, t.noColon, or_self, if_false, readId_str]
  rfl

/-- **The key of a scope parses to this scope**, when it is within the bound. -/
theorem parse_key (d : ScopeDescriptor) :
    parseScopeKey d.key = if d.key.length ≤ maxLen then .ok d.parsed else .error .badScopeKey := by
  unfold parseScopeKey
  rw [d.strip_key]
  by_cases hlen : d.key.length ≤ maxLen
  · rw [if_neg (not_or.mpr ⟨d.key_ne_nil, Nat.not_lt.mpr hlen⟩), if_pos hlen]
    cases d with
    | global => rfl
    | workspace n =>
      have hne : (ScopeDescriptor.workspace n).key ≠ globalKey :=
        ScopeDescriptor.key_ne_globalKey (by simp)
      have hpre : prefixWorkspace.isPrefixOf (ScopeDescriptor.workspace n).key = true :=
        List.isPrefixOf_iff_prefix.mpr (List.prefix_append _ _)
      have hdrop : (ScopeDescriptor.workspace n).key.drop prefixWorkspace.length = str n :=
        List.drop_left
      rw [if_neg hne, if_pos hpre, hdrop, readId_str]
      rfl
    | project n =>
      have hne : (ScopeDescriptor.project n).key ≠ globalKey :=
        ScopeDescriptor.key_ne_globalKey (by simp)
      have hno : prefixWorkspace.isPrefixOf (ScopeDescriptor.project n).key = false := rfl
      have hpre : prefixProject.isPrefixOf (ScopeDescriptor.project n).key = true :=
        List.isPrefixOf_iff_prefix.mpr (List.prefix_append _ _)
      have hdrop : (ScopeDescriptor.project n).key.drop prefixProject.length = str n :=
        List.drop_left
      rw [if_neg hne, hno, if_neg Bool.false_ne_true, if_pos hpre, hdrop, readId_str]
      rfl
    | resource t n =>
      have hne : (ScopeDescriptor.resource t n).key ≠ globalKey :=
        ScopeDescriptor.key_ne_globalKey (by simp)
      have hno : prefixWorkspace.isPrefixOf (ScopeDescriptor.resource t n).key = false := rfl
      have hno' : prefixProject.isPrefixOf (ScopeDescriptor.resource t n).key = false := rfl
      have hpre : prefixResource.isPrefixOf (ScopeDescriptor.resource t n).key = true :=
        List.isPrefixOf_iff_prefix.mpr (List.prefix_append _ _)
      have hdrop : (ScopeDescriptor.resource t n).key.drop prefixResource.length
          = t.name ++ ':' :: str n := List.drop_left
      rw [if_neg hne, hno, if_neg Bool.false_ne_true, hno', if_neg Bool.false_ne_true, if_pos hpre,
        hdrop]
      exact parseResource_key t n
  · rw [if_pos (Or.inr (Nat.lt_of_not_le hlen)), if_neg hlen]

/-! ## What is accepted -/

/-- The stripped text names the scope, with whatever spelling of the id `int` reads. -/
inductive Spells : Str → ScopeDescriptor → Prop where
  | global : Spells globalKey .global
  | workspace {v : Str} {n : Int} (h : int? v = some n) :
      Spells (prefixWorkspace ++ v) (.workspace n)
  | project {v : Str} {n : Int} (h : int? v = some n) : Spells (prefixProject ++ v) (.project n)
  | resource {rt v : Str} {t : ResourceType} {n : Int} (hcolon : ':' ∉ rt) (hrt : strip rt = t.name)
      (h : int? v = some n) : Spells (prefixResource ++ (rt ++ ':' :: v)) (.resource t n)

theorem readId_bind_ok {v : Str} {f : Int → Except ScopeError ParsedScope} {p : ParsedScope}
    (h : (readId v >>= f) = .ok p) : ∃ n, int? v = some n ∧ f n = .ok p := by
  unfold readId at h
  cases hv : int? v with
  | none =>
    rw [hv] at h
    cases h
  | some n =>
    rw [hv] at h
    exact ⟨n, rfl, h⟩

theorem append_drop_of_isPrefixOf {a b : Str} (h : a.isPrefixOf b = true) :
    a ++ b.drop a.length = b := by
  obtain ⟨rest, rfl⟩ := List.isPrefixOf_iff_prefix.mp h
  rw [List.drop_left]

theorem parseResource_ok {rest : Str} {p : ParsedScope} (h : parseResource rest = .ok p) :
    ∃ d : ScopeDescriptor, p = d.parsed ∧ Spells (prefixResource ++ rest) d := by
  unfold parseResource at h
  split at h
  · cases h
  · next hcolon =>
    simp only at h
    split at h
    · cases h
    · next hrt =>
      obtain ⟨hne, hno⟩ := not_or.mp hrt
      obtain ⟨n, hn, hp⟩ := readId_bind_ok h
      cases hp
      let t : ResourceType :=
        { name := strip (splitOnce ':' rest).1, stripped := strip_strip _, nonempty := hne
          noColon := hno }
      refine ⟨.resource t n, rfl, ?_⟩
      rw [← splitOnce_join (not_not.mp hcolon)]
      exact .resource (notMem_splitOnce _ _) rfl hn

/-- **What an accepted text looks like.** -/
theorem spells_of_parse {k : Str} {p : ParsedScope} (h : parseScopeKey k = .ok p) :
    (strip k).length ≤ maxLen ∧ ∃ d : ScopeDescriptor, p = d.parsed ∧ Spells (strip k) d := by
  unfold parseScopeKey at h
  simp only at h
  split at h
  · cases h
  · next hlen =>
    refine ⟨Nat.not_lt.mp (not_or.mp hlen).2, ?_⟩
    split at h
    · next hglobal =>
      cases h
      exact ⟨.global, rfl, hglobal ▸ .global⟩
    · split at h
      · next hpre =>
        obtain ⟨n, hn, hp⟩ := readId_bind_ok h
        cases hp
        exact ⟨.workspace n, rfl, append_drop_of_isPrefixOf hpre ▸ .workspace hn⟩
      · split at h
        · next hpre =>
          obtain ⟨n, hn, hp⟩ := readId_bind_ok h
          cases hp
          exact ⟨.project n, rfl, append_drop_of_isPrefixOf hpre ▸ .project hn⟩
        · split at h
          · next hpre =>
            obtain ⟨d, hp, hd⟩ := parseResource_ok h
            rw [append_drop_of_isPrefixOf hpre] at hd
            exact ⟨d, hp, hd⟩
          · cases h

/-! ## Building and parsing -/

/--
**Scope keys parse back**, as far as they are within the bound; a longer key is refused.
-/
theorem keys_parse_back :
    (∀ n : Int, parseScopeKey (scopeWorkspace n) =
        if (scopeWorkspace n).length ≤ maxLen then
          .ok { kind := .workspace, workspaceId := some n }
        else .error .badScopeKey) ∧
      (∀ n : Int, parseScopeKey (scopeProject n) =
        if (scopeProject n).length ≤ maxLen then .ok { kind := .project, projectId := some n }
        else .error .badScopeKey) ∧
      ∀ (resourceType : Str) (n : Int) (key : Str), scopeResource resourceType n = .ok key →
        parseScopeKey key =
          if key.length ≤ maxLen then
            .ok { kind := .resource, resourceType := some (strip resourceType), refId := some n }
          else .error .badScopeKey := by
  refine ⟨fun n => parse_key (.workspace n), fun n => parse_key (.project n), ?_⟩
  intro resourceType n key hkey
  unfold scopeResource at hkey
  split at hkey
  · cases hkey
  · next hne =>
    split at hkey
    · cases hkey
    · next hno =>
      cases hkey
      let t : ResourceType :=
        { name := strip resourceType, stripped := strip_strip _, nonempty := hne, noColon := hno }
      exact parse_key (.resource t n)

/-- The id of a workspace can be so long that its key is refused. -/
theorem long_key_refused :
    ¬((∀ n : Int, parseScopeKey (scopeWorkspace n)
          = .ok { kind := .workspace, workspaceId := some n }) ∧
        (∀ n : Int, parseScopeKey (scopeProject n)
          = .ok { kind := .project, projectId := some n }) ∧
        ∀ (resourceType : Str) (n : Int) (key : Str), scopeResource resourceType n = .ok key →
          parseScopeKey key
            = .ok { kind := .resource, resourceType := some (strip resourceType)
                    refId := some n }) := by
  rintro ⟨hworkspace, -, -⟩
  have hlen : ¬(ScopeDescriptor.workspace (10 ^ 118)).key.length ≤ maxLen := by decide +kernel
  have hparse := parse_key (.workspace (10 ^ 118))
  rw [if_neg hlen] at hparse
  cases hparse.symm.trans (hworkspace (10 ^ 118))

/-! ## One key for a scope -/

/-- The text is spelled as a builder spells it: the id in canonical decimals, and no blanks around
the type of a resource. -/
def Canonical (sk : Str) : Prop :=
  sk = globalKey ∨ (∃ v, IsDecimal v ∧ sk = prefixWorkspace ++ v) ∨
    (∃ v, IsDecimal v ∧ sk = prefixProject ++ v) ∨
    ∃ (t : ResourceType) (v : Str), IsDecimal v ∧ sk = prefixResource ++ (t.name ++ ':' :: v)

theorem canonical_iff {sk : Str} : Canonical sk ↔ ∃ d : ScopeDescriptor, sk = d.key := by
  constructor
  · rintro (rfl | ⟨v, hv, rfl⟩ | ⟨v, hv, rfl⟩ | ⟨t, v, hv, rfl⟩)
    · exact ⟨.global, rfl⟩
    · obtain ⟨n, rfl⟩ := isDecimal_iff.mp hv
      exact ⟨.workspace n, rfl⟩
    · obtain ⟨n, rfl⟩ := isDecimal_iff.mp hv
      exact ⟨.project n, rfl⟩
    · obtain ⟨n, rfl⟩ := isDecimal_iff.mp hv
      exact ⟨.resource t n, rfl⟩
  · rintro ⟨d, rfl⟩
    cases d with
    | global => exact Or.inl rfl
    | workspace n => exact Or.inr (Or.inl ⟨str n, isDecimal_iff.mpr ⟨n, rfl⟩, rfl⟩)
    | project n => exact Or.inr (Or.inr (Or.inl ⟨str n, isDecimal_iff.mpr ⟨n, rfl⟩, rfl⟩))
    | resource t n => exact Or.inr (Or.inr (Or.inr ⟨t, str n, isDecimal_iff.mpr ⟨n, rfl⟩, rfl⟩))

theorem parseScopeKey_strip (k : Str) : parseScopeKey (strip k) = parseScopeKey k := by
  unfold parseScopeKey
  rw [strip_strip]

/-- A scope that is parsed from a canonical text has this text for its key. -/
theorem canonical_iff_key {k : Str} {d : ScopeDescriptor} (h : parseScopeKey k = .ok d.parsed) :
    d.key = strip k ↔ Canonical (strip k) := by
  constructor
  · intro hkey
    exact canonical_iff.mpr ⟨d, hkey.symm⟩
  · intro hcanonical
    obtain ⟨d', hd'⟩ := canonical_iff.mp hcanonical
    have hlen : d'.key.length ≤ maxLen := hd' ▸ (spells_of_parse h).1
    have hparse : parseScopeKey k = .ok d'.parsed := by
      rw [← parseScopeKey_strip, hd', parse_key, if_pos hlen]
    have hsame : d.parsed = d'.parsed := Except.ok.inj (h.symm.trans hparse)
    have hbuilt := d.rebuild_parsed
    rw [hsame, d'.rebuild_parsed] at hbuilt
    rw [hd', Except.ok.inj hbuilt]

theorem strip_ne_nil_of_parse {k : Str} {p : ParsedScope} (h : parseScopeKey k = .ok p) :
    strip k ≠ [] := by
  intro hnil
  unfold parseScopeKey at h
  rw [hnil] at h
  cases h

theorem scopesWithGlobal_eq_iff {k k' : Str} (hk : strip k ≠ []) (hk' : strip k' ≠ []) :
    scopesWithGlobal k = scopesWithGlobal k' ↔ strip k = strip k' := by
  constructor
  · intro h
    unfold scopesWithGlobal at h
    rw [if_neg hk, if_neg hk'] at h
    split at h
    · next hglobal =>
      split at h
      · next hglobal' => rw [hglobal, hglobal']
      · cases (List.cons.inj h).2
    · split at h
      · cases (List.cons.inj h).2
      · exact (List.cons.inj h).1
  · intro h
    unfold scopesWithGlobal
    rw [h]

/--
**A scope has one canonical key.**

What the builder makes of a parsed scope is the text again exactly when the text is canonical, and
the texts of a scope that are looked up like the canonical one are the canonical ones.
-/
theorem rebuilt_iff {k : Str} {p : ParsedScope} (h : parseScopeKey k = .ok p) :
    ∃ key, rebuildKey p = .ok key ∧ (key = strip k ↔ Canonical (strip k)) ∧
      ∀ k', parseScopeKey k' = .ok p → Canonical (strip k) →
        (scopesWithGlobal k' = scopesWithGlobal k ↔ Canonical (strip k')) := by
  obtain ⟨-, d, rfl, -⟩ := spells_of_parse h
  refine ⟨d.key, d.rebuild_parsed, canonical_iff_key h, fun k' h' hcanonical => ?_⟩
  rw [scopesWithGlobal_eq_iff (strip_ne_nil_of_parse h') (strip_ne_nil_of_parse h),
    ← (canonical_iff_key h).mpr hcanonical, ← canonical_iff_key h']
  exact eq_comm

theorem rebuilt_iff_padded :
    parseScopeKey " resource: doc :7\n".toList
        = .ok { kind := .resource, resourceType := some "doc".toList, refId := some 7 } ∧
      ∃ key, rebuildKey
            { kind := .resource, resourceType := some "doc".toList, refId := some 7 } = .ok key ∧
        (key = strip " resource: doc :7\n".toList ↔
          Canonical (strip " resource: doc :7\n".toList)) ∧
        ∀ k', parseScopeKey k'
              = .ok { kind := .resource, resourceType := some "doc".toList, refId := some 7 } →
          Canonical (strip " resource: doc :7\n".toList) →
          (scopesWithGlobal k' = scopesWithGlobal " resource: doc :7\n".toList ↔
            Canonical (strip k')) := by
  have hparse : parseScopeKey " resource: doc :7\n".toList
      = .ok { kind := .resource, resourceType := some "doc".toList, refId := some 7 } := by
    decide +kernel
  exact ⟨hparse, rebuilt_iff hparse⟩

/-- `workspace:05` is another key of workspace 5, under which no grant of `workspace:5` is found. -/
theorem alias_of_workspace :
    ¬((∀ (k : Str) (p : ParsedScope), parseScopeKey k = .ok p → rebuildKey p = .ok (strip k)) ∧
      ∀ (k k' : Str) (p : ParsedScope), parseScopeKey k = .ok p → parseScopeKey k' = .ok p →
        scopesWithGlobal k = scopesWithGlobal k') := by
  rintro ⟨-, hlookup⟩
  have hparse : parseScopeKey "workspace:05".toList
      = .ok { kind := .workspace, workspaceId := some 5 } := by decide +kernel
  have hparse' : parseScopeKey "workspace:5".toList
      = .ok { kind := .workspace, workspaceId := some 5 } := by decide +kernel
  exact absurd (hlookup _ _ _ hparse hparse') (by decide +kernel)

end EnterpriseAssistant.Authz
