import EnterpriseAssistant.Lib.PyStr

/-!
# Scope keys

The builders of `app/modules/authz/scope_keys.py`, and `scopes_with_global`, from which a
permission check takes the scopes it looks at.

* `ScopeDescriptor.key_injective` — two scopes never share a key
* `mem_scopesWithGlobal_key` — a check on a built key looks at that key and at the global one
-/

namespace EnterpriseAssistant.Authz

open Py

/-! ## The builders -/

/-- `SCOPE_GLOBAL`. -/
def globalKey : Str := "global".toList

def prefixWorkspace : Str := "workspace:".toList
def prefixProject : Str := "project:".toList
def prefixResource : Str := "resource:".toList

def scopeGlobal : Str := globalKey

def scopeWorkspace (workspaceId : Int) : Str := prefixWorkspace ++ str workspaceId

def scopeProject (projectId : Int) : Str := prefixProject ++ str projectId

/-- `scope_resource`; the error is the text of the `ValueError`. -/
def scopeResource (resourceType : Str) (refId : Int) : Except String Str :=
  if strip resourceType = [] then .error "bad_resource_type"
  else if ':' ∈ strip resourceType then .error "bad_resource_type"
  else .ok (prefixResource ++ (strip resourceType ++ ':' :: str refId))

/-- `scopes_with_global`. -/
def scopesWithGlobal (scopeKey : Str) : List Str :=
  if strip scopeKey = [] then [globalKey]
  else if strip scopeKey = globalKey then [globalKey]
  else [strip scopeKey, globalKey]

@[simp] theorem strip_globalKey : strip globalKey = globalKey := by decide

/-- A check looks at the stripped key where that says something, and always at the global one. -/
theorem mem_scopesWithGlobal {scopeKey k : Str} :
    k ∈ scopesWithGlobal scopeKey ↔ k = globalKey ∨ (k = strip scopeKey ∧ k ≠ []) := by
  unfold scopesWithGlobal
  split
  · next hnil =>
    rw [hnil, List.mem_singleton]
    refine ⟨Or.inl, ?_⟩
    rintro (h | ⟨h, hne⟩)
    · exact h
    · exact absurd h hne
  · next hne =>
    split
    · next hglobal =>
      rw [hglobal, List.mem_singleton]
      refine ⟨Or.inl, ?_⟩
      rintro (h | ⟨h, -⟩)
      · exact h
      · exact h
    · simp only [List.mem_cons, List.not_mem_nil, or_false]
      constructor
      · rintro (rfl | h)
        · exact Or.inr ⟨rfl, hne⟩
        · exact Or.inl h
      · rintro (h | ⟨h, -⟩)
        · exact Or.inr h
        · exact Or.inl h

/-! ## Scopes and their keys -/

/-- The name of a resource type that `scope_resource` takes as it is. -/
structure ResourceType where
  name : Str
  stripped : strip name = name
  nonempty : name ≠ []
  noColon : ':' ∉ name

theorem ResourceType.eq_of_name {t t' : ResourceType} (h : t.name = t'.name) : t = t' := by
  cases t
  cases t'
  cases h
  rfl

inductive ScopeDescriptor where
  | global
  | workspace (id : Int)
  | project (id : Int)
  | resource (type : ResourceType) (id : Int)

namespace ScopeDescriptor

/-- What the builder of the scope answers. -/
def build : ScopeDescriptor → Except String Str
  | .global => .ok scopeGlobal
  | .workspace n => .ok (scopeWorkspace n)
  | .project n => .ok (scopeProject n)
  | .resource t n => scopeResource t.name n

/-- The key of the scope. -/
def key : ScopeDescriptor → Str
  | .global => globalKey
  | .workspace n => prefixWorkspace ++ str n
  | .project n => prefixProject ++ str n
  | .resource t n => prefixResource ++ (t.name ++ ':' :: str n)

theorem build_eq (d : ScopeDescriptor) : d.build = .ok d.key := by
  cases d with
  | resource t n =>
    show scopeResource t.name n = _
    unfold scopeResource
    rw [t.stripped, if_neg t.nonempty, if_neg t.noColon]
    rfl
  | _ => rfl

/-- The letter that the keys of this kind begin with. -/
def letter : ScopeDescriptor → Char
  | .global => 'g'
  | .workspace _ => 'w'
  | .project _ => 'p'
  | .resource _ _ => 'r'

theorem isSpace_letter (d : ScopeDescriptor) : isSpace d.letter = false := by
  cases d with
  | _ => rfl

theorem head?_key (d : ScopeDescriptor) : d.key.head? = some d.letter := by
  cases d with
  | _ => rfl

theorem key_ne_nil (d : ScopeDescriptor) : d.key ≠ [] := by
  intro h
  have hhead := d.head?_key
  rw [h] at hhead
  cases d with
  | _ => cases hhead

theorem key_injective : Function.Injective key := by
  intro d d' h
  have hletter : d.letter = d'.letter := by
    have hhead := congrArg List.head? h
    rw [head?_key, head?_key] at hhead
    exact Option.some.inj hhead
  cases d with
  | global =>
    cases d' with
    | global => rfl
    | _ => simp [letter] at hletter
  | workspace n =>
    cases d' with
    | workspace n' => rw [str_injective (List.append_cancel_left h)]
    | _ => simp [letter] at hletter
  | project n =>
    cases d' with
    | project n' => rw [str_injective (List.append_cancel_left h)]
    | _ => simp [letter] at hletter
  | resource t n =>
    cases d' with
    | resource t' n' =>
      have htail : t.name ++ ':' :: str n = t'.name ++ ':' :: str n' := List.append_cancel_left h
      have hsplit := congrArg (splitOnce ':') htail
      rw [splitOnce_append t.noColon, splitOnce_append t'.noColon] at hsplit
      obtain ⟨hname, hid⟩ := Prod.mk.inj hsplit
      rw [ResourceType.eq_of_name hname, str_injective hid]
    | _ => simp [letter] at hletter

theorem isSpace_getLast_str {s : Str} {n : Int} (hs : s ++ str n ≠ []) :
    isSpace ((s ++ str n).getLast hs) = false := by
  rw [List.getLast_append_of_ne_nil hs (str_ne_nil n)]
  exact isSpace_of_mem_str (List.getLast_mem _)

/-- Neither end of a key is blank: it begins with a letter and ends with a digit, or it is the
global key. -/
theorem strip_key (d : ScopeDescriptor) : strip d.key = d.key := by
  rw [strip_eq_self_iff]
  intro hs
  constructor
  · have hhead := d.head?_key
    rw [List.head?_eq_some_head hs] at hhead
    rw [Option.some.inj hhead]
    exact d.isSpace_letter
  · cases d with
    | global =>
      show isSpace 'l' = false
      decide
    | workspace n => exact isSpace_getLast_str hs
    | project n => exact isSpace_getLast_str hs
    | resource t n =>
      have hsplit : (resource t n).key = (prefixResource ++ (t.name ++ [':'])) ++ str n := by
        simp [key]
      have hs' : (prefixResource ++ (t.name ++ [':'])) ++ str n ≠ [] := hsplit ▸ hs
      have hlast : (resource t n).key.getLast hs = _ := List.getLast_congr hs hs' hsplit
      rw [hlast]
      exact isSpace_getLast_str hs'

/-- What a check on the key of a scope looks at. -/
theorem mem_scopesWithGlobal_key (d : ScopeDescriptor) {k : Str} :
    k ∈ scopesWithGlobal d.key ↔ k = globalKey ∨ k = d.key := by
  rw [mem_scopesWithGlobal, strip_key]
  constructor
  · rintro (h | ⟨h, -⟩)
    · exact Or.inl h
    · exact Or.inr h
  · rintro (h | h)
    · exact Or.inl h
    · exact Or.inr ⟨h, h ▸ d.key_ne_nil⟩

end ScopeDescriptor

end EnterpriseAssistant.Authz
