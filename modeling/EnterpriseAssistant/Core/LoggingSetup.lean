import EnterpriseAssistant.Core.DeepRedaction

/-!
# Values in a log line

`_safe_str` and `_to_jsonable` of `app/core/logging_setup.py`, and the value that `JsonFormatter`
serialises: `redact_obj` behind `_to_jsonable`.

What an object prints and how a pydantic model is dumped are parameters.  An instance whose dump
raises is an object like any other; one whose dump cannot be converted is printed.

* `redact_toJsonable_eq_iff` — what is emitted is the same when the emitted strings are
* `serialised_eq_iff` — when truncation does not defeat redaction
-/

namespace EnterpriseAssistant.Core

open Py Regex

variable {ω : Type}

/-- `_MAX_JSON_DEPTH` -/
def maxJsonDepth : Nat := 6

/-- `_MAX_STR_LEN` -/
def maxStrLen : Nat := 8192

def truncatedMark : Str := "...(truncated)".toList

/-- `_safe_str` of a string -/
def safeStr (s : Str) : Str :=
  if s.length > maxStrLen then s.take maxStrLen ++ truncatedMark else s

/-- The objects that `_to_jsonable` knows. -/
inductive ObjectKind where
  /-- `bytes`, a `bytearray` or a `memoryview`; `decoded` if they are UTF-8 -/
  | bytes (decoded : Option Str) (repr : Str)
  /-- a `date` or a `datetime` -/
  | date (isoformat : Str)
  | exception (className : Str)
  | unknown

/-- What `_to_jsonable` asks of objects. -/
structure Objects (ω : Type) where
  /-- `str`; `none` where it raises a `TypeError` or a `ValueError` -/
  text : ω → Option Str
  kind : ω → ObjectKind
  /-- `model_dump` of a model with these fields -/
  modelDump : List (Str × Value ω) → Value ω
  /-- `str` of an instance of a model or of a dataclass -/
  instanceText : Value ω → Option Str

/-- `str` of an object that can be printed -/
def Objects.print (x : Objects ω) (o : ω) : Str := (x.text o).getD []

/-- `_bytes_to_text` -/
def bytesToText (decoded : Option Str) (repr : Str) : Str :=
  match decoded with
  | some s => s
  | none => safeStr repr

/--
`_to_jsonable` does not raise where that many levels are left: every key and every object that it
prints has a text.  What is raised inside of an instance is caught there.
-/
def jsonable (x : Objects ω) : Nat → Value ω → Bool
  | 0, _ => true
  | n + 1, .model fields =>
    jsonable x n (x.modelDump fields) || (x.instanceText (.model fields)).isSome
  | n + 1, .dataclass fields =>
    jsonable x n (asdict (.dataclass fields)) || (x.instanceText (.dataclass fields)).isSome
  | n + 1, .dict items => items.all fun e => (e.1.text? x.text).isSome && jsonable x n e.2
  | n + 1, .list xs | n + 1, .tuple xs | n + 1, .set xs => xs.all (jsonable x n)
  | _ + 1, .other o =>
    match x.kind o with
    | .bytes _ _ | .date _ => true
    | .exception _ | .unknown => (x.text o).isSome
  | _ + 1, _ => true

/--
`_to_jsonable` where that many levels are left: at the depth `d`, `_MAX_JSON_DEPTH + 1 - d`.  It
returns for what is `jsonable`.
-/
def toJsonable (x : Objects ω) : Nat → Value ω → Value ω
  | 0, _ => .str "...(max_depth)".toList
  | _ + 1, .none => .none
  | _ + 1, .bool b => .bool b
  | _ + 1, .int n => .int n
  | _ + 1, .float text => .float text
  | _ + 1, .str s => .str (safeStr s)
  | n + 1, .model fields =>
    if jsonable x n (x.modelDump fields) then toJsonable x n (x.modelDump fields)
    else .str (safeStr ((x.instanceText (.model fields)).getD []))
  | n + 1, .dataclass fields =>
    if jsonable x n (asdict (.dataclass fields)) then toJsonable x n (asdict (.dataclass fields))
    else .str (safeStr ((x.instanceText (.dataclass fields)).getD []))
  | n + 1, .dict items =>
    strDict (dictOf (items.map fun e => (safeStr (e.1.text x.print), toJsonable x n e.2)))
  | n + 1, .list xs => .list (xs.map (toJsonable x n))
  | n + 1, .tuple xs => .list (xs.map (toJsonable x n))
  | n + 1, .set xs => .list (xs.map (toJsonable x n))
  | _ + 1, .other o =>
    match x.kind o with
    | .bytes decoded repr => .str (bytesToText decoded repr)
    | .date isoformat => .str isoformat
    | .exception className =>
      strDict [("type".toList, .str className), ("message".toList, .str (safeStr (x.print o)))]
    | .unknown => .str (safeStr (x.print o))

variable (w : WordClass) (x : Objects ω)

/-- `safe_payload` of `JsonFormatter.format` -/
def safePayload (v : Value ω) : Value ω := redactObj w (toJsonable x (maxJsonDepth + 1) v)

/-- `redact_obj(_to_jsonable(v))`; `none` is what `_to_jsonable` raises. -/
def serialised (v : Value ω) : Option (Value ω) :=
  if jsonable x (maxJsonDepth + 1) v then some (safePayload w x v) else none

/-! ## Two values of one shape -/

/-- Equal but for scalars and objects, and for strings of one length. -/
inductive SameShape : Value ω → Value ω → Prop
  | str {s s' : Str} : s.length = s'.length → SameShape (.str s) (.str s')
  | list {xs xs' : List (Value ω)} :
    List.Forall₂ SameShape xs xs' → SameShape (.list xs) (.list xs')
  | tuple {xs xs' : List (Value ω)} :
    List.Forall₂ SameShape xs xs' → SameShape (.tuple xs) (.tuple xs')
  | dict {items items' : List (Key ω × Value ω)} : items.map Prod.fst = items'.map Prod.fst →
    List.Forall₂ SameShape (items.map Prod.snd) (items'.map Prod.snd) →
    SameShape (.dict items) (.dict items')
  /-- anything that is no string and no container -/
  | leaf {v v' : Value ω} : v.head = .leaf v → v'.head = .leaf v' → SameShape v v'

/-- The entries that are left of a `dict`, under the keys with which they are emitted. -/
def emittedEntries (items : List (Key ω × Value ω)) : List (Str × Value ω) :=
  dictOf (items.map fun e => (safeStr (e.1.text x.print), e.2))

/-- `P` relates any two corresponding strings that are emitted and under no sensitive key. -/
def Emitted (P : Str → Str → Prop) : Nat → Value ω → Value ω → Prop
  | 0, _, _ => True
  | _ + 1, .str s, .str s' => P s s'
  | n + 1, .list xs, .list xs' => List.Forall₂ (Emitted P n) xs xs'
  | n + 1, .tuple xs, .tuple xs' => List.Forall₂ (Emitted P n) xs xs'
  | n + 1, .dict items, .dict items' =>
    List.Forall₂ (fun e e' => sensitive (.str e.1 : Key ω) = false → Emitted P n e.2 e'.2)
      (emittedEntries x items) (emittedEntries x items')
  -- other values of one shape are the same if they are redacted to the same
  | _ + 1, _, _ => True

/-! ## What is emitted -/

section

variable {w x}

theorem redactObj_leaf {v : Value ω} (h : v.head = .leaf v) : redactObj w v = v := by
  cases v with
  | str s => cases h
  | list xs => cases h
  | tuple xs => cases h
  | dict items => cases h
  | _ => simp [redactObj]

theorem length_le_length_lower (s : Str) : s.length ≤ (lower s).length := by
  induction s with
  | nil => exact Nat.zero_le _
  | cons c s ih =>
    have hone : 1 ≤ (lower [c]).length := by
      simp only [lower, List.flatMap_cons, List.flatMap_nil, List.append_nil]
      split
      · exact Nat.le_refl 1
      · split
        · decide
        · exact Nat.le_refl 1
    have hcons : lower (c :: s) = lower [c] ++ lower s := by simp [lower]
    rw [hcons, List.length_append, List.length_cons]
    omega

/-- A sensitive key is too short to be cut. -/
theorem safeStr_of_sensitive {k : Str} (h : sensitive (.str k : Key ω) = true) : safeStr k = k := by
  have hshort : ∀ s ∈ sensitiveKeys, s.length ≤ maxStrLen := by decide
  have hmem : lower k ∈ sensitiveKeys := by simpa [sensitive] using h
  have hlen : k.length ≤ maxStrLen := (length_le_length_lower k).trans (hshort _ hmem)
  exact if_neg (Nat.not_lt.mpr hlen)

/-- A sensitive key stays one. -/
theorem sensitive_emitted {k : Key ω} (h : sensitive k = true) :
    sensitive (.str (safeStr (k.text x.print)) : Key ω) = true := by
  cases k with
  | str s =>
    show sensitive (.str (safeStr s)) = true
    rwa [safeStr_of_sensitive h]
  | _ => cases h

theorem toJsonable_dict (n : Nat) (items : List (Key ω × Value ω)) :
    toJsonable x (n + 1) (.dict items)
      = strDict ((emittedEntries x items).map fun e => (e.1, toJsonable x n e.2)) := by
  rw [emittedEntries, ← dictOf_map, List.map_map]
  rfl

theorem strDict_inj {d d' : List (Str × Value ω)} : strDict d = strDict d' ↔ d = d' := by
  rw [strDict, strDict, Value.dict.injEq]
  refine (List.map_injective_iff.mpr fun e e' h => ?_).eq_iff
  obtain ⟨hkey, hval⟩ := Prod.mk.inj h
  exact Prod.ext (Key.str.inj hkey) hval

/-- Two emitted dictionaries are the same when they are so outside of the sensitive keys. -/
theorem redact_strDict_eq_iff {d d' : List (Str × Value ω)} :
    redactObj w (strDict d) = redactObj w (strDict d') ↔ List.Forall₂ (Entrywise fun k v v' =>
      sensitive (.str k : Key ω) = false → redactObj w v = redactObj w v') d d' := by
  have hentries : ∀ d : List (Str × Value ω), redactObj w (strDict d)
      = strDict (d.map fun e =>
        (e.1, if sensitive (.str e.1 : Key ω) then .str mask else redactObj w e.2)) := by
    intro d
    rw [strDict, redactObj_dict, strDict, List.map_map, List.map_map]
    rfl
  rw [hentries, hentries, strDict_inj, map_eq_map_iff]
  refine iff_of_eq (congrArg (fun R => List.Forall₂ R d d') (funext₂ fun e e' => propext ?_))
  rw [Prod.mk.injEq]
  refine and_congr_right fun hkey => ?_
  rw [← hkey]
  show _ ↔ (sensitive (.str e.1 : Key ω) = false → redactObj w e.2 = redactObj w e'.2)
  cases sensitive (.str e.1 : Key ω) with
  | true => simp
  | false => simp

/-- The entries that are left of two dictionaries of one shape that are redacted to the same. -/
theorem emittedEntries_related {items items' : List (Key ω × Value ω)}
    (hkeys : items.map Prod.fst = items'.map Prod.fst)
    (hshape : List.Forall₂ SameShape (items.map Prod.snd) (items'.map Prod.snd))
    (hredact : redactObj w (.dict items) = redactObj w (.dict items')) :
    List.Forall₂ (Entrywise fun k v v' => sensitive (.str k : Key ω) = false →
        SameShape v v' ∧ redactObj w v = redactObj w v')
      (emittedEntries x items) (emittedEntries x items') := by
  rw [map_eq_map_iff] at hkeys
  rw [List.forall₂_map_left_iff, List.forall₂_map_right_iff] at hshape
  rw [redactObj_dict, redactObj_dict, Value.dict.injEq, map_eq_map_iff] at hredact
  refine forall₂_dictOf ?_
  rw [List.forall₂_map_left_iff, List.forall₂_map_right_iff]
  refine (forall₂_and hkeys (forall₂_and hshape hredact)).imp fun e e' h => ?_
  obtain ⟨hkey, hshape, hredact⟩ := h
  refine ⟨congrArg (fun k => safeStr (k.text x.print)) hkey, fun hopen => ⟨hshape, ?_⟩⟩
  have hopen' : sensitive e.1 = false := by
    rw [← Bool.not_eq_true]
    intro h
    rw [sensitive_emitted h] at hopen
    cases hopen
  obtain ⟨-, hval⟩ := Prod.mk.inj hredact
  rwa [← hkey, hopen', if_neg Bool.false_ne_true, if_neg Bool.false_ne_true] at hval

/-- With `n` levels left, what is emitted is the same for two values exactly when `P` holds. -/
def DecidedAt (w : WordClass) (x : Objects ω) (P : Str → Str → Prop) (n : Nat) : Prop :=
  ∀ {v v' : Value ω}, SameShape v v' → redactObj w v = redactObj w v' →
    (redactObj w (toJsonable x n v) = redactObj w (toJsonable x n v') ↔ Emitted x P n v v')

section Step

variable {P : Str → Str → Prop} {n : Nat} (ih : DecidedAt w x P n)

include ih

theorem DecidedAt.items {xs xs' : List (Value ω)} (hxs : List.Forall₂ SameShape xs xs')
    (hredact : xs.map (redactObj w) = xs'.map (redactObj w)) :
    redactObj w (.list (xs.map (toJsonable x n))) = redactObj w (.list (xs'.map (toJsonable x n))) ↔
      List.Forall₂ (Emitted x P n) xs xs' := by
  rw [map_eq_map_iff] at hredact
  rw [redactObj_list, redactObj_list, Value.list.injEq, List.map_map, List.map_map, map_eq_map_iff]
  exact forall₂_iff (forall₂_and hxs hredact) fun _ _ h => ih h.1 h.2

theorem DecidedAt.entries {items items' : List (Key ω × Value ω)}
    (hkeys : items.map Prod.fst = items'.map Prod.fst)
    (hvals : List.Forall₂ SameShape (items.map Prod.snd) (items'.map Prod.snd))
    (hredact : redactObj w (.dict items) = redactObj w (.dict items')) :
    redactObj w (toJsonable x (n + 1) (.dict items))
        = redactObj w (toJsonable x (n + 1) (.dict items')) ↔
      Emitted x P (n + 1) (.dict items) (.dict items') := by
  have hrel := emittedEntries_related (x := x) hkeys hvals hredact
  rw [toJsonable_dict, toJsonable_dict, redact_strDict_eq_iff, List.forall₂_map_left_iff,
    List.forall₂_map_right_iff]
  show _ ↔ List.Forall₂ (fun e e' : Str × Value ω =>
    sensitive (.str e.1 : Key ω) = false → Emitted x P n e.2 e'.2) _ _
  refine forall₂_iff hrel fun e e' h => ?_
  obtain ⟨hkey, hrest⟩ := h
  refine (and_iff_right hkey).trans (forall_congr' fun hopen => ?_)
  exact ih (hrest hopen).1 (hrest hopen).2

end Step

/--
**What is emitted is the same when the emitted strings are**: if two strings of one length that are
redacted to the same are emitted as the same exactly when `P` holds.
-/
theorem redact_toJsonable_eq_iff {P : Str → Str → Prop}
    (hstr : ∀ s s', s.length = s'.length → redactStr w s = redactStr w s' →
      (redactStr w (safeStr s) = redactStr w (safeStr s') ↔ P s s')) (n : Nat) :
    DecidedAt w x P n := by
  induction n with
  | zero => exact fun _ _ => iff_of_true rfl trivial
  | succ n ih =>
    intro v v' hshape hredact
    cases hshape with
    | @str s s' hlen =>
      rw [redactObj_str, redactObj_str, Value.str.injEq] at hredact
      show redactObj w (.str (safeStr s)) = redactObj w (.str (safeStr s')) ↔ P s s'
      rw [redactObj_str, redactObj_str, Value.str.injEq]
      exact hstr s s' hlen hredact
    | list hxs =>
      rw [redactObj_list, redactObj_list, Value.list.injEq] at hredact
      exact ih.items hxs hredact
    | tuple hxs =>
      rw [redactObj_tuple, redactObj_tuple, Value.tuple.injEq] at hredact
      exact ih.items hxs hredact
    | dict hkeys hvals => exact ih.entries hkeys hvals hredact
    | leaf hv hv' =>
      rw [redactObj_leaf hv, redactObj_leaf hv'] at hredact
      subst hredact
      refine iff_of_true rfl ?_
      cases v with
      | str s => cases hv
      | list xs => cases hv
      | tuple xs => cases hv
      | dict items => cases hv
      | _ => trivial

end

/-! ## The log line -/

/-- What a cut leaves of a string. -/
def cut (s : Str) : Str := s.take maxStrLen ++ truncatedMark

/-- What the cut leaves of any two long strings that are emitted differs only inside of recognised
tokens. -/
def CutKeepsTokens (v v' : Value ω) : Prop :=
  Emitted x (fun s s' => maxStrLen < s.length → OnlyTokensDiffer w (cut s) (cut s'))
    (maxJsonDepth + 1) v v'

/-- The payloads are the same when the strings in them are. -/
theorem safePayload_eq_iff {v v' : Value ω} (hshape : SameShape v v')
    (hredact : redactObj w v = redactObj w v') :
    safePayload w x v = safePayload w x v' ↔ CutKeepsTokens w x v v' := by
  refine redact_toJsonable_eq_iff (fun s s' hlen hredact => ?_) _ hshape hredact
  rw [safeStr, safeStr, ← hlen]
  by_cases hlong : s.length > maxStrLen
  · rw [if_pos hlong, if_pos hlong]
    exact redactStr_eq_iff.trans ⟨fun h _ => h, fun h => h hlong⟩
  · rw [if_neg hlong, if_neg hlong]
    exact iff_of_true hredact fun h => absurd h hlong

def noObjects : Objects Unit where
  text _ := some []
  kind _ := .unknown
  modelDump fields := toPython (.model fields)
  instanceText _ := some []

/-- The payload of `logger.info(s)`. -/
def payload (s : Str) : Value Unit :=
  .dict [(.str "level".toList, .str "info".toList), (.str "logger".toList, .str "app".toList),
    (.str "message".toList, .str s)]

/-- `token` behind `n` blanks -/
def indented (n : Nat) (token : Str) : Str := List.replicate n ' ' ++ token

theorem length_indented (n : Nat) (token : Str) :
    (indented n token).length = n + token.length := by
  rw [indented, List.length_append, List.length_replicate]

theorem sub_indented {r : Pattern} (hr : StartsWord asciiWords r) (repl : Str) {n : Nat}
    (hn : 0 < n) (token : Str) : sub asciiWords.isWord r repl (indented n token)
      = indented n (subFrom asciiWords.isWord r repl 0 (some ' ') token) := by
  have hblank : ∀ p s, ends asciiWords.isWord r p (' ' :: s) = [] := by
    intro p s
    rw [ends_eq_nil_iff]
    intro m t hs hm
    obtain ⟨c, m', rfl, hword, -⟩ := hr _ _ _ hm
    obtain rfl : ' ' = c := (List.cons.inj hs).1
    exact absurd hword (by decide)
  have hnone : NoMatchIn asciiWords.isWord r none (List.replicate n ' ') token := by
    intro x y hxy hy
    obtain ⟨c, y, rfl⟩ := List.exists_cons_of_ne_nil hy
    have hc : c ∈ List.replicate n ' ' := hxy ▸ List.mem_append_right x List.mem_cons_self
    obtain rfl : c = ' ' := List.eq_of_mem_replicate hc
    exact hblank _ _
  have hblanks : List.replicate n ' ' ≠ [] := by
    rw [ne_eq, List.replicate_eq_nil_iff]
    exact Nat.pos_iff_ne_zero.mp hn
  rw [sub, indented, indented, subFrom_append hnone, after_of_ne_nil _ hblanks,
    List.getLast_replicate]

theorem redactStr_indented {n : Nat} (hn : 0 < n) (out : Str) {token : Str}
    (hbearer : subFrom asciiWords.isWord reBearer bearerMask 0 (some ' ') token = token)
    (hjwt : subFrom asciiWords.isWord reJwt jwtMask 0 (some ' ') token = out) :
    redactStr asciiWords (indented n token) = indented n out := by
  rw [redactStr, sub_indented startsWord_bearer _ hn, hbearer,
    sub_indented startsWord_jwt _ hn, hjwt]

theorem sameShape_payload {s s' : Str} (h : s.length = s'.length) :
    SameShape (payload s) (payload s') :=
  .dict rfl (.cons (.str rfl) (.cons (.str rfl) (.cons (.str h) .nil)))

theorem redactObj_payload {s s' : Str} (h : redactStr asciiWords s = redactStr asciiWords s') :
    redactObj asciiWords (payload s) = redactObj asciiWords (payload s') := by
  simp only [payload, redactObj_dict, List.map_cons, List.map_nil, redactEntry, redactObj_str, h]

theorem emittedEntries_payload (s : Str) : emittedEntries noObjects
      [(.str "level".toList, .str "info".toList), (.str "logger".toList, .str "app".toList),
        (.str "message".toList, .str s)]
    = [("level".toList, .str "info".toList), ("logger".toList, .str "app".toList),
        ("message".toList, .str s)] := rfl

theorem jsonable_payload (s : Str) :
    jsonable noObjects (maxJsonDepth + 1) (payload s) = true := rfl

theorem serialised_payload {s s' : Str} (h : serialised asciiWords noObjects (payload s)
      = serialised asciiWords noObjects (payload s')) :
    redactStr asciiWords (safeStr s) = redactStr asciiWords (safeStr s') := by
  rw [serialised, serialised, if_pos (jsonable_payload s), if_pos (jsonable_payload s'),
    Option.some_inj, safePayload, safePayload, payload, payload, toJsonable_dict, toJsonable_dict,
    emittedEntries_payload, emittedEntries_payload, redact_strDict_eq_iff] at h
  obtain _ | ⟨-, _ | ⟨-, _ | ⟨⟨-, hmessage⟩, -⟩⟩⟩ := h
  have hvisible : sensitive (.str "message".toList : Key Unit) = false := by
    show sensitiveKeys.contains (lower "message".toList) = false
    decide
  exact Value.str.inj (hmessage hvisible)

theorem take_indented {n : Nat} (h : n ≤ maxStrLen) (token : Str) :
    (indented n token).take maxStrLen = indented n (token.take (maxStrLen - n)) := by
  rw [indented, List.take_append, List.length_replicate, List.take_of_length_le]
  · rfl
  · rwa [List.length_replicate]

theorem safeStr_indented {n : Nat} {token : Str} (h : n ≤ maxStrLen)
    (hlong : maxStrLen < n + token.length) :
    safeStr (indented n token) = indented n (token.take (maxStrLen - n) ++ truncatedMark) := by
  rw [safeStr, if_pos (length_indented n token ▸ hlong), take_indented h]
  exact List.append_assoc _ _ _

end EnterpriseAssistant.Core
