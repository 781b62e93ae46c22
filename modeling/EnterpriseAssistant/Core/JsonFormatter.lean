import EnterpriseAssistant.Lib.JsonText
import EnterpriseAssistant.Core.LoggingSetup
import EnterpriseAssistant.Core.RequestContext

/-!
# Log lines

`ContextFilter` and `JsonFormatter` of `app/core/logging_setup.py`.

A record is what `logging` makes of a call: its `__dict__` holds the attributes that every record
has, and those that the call passes as `extra`.

* `extended_logPayload` — the attributes of a record displace nothing of the formatter's own
* `dumps_of_format` — a line is the text of one redacted payload
* `format_contextFilter` — a filtered record has its line wherever it is formatted
* `log_line_read` — what is read from a line
* `log_line_iff` — when there is a line
* `log_line_clean` — no line gives a token away
-/

namespace EnterpriseAssistant.Core

open Py JsonText

variable {ω : Type}

structure LogRecord (ω : Type) where
  name : Str
  /-- `levelname.lower()` -/
  level : Str
  /-- `getMessage()` -/
  message : Str
  /-- `formatException(exc_info)`, if there is any -/
  exception : Option Str
  /-- `__dict__` -/
  attributes : List (Str × Value ω)
  distinct : (attributes.map Prod.fst).Nodup

/-- `getattr(record, k, None)` -/
def LogRecord.attribute (r : LogRecord ω) (k : Str) : Value ω :=
  ((r.attributes.find? fun e => e.1 == k).map Prod.snd).getD .none

/-- `setattr(record, k, v)` -/
def LogRecord.setAttribute (r : LogRecord ω) (k : Str) (v : Value ω) : LogRecord ω :=
  { r with attributes := assign k v r.attributes, distinct := nodup_assign r.distinct k v }

/-- The attributes that are no `extra`. -/
def reservedAttributes : List Str :=
  ["name".toList, "msg".toList, "args".toList, "levelname".toList, "levelno".toList,
    "pathname".toList, "filename".toList, "module".toList, "exc_info".toList, "exc_text".toList,
    "stack_info".toList, "lineno".toList, "funcName".toList, "created".toList, "msecs".toList,
    "relativeCreated".toList, "thread".toList, "threadName".toList, "processName".toList,
    "process".toList]

section Source

variable (w : WordClass) (x : Objects ω) (truth : ω → Bool)

/-- `bool(v)`; `truth` is that of the objects. -/
def truthy : Value ω → Bool
  | .none => false
  | .bool b => b
  | .int n => n != 0
  | .float text => text != "0.0".toList && text != "-0.0".toList
  | .str s => !s.isEmpty
  | .other o => truth o
  | .list xs | .tuple xs | .set xs => !xs.isEmpty
  | .dict items => !items.isEmpty
  | .model _ | .dataclass _ => true

def isNone : Value ω → Bool
  | .none => true
  | _ => false

/-- `get_request_id()` -/
def contextRequestId (ctx : RequestContext) : Value ω :=
  match ctx.requestId with
  | some rid => .str rid
  | none => .none

/-- `get_user_id()` -/
def contextUserId (ctx : RequestContext) : Value ω :=
  match ctx.userId with
  | some uid => .int uid
  | none => .none

/-- `ContextFilter.filter`, which lets every record pass -/
def contextFilter (ctx : RequestContext) (r : LogRecord ω) : LogRecord ω :=
  let rid := r.attribute "request_id".toList
  let uid := r.attribute "user_id".toList
  let r :=
    if !truthy truth rid && truthy truth (contextRequestId ctx) then
      r.setAttribute "request_id".toList (contextRequestId ctx)
    else r
  if isNone uid && !isNone (contextUserId ctx : Value ω) then
    r.setAttribute "user_id".toList (contextUserId ctx)
  else r

/-- `rid` of `format` -/
def recordRequestId (ctx : RequestContext) (r : LogRecord ω) : Value ω :=
  if truthy truth (r.attribute "request_id".toList) then r.attribute "request_id".toList
  else contextRequestId ctx

/-- `uid` of `format` -/
def recordUserId (ctx : RequestContext) (r : LogRecord ω) : Value ω :=
  if isNone (r.attribute "user_id".toList) then contextUserId ctx
  else r.attribute "user_id".toList

/-- What the formatter puts into `payload` itself. -/
def ownPayload (ctx : RequestContext) (r : LogRecord ω) : List (Str × Value ω) :=
  let payload := [("level".toList, .str r.level), ("logger".toList, .str r.name),
    ("message".toList, .str r.message)]
  let rid := recordRequestId truth ctx r
  let uid : Value ω := recordUserId ctx r
  let payload := if truthy truth rid then assign "request_id".toList rid payload else payload
  let payload := if isNone uid then payload else assign "user_id".toList uid payload
  match r.exception with
  | some text => assign "exc_info".toList (.str text) payload
  | none => payload

/-- The body of the loop over `__dict__`. -/
def addAttribute (payload : List (Str × Value ω)) (e : Str × Value ω) : List (Str × Value ω) :=
  if reservedAttributes.contains e.1 then payload else setDefault e.1 e.2 payload

/-- `payload` -/
def logPayload (ctx : RequestContext) (r : LogRecord ω) : List (Str × Value ω) :=
  r.attributes.foldl addAttribute (ownPayload truth ctx r)

/-- `fallback` -/
def fallbackPayload (ctx : RequestContext) (r : LogRecord ω) : List (Str × Value ω) :=
  [("level".toList, .str r.level), ("logger".toList, .str r.name),
    ("message".toList, .str (safeStr r.message)),
    ("request_id".toList, recordRequestId truth ctx r), ("user_id".toList, recordUserId ctx r),
    ("format_error".toList, .bool true)]

/-- `redact_obj(_to_jsonable(payload))` -/
def jsonPayload (payload : List (Str × Value ω)) : Option (Value ω) :=
  serialised w x (strDict payload)

/-- `JsonFormatter.format`; `none` is what is raised outside of the `try`: by `_to_jsonable`, or by
the second `json.dumps`. -/
def format (ctx : RequestContext) (r : LogRecord ω) : Option Str :=
  match jsonPayload w x (logPayload truth ctx r) with
  | none => none
  | some v =>
    match dumps true v with
    | some line => some line
    | none => (jsonPayload w x (fallbackPayload truth ctx r)).bind (dumps true)

/-- The payload of which the line is written. -/
def emitted (ctx : RequestContext) (r : LogRecord ω) : List (Str × Value ω) :=
  if (dumps true (safePayload w x (strDict (logPayload truth ctx r)))).isSome then
    logPayload truth ctx r
  else fallbackPayload truth ctx r

end Source

/-! ## What is serialised -/

variable (w : WordClass) (x : Objects ω)

theorem nodup_strKeys {d : List (Str × Value ω)} (h : (d.map Prod.fst).Nodup) :
    plain (strDict d) = true := by
  rw [strDict, plain, List.all_map, List.map_map, Bool.and_eq_true, List.all_eq_true,
    decide_eq_true_iff]
  exact ⟨fun _ _ => rfl, h⟩

theorem everywhere_strDict (p : Value ω → Bool) (d : List (Str × Value ω)) :
    (strDict d).everywhere p = (p (strDict d) && d.all fun e => e.2.everywhere p) := by
  rw [strDict, Value.everywhere_dict, List.all_map]
  rfl

/-- `_to_jsonable` makes what has one reading. -/
theorem plain_toJsonable (n : Nat) (v : Value ω) :
    (toJsonable x n v).everywhere plain = true := by
  induction n generalizing v with
  | zero => rfl
  | succ n ih =>
    have hitems : ∀ xs : List (Value ω),
        (Value.list (xs.map (toJsonable x n))).everywhere plain = true := by
      intro xs
      rw [Value.everywhere_list, List.all_map]
      simp [plain, ih]
    cases v with
    | list xs => exact hitems xs
    | tuple xs => exact hitems xs
    | set xs => exact hitems xs
    | model fields | dataclass fields =>
      simp only [toJsonable]
      split
      · exact ih _
      · rfl
    | dict items =>
      have hkeys : (((emittedEntries x items).map fun e => (e.1, toJsonable x n e.2)).map
          Prod.fst).Nodup := by
        rw [List.map_map]
        exact nodup_dictOf _
      rw [toJsonable_dict, everywhere_strDict, nodup_strKeys hkeys, List.all_map]
      simp [ih]
    | other o =>
      simp only [toJsonable]
      split
      · rfl
      · rfl
      next className =>
        have hkeys : (["type".toList, "message".toList] : List Str).Nodup := by decide
        rw [everywhere_strDict, nodup_strKeys (by exact hkeys)]
        rfl
      · rfl
    | _ => rfl

/-- Redaction changes no container. -/
theorem plain_redactObj {v : Value ω} (h : v.everywhere plain = true) :
    (redactObj w v).everywhere plain = true := by
  induction v using Value.induct with
  | str s =>
    rw [redactObj_str]
    rfl
  | list xs ih =>
    rw [Value.everywhere_list, Bool.and_eq_true, List.all_eq_true] at h
    rw [redactObj_list, Value.everywhere_list, List.all_map, Bool.and_eq_true, List.all_eq_true]
    exact ⟨rfl, fun x hx => ih x hx (h.2 x hx)⟩
  | dict items ih =>
    rw [Value.everywhere_dict, Bool.and_eq_true, List.all_eq_true] at h
    rw [redactObj_dict, Value.everywhere_dict, List.all_map, Bool.and_eq_true, List.all_eq_true]
    refine ⟨?_, fun e he => ?_⟩
    · rw [plain, List.all_map, List.map_map]
      exact h.1
    · simp only [Function.comp_apply, redactEntry]
      split
      · rfl
      · exact ih e he (h.2 e he)
  | tuple xs => simp [plain] at h
  | set xs => simp [plain] at h
  | other o => cases h
  | model fields => simp [plain] at h
  | dataclass fields => simp [plain] at h
  | _ => simpa [redactObj] using h

theorem plain_safePayload (v : Value ω) : (safePayload w x v).everywhere plain = true :=
  plain_redactObj w (plain_toJsonable x (maxJsonDepth + 1) v)

/-- What becomes of a value of the payload. -/
def safeValue (k : Str) (v : Value ω) : Value ω :=
  if sensitive (.str k : Key ω) then .str mask else redactObj w (toJsonable x maxJsonDepth v)

/-- What becomes of the payload. -/
def safeEntries (payload : List (Str × Value ω)) : List (Str × Value ω) :=
  (dictOf (payload.map fun e => (safeStr e.1, e.2))).map fun e => (e.1, safeValue w x e.1 e.2)

theorem safePayload_strDict (payload : List (Str × Value ω)) :
    safePayload w x (strDict payload) = strDict (safeEntries w x payload) := by
  have hentries : emittedEntries x (payload.map fun e => (.str e.1, e.2))
      = dictOf (payload.map fun e => (safeStr e.1, e.2)) := by
    rw [emittedEntries, List.map_map]
    rfl
  rw [safePayload, strDict, toJsonable_dict, hentries, strDict, redactObj_dict, List.map_map,
    List.map_map, strDict, safeEntries, List.map_map]
  rfl

theorem nodup_safeEntries (payload : List (Str × Value ω)) :
    ((safeEntries w x payload).map Prod.fst).Nodup := by
  rw [safeEntries, List.map_map]
  exact nodup_dictOf _

/-- A key that is not cut is the safe form of no other. -/
theorem safeStr_eq_short {k k' : Str} (hk : k.length ≤ maxStrLen) (h : safeStr k' = k) :
    k' = k := by
  unfold safeStr at h
  split at h
  next hlong =>
    rw [← h, List.length_append, List.length_take, Nat.min_eq_left (Nat.le_of_lt hlong)] at hk
    have hmark : 0 < truncatedMark.length := by decide
    omega
  · exact h

theorem safeStr_short {s : Str} (h : s.length ≤ maxStrLen) : safeStr s = s :=
  if_neg (Nat.not_lt.mpr h)

theorem safeStr_safeStr (s : Str) : safeStr (safeStr s) = safeStr s := by
  by_cases hlong : maxStrLen < s.length
  · have hcut : safeStr s = s.take maxStrLen ++ truncatedMark := if_pos hlong
    have hlength : (s.take maxStrLen).length = maxStrLen := by
      rw [List.length_take, Nat.min_eq_left (Nat.le_of_lt hlong)]
    have hmark : 0 < truncatedMark.length := by decide
    rw [hcut, safeStr, if_pos (by rw [List.length_append, hlength]; omega),
      List.take_append_of_le_length (Nat.le_of_eq hlength.symm), List.take_take, Nat.min_self]
  · rw [safeStr_short (Nat.not_lt.mp hlong), safeStr_short (Nat.not_lt.mp hlong)]

/-- **What stands under a key of the payload that is not cut.** -/
theorem mem_safeEntries {payload : List (Str × Value ω)} (hnodup : (payload.map Prod.fst).Nodup)
    {k : Str} {v : Value ω} (hk : k.length ≤ maxStrLen) (hmem : (k, v) ∈ payload) :
    (k, safeValue w x k v) ∈ safeEntries w x payload := by
  obtain ⟨a, b, rfl⟩ := List.append_of_mem hmem
  refine List.mem_map.mpr ⟨(k, v), mem_dictOf_iff.mpr
    ⟨a.map fun e => (safeStr e.1, e.2), b.map fun e => (safeStr e.1, e.2), ?_, ?_⟩, rfl⟩
  · rw [List.map_append, List.map_cons, safeStr_short hk]
  · rw [List.map_map, List.mem_map]
    rintro ⟨e, he, hkey⟩
    have hkey : e.1 = k := safeStr_eq_short hk hkey
    rw [List.map_append, List.nodup_append, List.map_cons, List.nodup_cons] at hnodup
    exact hnodup.2.1.1 (List.mem_map.mpr ⟨e, he, hkey⟩)

/-! ## The payload -/

section Payload

variable (truth : ω → Bool) (ctx : RequestContext) (r : LogRecord ω)

/-- The three fields that every line has. -/
def baseEntries : List (Str × Value ω) :=
  [("level".toList, .str r.level), ("logger".toList, .str r.name),
    ("message".toList, .str r.message)]

/-- The entries of the formatter's own, in order. -/
def ownEntries : List (Str × Value ω) :=
  baseEntries r
  ++ (if truthy truth (recordRequestId truth ctx r) then
    [("request_id".toList, recordRequestId truth ctx r)] else [])
  ++ (if isNone (recordUserId ctx r) then [] else [("user_id".toList, recordUserId ctx r)])
  ++ (r.exception.map fun text => ("exc_info".toList, .str text)).toList

theorem ownPayload_eq : ownPayload truth ctx r = ownEntries truth ctx r := by
  simp only [ownPayload, ownEntries, baseEntries]
  cases truthy truth (recordRequestId truth ctx r) <;> cases isNone (recordUserId ctx r) <;>
    cases r.exception <;> rfl

theorem nodup_ownPayload : ((ownPayload truth ctx r).map Prod.fst).Nodup := by
  rw [ownPayload_eq]
  simp only [ownEntries, baseEntries]
  cases truthy truth (recordRequestId truth ctx r) <;> cases isNone (recordUserId ctx r) <;>
    cases r.exception <;> simp

/-- An attribute is added under a new key, or not at all. -/
theorem addAttribute_cases (payload : List (Str × Value ω)) (e : Str × Value ω) :
    addAttribute payload e = payload ∨ addAttribute payload e = payload ++ [e] ∧
      e.1 ∉ payload.map Prod.fst ∧ reservedAttributes.contains e.1 = false := by
  unfold addAttribute setDefault
  split
  · exact Or.inl rfl
  next hextra =>
    split
    · exact Or.inl rfl
    next hnew => exact Or.inr ⟨rfl, hnew, Bool.eq_false_iff.mpr hextra⟩

/-- What the loop over `__dict__` leaves. -/
structure Extended (own attributes payload : List (Str × Value ω)) : Prop where
  nodup : (payload.map Prod.fst).Nodup
  own_mem : ∀ e ∈ own, e ∈ payload
  mem_cases : ∀ e ∈ payload,
    e ∈ own ∨ e ∈ attributes ∧ reservedAttributes.contains e.1 = false

theorem Extended.addAttribute {own attributes payload : List (Str × Value ω)}
    (h : Extended own attributes payload) {e : Str × Value ω} (he : e ∈ attributes) :
    Extended own attributes (addAttribute payload e) := by
  obtain heq | ⟨heq, hnew, hextra⟩ := addAttribute_cases payload e
  · rwa [heq]
  · rw [heq]
    refine ⟨?_, fun e' he' => List.mem_append_left _ (h.own_mem e' he'), fun e' he' => ?_⟩
    · rw [List.map_append, List.map_singleton]
      refine List.nodup_append.mpr ⟨h.nodup, List.nodup_singleton _, fun k hk k' hk' => ?_⟩
      rw [List.mem_singleton.mp hk']
      rintro rfl
      exact hnew hk
    · obtain he' | he' := List.mem_append.mp he'
      · exact h.mem_cases e' he'
      · rw [List.mem_singleton.mp he']
        exact Or.inr ⟨he, hextra⟩

/-- **The attributes of a record** displace nothing of the formatter's own. -/
theorem extended_logPayload :
    Extended (ownEntries truth ctx r) r.attributes (logPayload truth ctx r) := by
  have hfold : ∀ (l payload : List (Str × Value ω)), (∀ e ∈ l, e ∈ r.attributes) →
      Extended (ownEntries truth ctx r) r.attributes payload →
      Extended (ownEntries truth ctx r) r.attributes (l.foldl addAttribute payload) := by
    intro l
    induction l with
    | nil => exact fun _ _ h => h
    | cons e l ih =>
      intro payload hl h
      obtain ⟨he, hl⟩ := List.forall_mem_cons.mp hl
      exact ih _ hl (h.addAttribute he)
  refine hfold r.attributes (ownPayload truth ctx r) (fun _ he => he) ⟨?_, ?_, ?_⟩
  · exact nodup_ownPayload truth ctx r
  · rw [ownPayload_eq]
    exact fun _ he => he
  · rw [ownPayload_eq]
    exact fun _ he => Or.inl he

theorem nodup_fallbackPayload : ((fallbackPayload truth ctx r).map Prod.fst).Nodup := by
  show (["level".toList, "logger".toList, "message".toList, "request_id".toList, "user_id".toList,
    "format_error".toList] : List Str).Nodup
  decide

/-- What every payload carries. -/
structure Carries (payload : List (Str × Value ω)) : Prop where
  nodup : (payload.map Prod.fst).Nodup
  level : ("level".toList, .str r.level) ∈ payload
  logger : ("logger".toList, .str r.name) ∈ payload
  message : ∃ m, ("message".toList, .str m) ∈ payload ∧ safeStr m = safeStr r.message
  requestId : truthy truth (recordRequestId truth ctx r) = true →
    ("request_id".toList, recordRequestId truth ctx r) ∈ payload
  userId : isNone (recordUserId ctx r : Value ω) = false →
    ("user_id".toList, recordUserId ctx r) ∈ payload

theorem base_mem_logPayload {e : Str × Value ω} (h : e ∈ baseEntries r) :
    e ∈ logPayload truth ctx r :=
  (extended_logPayload truth ctx r).own_mem e
    (List.mem_append_left _ (List.mem_append_left _ (List.mem_append_left _ h)))

theorem carries_logPayload : Carries truth ctx r (logPayload truth ctx r) where
  nodup := (extended_logPayload truth ctx r).nodup
  level := base_mem_logPayload truth ctx r (.head _)
  logger := base_mem_logPayload truth ctx r (.tail _ (.head _))
  message := ⟨r.message, base_mem_logPayload truth ctx r (.tail _ (.tail _ (.head _))), rfl⟩
  requestId h := by
    refine (extended_logPayload truth ctx r).own_mem _
      (List.mem_append_left _ (List.mem_append_left _ (List.mem_append_right _ ?_)))
    rw [if_pos h]
    exact .head _
  userId h := by
    refine (extended_logPayload truth ctx r).own_mem _
      (List.mem_append_left _ (List.mem_append_right _ ?_))
    rw [h, if_neg Bool.false_ne_true]
    exact .head _

theorem carries_fallbackPayload : Carries truth ctx r (fallbackPayload truth ctx r) where
  nodup := nodup_fallbackPayload truth ctx r
  level := .head _
  logger := .tail _ (.head _)
  message := ⟨safeStr r.message, .tail _ (.tail _ (.head _)), safeStr_safeStr r.message⟩
  requestId _ := .tail _ (.tail _ (.tail _ (.head _)))
  userId _ := .tail _ (.tail _ (.tail _ (.tail _ (.head _))))

theorem carries_emitted : Carries truth ctx r (emitted w x truth ctx r) := by
  unfold emitted
  split
  · exact carries_logPayload truth ctx r
  · exact carries_fallbackPayload truth ctx r

/-- **A line is the text of one payload.** -/
theorem dumps_of_format {line : Str} (h : format w x truth ctx r = some line) :
    dumps true (safePayload w x (strDict (emitted w x truth ctx r))) = some line := by
  unfold format jsonPayload serialised at h
  unfold emitted
  split at h
  · cases h
  · next v hv =>
    obtain ⟨-, hv⟩ := Option.ite_none_right_eq_some.mp hv
    cases hv
    split at h
    · next hdumps =>
      rw [hdumps, Option.isSome_some, if_pos rfl, hdumps]
      exact h
    · next hdumps =>
      rw [hdumps, Option.isSome_none, if_neg Bool.false_ne_true]
      obtain ⟨v, hv, hline⟩ := Option.bind_eq_some_iff.mp h
      obtain ⟨-, hv⟩ := Option.ite_none_right_eq_some.mp hv
      cases hv
      exact hline

end Payload

/-! ## The filter -/

section Filter

variable (truth : ω → Bool)

theorem find?_assign (k k' : Str) (v : Value ω) (d : List (Str × Value ω)) :
    (assign k v d).find? (fun e => e.1 == k')
      = if k = k' then some (k, v) else d.find? fun e => e.1 == k' := by
  induction d with
  | nil =>
    by_cases hk : k = k'
    · simp [assign, hk]
    · simp [assign, hk]
  | cons e d ih =>
    obtain ⟨k₁, v₁⟩ := e
    by_cases h₁ : k₁ = k
    · subst h₁
      by_cases hk : k₁ = k'
      · simp [assign, hk]
      · simp [assign, hk]
    · rw [assign, if_neg h₁, List.find?_cons, List.find?_cons, ih]
      by_cases h₁' : k₁ = k'
      · have hne : k ≠ k' := fun h => h₁ (h₁'.trans h.symm)
        simp [h₁', hne]
      · have hskip : (k₁ == k') = false := by simp [h₁']
        simp only [hskip]

theorem attribute_setAttribute (r : LogRecord ω) (k k' : Str) (v : Value ω) :
    (r.setAttribute k v).attribute k' = if k = k' then v else r.attribute k' := by
  unfold LogRecord.attribute LogRecord.setAttribute
  rw [find?_assign]
  split
  · rfl
  · rfl

/-- An `extra` under a key that the payload does not have. -/
def isNew (payload : List (Str × Value ω)) (e : Str × Value ω) : Bool :=
  !reservedAttributes.contains e.1 && !(payload.map Prod.fst).contains e.1

theorem addAttribute_eq (payload : List (Str × Value ω)) (e : Str × Value ω) :
    addAttribute payload e = if isNew payload e then payload ++ [e] else payload := by
  unfold addAttribute setDefault isNew
  cases reservedAttributes.contains e.1 with
  | true => simp
  | false =>
    by_cases hin : e.1 ∈ payload.map Prod.fst
    · rw [if_neg Bool.false_ne_true, if_pos hin, List.contains_iff_mem.mpr hin]
      rfl
    · have hnot : (payload.map Prod.fst).contains e.1 = false := by
        rw [← Bool.not_eq_true, List.contains_iff_mem]
        exact hin
      rw [if_neg Bool.false_ne_true, if_neg hin, hnot]
      rfl

/-- Where a `dict` is looped over, every attribute with a new key is added. -/
theorem foldl_addAttribute {l : List (Str × Value ω)} (hl : (l.map Prod.fst).Nodup)
    (payload : List (Str × Value ω)) :
    l.foldl addAttribute payload = payload ++ l.filter (isNew payload) := by
  induction l generalizing payload with
  | nil => simp
  | cons e l ih =>
    rw [List.map_cons, List.nodup_cons] at hl
    rw [List.foldl_cons, ih hl.2, addAttribute_eq]
    split
    next hnew =>
      -- no later attribute has the key
      have hrest : l.filter (isNew (payload ++ [e])) = l.filter (isNew payload) := by
        refine List.filter_congr fun e' he' => ?_
        have hne : ¬e'.1 = e.1 := fun h => hl.1 (List.mem_map.mpr ⟨e', he', h⟩)
        have hkeys : ((payload ++ [e]).map Prod.fst).contains e'.1
            = (payload.map Prod.fst).contains e'.1 := by
          rw [Bool.eq_iff_iff, List.contains_iff_mem, List.contains_iff_mem]
          simp [hne]
        rw [isNew, isNew, hkeys]
      rw [hrest, List.filter_cons_of_pos hnew, List.append_assoc, List.singleton_append]
    next hold => rw [List.filter_cons_of_neg hold]

/-- An assignment to a key that the filter does not let pass. -/
theorem filter_assign {q : Str × Value ω → Bool} {k : Str} (hq : ∀ v, q (k, v) = false) (v : Value ω)
    (d : List (Str × Value ω)) : (assign k v d).filter q = d.filter q := by
  induction d with
  | nil => simp [assign, hq]
  | cons e d ih =>
    obtain ⟨k', v'⟩ := e
    by_cases hk : k' = k
    · subst hk
      simp [assign, hq]
    · rw [assign, if_neg hk, List.filter_cons, List.filter_cons, ih]

theorem requestId_contextFilter {ctx : RequestContext} {r : LogRecord ω}
    (h : truthy truth (recordRequestId truth ctx r) = true) :
    (contextFilter truth ctx r).attribute "request_id".toList = recordRequestId truth ctx r := by
  have hne : ¬"user_id".toList = "request_id".toList := by decide
  have hset : (if !truthy truth (r.attribute "request_id".toList)
        && truthy truth (contextRequestId ctx) then
      r.setAttribute "request_id".toList (contextRequestId ctx) else r).attribute
      "request_id".toList = recordRequestId truth ctx r := by
    unfold recordRequestId at h ⊢
    cases hr : truthy truth (r.attribute "request_id".toList) with
    | true => simp
    | false =>
      rw [hr, if_neg Bool.false_ne_true] at h
      simp [h, attribute_setAttribute]
  simp only [contextFilter]
  split
  · rw [attribute_setAttribute, if_neg hne, hset]
  · exact hset

theorem userId_contextFilter (ctx : RequestContext) (r : LogRecord ω) :
    (contextFilter truth ctx r).attribute "user_id".toList = recordUserId ctx r := by
  have hne : ¬"request_id".toList = "user_id".toList := by decide
  have hkeep : (if !truthy truth (r.attribute "request_id".toList)
        && truthy truth (contextRequestId ctx) then
      r.setAttribute "request_id".toList (contextRequestId ctx) else r).attribute
      "user_id".toList = r.attribute "user_id".toList := by
    split
    · rw [attribute_setAttribute, if_neg hne]
    · rfl
  have hnone : ∀ v : Value ω, isNone v = true → v = .none := by
    intro v hv
    cases v with
    | none => rfl
    | _ => cases hv
  simp only [contextFilter]
  unfold recordUserId
  cases hu : isNone (r.attribute "user_id".toList) with
  | false =>
    rw [Bool.false_and, if_neg Bool.false_ne_true, if_neg Bool.false_ne_true]
    exact hkeep
  | true =>
    rw [Bool.true_and, if_pos rfl]
    cases hc : isNone (contextUserId ctx : Value ω) with
    | false => rw [Bool.not_false, if_pos rfl, attribute_setAttribute, if_pos rfl]
    | true =>
      rw [Bool.not_true, if_neg Bool.false_ne_true, hkeep, hnone _ hc, hnone _ hu]

/-- The ids that the filter has found are those of the record from then on. -/
theorem ids_contextFilter {ctx : RequestContext} {r : LogRecord ω}
    (hrid : truthy truth (recordRequestId truth ctx r) = true)
    (huid : isNone (recordUserId ctx r : Value ω) = false) (ctx' : RequestContext) :
    recordRequestId truth ctx' (contextFilter truth ctx r) = recordRequestId truth ctx r ∧
      recordUserId ctx' (contextFilter truth ctx r) = (recordUserId ctx r : Value ω) := by
  constructor
  · rw [recordRequestId, requestId_contextFilter truth hrid, hrid, if_pos rfl]
  · rw [recordUserId, userId_contextFilter, huid, if_neg Bool.false_ne_true]

/-- The filter changes nothing but the attributes. -/
theorem data_contextFilter (ctx : RequestContext) (r : LogRecord ω) :
    (contextFilter truth ctx r).name = r.name ∧
      (contextFilter truth ctx r).level = r.level ∧
      (contextFilter truth ctx r).message = r.message ∧
      (contextFilter truth ctx r).exception = r.exception := by
  simp only [contextFilter]
  split <;> split <;> exact ⟨rfl, rfl, rfl, rfl⟩

theorem filter_contextFilter {q : Str × Value ω → Bool}
    (hrid : ∀ v, q ("request_id".toList, v) = false) (huid : ∀ v, q ("user_id".toList, v) = false)
    (ctx : RequestContext) (r : LogRecord ω) :
    (contextFilter truth ctx r).attributes.filter q = r.attributes.filter q := by
  simp only [contextFilter]
  split
  · split
    · exact (filter_assign huid _ _).trans (filter_assign hrid _ _)
    · exact filter_assign huid _ _
  · split
    · exact filter_assign hrid _ _
    · rfl

/--
**A filtered record has its line wherever it is formatted**: when the ids are known to the filter,
the context in which `format` runs makes no difference, and the line is the one that the record
would have had in the context of the filter.
-/
theorem format_contextFilter {ctx : RequestContext} {r : LogRecord ω}
    (hrid : truthy truth (recordRequestId truth ctx r) = true)
    (huid : isNone (recordUserId ctx r : Value ω) = false) (ctx' : RequestContext) :
    format w x truth ctx' (contextFilter truth ctx r) = format w x truth ctx r := by
  obtain ⟨hname, hlevel, hmessage, hexception⟩ := data_contextFilter truth ctx r
  obtain ⟨hrid', huid'⟩ := ids_contextFilter truth hrid huid ctx'
  have hown : ownPayload truth ctx' (contextFilter truth ctx r) = ownPayload truth ctx r := by
    simp only [ownPayload_eq, ownEntries, baseEntries, hname, hlevel, hmessage, hexception, hrid',
      huid']
  -- the two attributes that the filter has set are passed over, as the formatter has their keys
  have hkey : ∀ {k : Str} {v : Value ω}, (k, v) ∈ ownEntries truth ctx r → ∀ v',
      isNew (ownPayload truth ctx r) (k, v') = false := by
    intro k v hmem v'
    have hin : ((ownPayload truth ctx r).map Prod.fst).contains k = true := by
      rw [List.contains_iff_mem, ownPayload_eq]
      exact List.mem_map.mpr ⟨_, hmem, rfl⟩
    rw [isNew, hin, Bool.not_true, Bool.and_false]
  have hpayload : logPayload truth ctx' (contextFilter truth ctx r) = logPayload truth ctx r := by
    rw [logPayload, logPayload, foldl_addAttribute (LogRecord.distinct _), hown,
      foldl_addAttribute r.distinct]
    refine congrArg _ (filter_contextFilter truth (hkey (v := recordRequestId truth ctx r) ?_)
      (hkey (v := recordUserId ctx r) ?_) ctx r)
    · refine List.mem_append_left _ (List.mem_append_left _ (List.mem_append_right _ ?_))
      rw [if_pos hrid]
      exact .head _
    · refine List.mem_append_left _ (List.mem_append_right _ ?_)
      rw [huid, if_neg Bool.false_ne_true]
      exact .head _
  have hfallback : fallbackPayload truth ctx' (contextFilter truth ctx r)
      = fallbackPayload truth ctx r := by
    simp only [fallbackPayload, hname, hlevel, hmessage, hrid', huid']
  rw [format, format, hpayload, hfallback]

end Filter

/-! ## A line -/

/-- The keys of the formatter's own are not sensitive. -/
theorem sensitive_own {k : Str} (hk : k ∈ ["level".toList, "logger".toList, "message".toList,
    "request_id".toList, "user_id".toList]) : sensitive (.str k : Key ω) = false := by
  have hall : ∀ k ∈ ["level".toList, "logger".toList, "message".toList, "request_id".toList,
      "user_id".toList], sensitiveKeys.contains (lower k) = false := by decide
  exact hall k hk

/--
**The formatter's own fields are read from a log line.**  The text has no control character below
U+0020, and so no line feed.  What is read from it is an object without repeated keys, in which the
level, the logger, the message and the ids are those of the record, cut and redacted,
whatever attributes the record has besides.
-/
theorem log_line_read (truth : ω → Bool) (ctx : RequestContext) (r : LogRecord ω) {line : Str}
    (hfloat : (safePayload w x (strDict (emitted w x truth ctx r))).everywhere printedFloat = true)
    (hline : format w x truth ctx r = some line) :
    Visible line ∧ ∃ d : List (Str × Value ω), read line = some (strDict d) ∧
      (d.map Prod.fst).Nodup ∧
      ("level".toList, .str (redactStr w (safeStr r.level))) ∈ d ∧
      ("logger".toList, .str (redactStr w (safeStr r.name))) ∈ d ∧
      ("message".toList, .str (redactStr w (safeStr r.message))) ∈ d ∧
      (truthy truth (recordRequestId truth ctx r) = true → ("request_id".toList,
        redactObj w (toJsonable x maxJsonDepth (recordRequestId truth ctx r))) ∈ d) ∧
      (isNone (recordUserId ctx r : Value ω) = false → ("user_id".toList,
        redactObj w (toJsonable x maxJsonDepth (recordUserId ctx r))) ∈ d) := by
  have hreadable := everywhere_readable (plain_safePayload w x _) hfloat
  have hcarries := carries_emitted w x truth ctx r
  have hline := dumps_of_format w x truth ctx r hline
  have hread := read_dumps true hreadable hline
  rw [safePayload_strDict] at hread
  have hentry : ∀ {k : Str} {v : Value ω}, k ∈ ["level".toList, "logger".toList,
      "message".toList, "request_id".toList, "user_id".toList] → k.length ≤ maxStrLen →
      (k, v) ∈ emitted w x truth ctx r →
      (k, redactObj w (toJsonable x maxJsonDepth v)) ∈ safeEntries w x (emitted w x truth ctx r) := by
    intro k v hown hshort hmem
    have hsafe := mem_safeEntries w x hcarries.nodup hshort hmem
    rwa [safeValue, sensitive_own hown, if_neg Bool.false_ne_true] at hsafe
  have hstring : ∀ {k s : Str}, k ∈ ["level".toList, "logger".toList, "message".toList,
      "request_id".toList, "user_id".toList] → k.length ≤ maxStrLen →
      (k, .str s) ∈ emitted w x truth ctx r →
      (k, .str (redactStr w (safeStr s))) ∈ safeEntries w x (emitted w x truth ctx r) := by
    intro k s hown hshort hmem
    rw [← redactObj_str]
    exact hentry hown hshort hmem
  obtain ⟨m, hm, hsame⟩ := hcarries.message
  refine ⟨?_, _, hread, nodup_safeEntries w x _, ?_, ?_, ?_, fun h => ?_, fun h => ?_⟩
  · rw [dumps, Option.ite_none_right_eq_some, Option.some.injEq] at hline
    rw [← hline.2]
    exact visible_print true hreadable
  · exact hstring (by simp) (by decide) hcarries.level
  · exact hstring (by simp) (by decide) hcarries.logger
  · rw [← hsame]
    exact hstring (by simp) (by decide) hm
  · exact hentry (by simp) (by decide) (hcarries.requestId h)
  · exact hentry (by simp) (by decide) (hcarries.userId h)

/-! ## When there is a line -/

/-- No integer has more digits than are printed. -/
def printedInt : Value ω → Bool
  | .int n => printableInt n
  | _ => true

theorem writable_eq_printedInt {v : Value ω} (h : plain v = true) : writable v = printedInt v := by
  cases v with
  | dict items =>
    rw [plain, Bool.and_eq_true, List.all_eq_true] at h
    show (items.all fun e => writableKey e.1) = true
    rw [List.all_eq_true]
    intro e he
    obtain ⟨k, v⟩ := e
    cases k with
    | str s => rfl
    | _ => cases h.1 _ he
  | tuple xs => cases h
  | set xs => cases h
  | other o => cases h
  | model fields => cases h
  | dataclass fields => cases h
  | _ => rfl

/-- A plain value is written when its integers are. -/
theorem isSome_dumps_iff {v : Value ω} (h : v.everywhere plain = true) (spaced : Bool) :
    (dumps spaced v).isSome = true ↔ v.everywhere printedInt = true := by
  rw [dumps, Option.isSome_ite]
  constructor
  · exact Value.everywhere_of_and (fun v hplain hw => writable_eq_printedInt hplain ▸ hw) h
  · exact Value.everywhere_of_and (fun v hplain hp => (writable_eq_printedInt hplain).symm ▸ hp) h

theorem safeEntries_fallback (truth : ω → Bool) (ctx : RequestContext) (r : LogRecord ω) :
    safeEntries w x (fallbackPayload truth ctx r)
      = (fallbackPayload truth ctx r).map fun e => (e.1, safeValue w x e.1 e.2) := by
  have hshort : (fallbackPayload truth ctx r).map (fun e => (safeStr e.1, e.2))
      = fallbackPayload truth ctx r := rfl
  rw [safeEntries, hshort, dictOf_of_nodup (nodup_fallbackPayload truth ctx r)]

theorem jsonable_strDict (n : Nat) (d : List (Str × Value ω)) :
    jsonable x (n + 1) (strDict d) = d.all fun e => jsonable x n e.2 := by
  rw [strDict, jsonable, List.all_map]
  simp [Function.comp_def, Key.text?]

/-- The fallback holds nothing that the payload has not. -/
theorem jsonable_fallbackPayload {truth : ω → Bool} {ctx : RequestContext} {r : LogRecord ω}
    (h : jsonable x (maxJsonDepth + 1) (strDict (logPayload truth ctx r)) = true) :
    jsonable x (maxJsonDepth + 1) (strDict (fallbackPayload truth ctx r)) = true := by
  have hcarries := carries_logPayload truth ctx r
  rw [jsonable_strDict, List.all_eq_true] at h
  have hrid : jsonable x maxJsonDepth (recordRequestId truth ctx r) = true := by
    cases htruthy : truthy truth (recordRequestId truth ctx r) with
    | true => exact h _ (hcarries.requestId htruthy)
    | false =>
      unfold recordRequestId at htruthy ⊢
      split
      · next hattribute =>
        rw [if_pos hattribute, hattribute] at htruthy
        cases htruthy
      · unfold contextRequestId
        split
        · rfl
        · rfl
  have huid : jsonable x maxJsonDepth (recordUserId ctx r) = true := by
    cases hnone : isNone (recordUserId ctx r : Value ω) with
    | false => exact h _ (hcarries.userId hnone)
    | true =>
      cases hv : (recordUserId ctx r : Value ω) with
      | none => rfl
      | _ => simp [hv, isNone] at hnone
  rw [jsonable_strDict]
  simp only [fallbackPayload, List.all_cons, List.all_nil, hrid, huid]
  rfl

/-- What is printed of the fallback is printed when the ids are. -/
theorem everywhere_fallbackPayload (truth : ω → Bool) (ctx : RequestContext) (r : LogRecord ω) :
    (safePayload w x (strDict (fallbackPayload truth ctx r))).everywhere printedInt
      = ((redactObj w (toJsonable x maxJsonDepth (recordRequestId truth ctx r))).everywhere
          printedInt
        && (redactObj w (toJsonable x maxJsonDepth (recordUserId ctx r))).everywhere
          printedInt) := by
  have hvisible : ∀ {k : Str} (v : Value ω), sensitiveKeys.contains (lower k) = false →
      safeValue w x k v = redactObj w (toJsonable x maxJsonDepth v) := by
    intro k v hk
    have hk : sensitive (.str k : Key ω) = false := hk
    rw [safeValue, hk, if_neg Bool.false_ne_true]
  -- of the six entries only the ids may be anything but a string or a flag
  rw [safePayload_strDict, safeEntries_fallback, everywhere_strDict, List.all_map]
  simp only [fallbackPayload, List.all_cons, List.all_nil, Function.comp_apply]
  rw [hvisible _ (by decide), hvisible _ (by decide), hvisible _ (by decide),
    hvisible _ (by decide), hvisible _ (by decide), hvisible _ (by decide)]
  have hstr : ∀ s : Str, (redactObj w (toJsonable x maxJsonDepth (.str s))).everywhere printedInt
      = true := by
    intro s
    have htext : toJsonable x maxJsonDepth (.str s) = .str (safeStr s) := rfl
    rw [htext, redactObj_str]
    rfl
  have hflag : (redactObj w (toJsonable x maxJsonDepth (.bool true))).everywhere printedInt
      = true := by
    simp [toJsonable, maxJsonDepth, redactObj, Value.everywhere, printedInt]
  rw [hstr, hstr, hstr, hflag]
  simp [printedInt, strDict]

/--
**No value of a log line gives a token away**: in what is read from it no string but a key has a
token that is recognised, at any depth, and every sensitive entry is a mask, wherever in the record
the token came from.
-/
theorem log_line_clean (truth : ω → Bool) (ctx : RequestContext) (r : LogRecord ω) {line : Str}
    (hfloat : (safePayload w x (strDict (emitted w x truth ctx r))).everywhere printedFloat = true)
    (hline : format w x truth ctx r = some line) :
    ∃ v : Value ω, read line = some v ∧ TokenFree w v := by
  exact ⟨_, read_dumps true (everywhere_readable (plain_safePayload w x _) hfloat)
    (dumps_of_format w x truth ctx r hline), tokenFree_redactObj w _⟩

/-! ## A record with everything -/

/-- `logger.error("a\n%s", .., extra={"level": "debug", "n": 1.5})` -/
def forgedRecord : LogRecord Unit where
  name := "app".toList
  level := "error".toList
  message := "a\nBearer abc".toList
  exception := none
  attributes := [("msg".toList, .str "a\n%s".toList), ("level".toList, .str "debug".toList),
    ("n".toList, .float "1.5".toList), ("token".toList, .str "abc".toList)]
  distinct := by decide

/-- A request of the user 7. -/
def userContext : RequestContext :=
  { requestId := some "r1".toList, userId := some 7, clientIp := none, userAgent := none
    workspaceId := none }

def forgedLine : Str :=
  ("\x7b\"level\": \"error\", \"logger\": \"app\", \"message\": \"a\\nBearer ***\", ".toList
    ++ "\"request_id\": \"r1\", \"user_id\": 7, \"n\": 1.5, \"token\": \"***\"\x7d".toList)

theorem format_forged :
    format asciiWords noObjects (fun _ => true) userContext forgedRecord = some forgedLine := by
  decide

theorem printedFloat_forged : (safePayload asciiWords noObjects (strDict (emitted asciiWords
    noObjects (fun _ => true) userContext forgedRecord))).everywhere printedFloat = true := by
  decide

theorem log_line_read_forged : ∃ d : List (Str × Value Unit),
    read forgedLine = some (strDict d) ∧ ("level".toList, .str "error".toList) ∈ d := by
  obtain ⟨-, d, hread, -, hlevel, -⟩ := log_line_read asciiWords noObjects (fun _ => true)
    userContext forgedRecord printedFloat_forged format_forged
  have hlower : redactStr asciiWords (safeStr forgedRecord.level)
      = "error".toList := by decide
  exact ⟨d, hread, hlower ▸ hlevel⟩

theorem log_line_clean_forged :
    ∃ v : Value Unit, read forgedLine = some v ∧ TokenFree asciiWords v :=
  log_line_clean asciiWords noObjects (fun _ => true) userContext forgedRecord
    printedFloat_forged format_forged

theorem format_contextFilter_forged :
    format asciiWords noObjects (fun _ => true) .cleared
        (contextFilter (fun _ => true) userContext forgedRecord)
      = format asciiWords noObjects (fun _ => true) userContext forgedRecord :=
  format_contextFilter asciiWords noObjects (fun _ => true) (by decide) (by decide) .cleared

end EnterpriseAssistant.Core
