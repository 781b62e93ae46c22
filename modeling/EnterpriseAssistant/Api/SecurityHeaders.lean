import EnterpriseAssistant.Api.Answers

/-!
# Security headers

`app/api/middleware/security_headers.py` around the other middlewares, in the order in which
`app/main.py` adds them.  The CORS middleware is the library's, a parameter here.

* `secured_iff` — which answers leave with the security headers
-/

namespace EnterpriseAssistant.Api

open Py Core Audit Program

variable {ω : Type}

/-! ## The middleware -/

/-- The arguments of its constructor; `main.py` passes `csp`, and the defaults of the others. -/
structure SecurityHeadersMiddleware where
  hsts : Bool := true
  hstsMaxAge : Int
  includeSubdomains : Bool := true
  preload : Bool := false
  xContentTypeOptions : Bool := true
  xFrameOptions : Str
  referrerPolicy : Str
  permissionsPolicy : Str
  csp : Option Str := none

namespace SecurityHeadersMiddleware

variable (self : SecurityHeadersMiddleware)

/-- The value of `Strict-Transport-Security`. -/
def hstsValue : Str :=
  "max-age=".toList ++ str self.hstsMaxAge ++
    (if self.includeSubdomains then "; includeSubDomains".toList else []) ++
    (if self.preload then "; preload".toList else [])

/-- A header that is set where its value is not empty. -/
def nonempty (name : String) (value : Str) : List (Str × Str) :=
  if value = [] then [] else [(lower name.toList, value)]

/-- What `dispatch` sets, in this order. -/
def headers (scheme : Str) : List (Str × Str) :=
  (if self.hsts = true ∧ scheme = "https".toList then
    [(lower "Strict-Transport-Security".toList, self.hstsValue)] else []) ++
  ((if self.xContentTypeOptions then
    [(lower "X-Content-Type-Options".toList, "nosniff".toList)] else []) ++
  (nonempty "X-Frame-Options" self.xFrameOptions ++
  (nonempty "Referrer-Policy" self.referrerPolicy ++
  (nonempty "Permissions-Policy" self.permissionsPolicy ++
  nonempty "Content-Security-Policy" (self.csp.getD [])))))

/-- The values can be encoded: Starlette takes latin-1 for headers. -/
def encodable (scheme : Str) : Bool :=
  (self.headers scheme).all fun h => h.2.all fun c => c.toNat ≤ 255

/-- The response with the headers. -/
def secured (scheme : Str) (a : Answer ω) : Answer ω :=
  { a with headers := (self.headers scheme).foldl (fun hs h => setHeader h.1 h.2 hs) a.headers }

/-- `dispatch`, behind its `call_next`. -/
def dispatch (scheme : Str) (a : Answer ω) : Except Str (Answer ω) :=
  if self.encodable scheme then .ok (self.secured scheme a)
  else .error "UnicodeEncodeError".toList

end SecurityHeadersMiddleware

/-- The CORS middleware: it answers a preflight request itself, and adds to other responses. -/
structure Cors (ω : Type) where
  preflight : Request → Option (Answer ω)
  respond : Request → Answer ω → Answer ω

/-! ## A request through all middlewares -/

section Requests

variable (rt : Runtime ω) (fresh uuid : Str) (took : Nat) (req : Request)

/-- The response of `RequestContextMiddleware`, or the class of what comes out of it. -/
def Endpoint.returned (e : Endpoint ω) : Except Str (Answer ω) :=
  match e.ending with
  | .responds response headers =>
    .ok (Answer.stamped fresh took req
      { status := response.status, headers := headers, content := none })
  | .raises exc _ =>
    match exc.handledIn rt fresh uuid req with
    | none => .error exc.className
    | some handled =>
      match handled.response with
      | .ok resp => .ok (resp.answer.stamped fresh took req)
      | .error err => .error (rt.raised err)

/-- What comes back to `SecurityHeadersMiddleware`. -/
def Endpoint.inner (cors : Cors ω) (e : Endpoint ω) : Except Str (Answer ω) :=
  match cors.preflight req with
  | some a => .ok a
  | none => (e.returned rt fresh uuid took req).map (cors.respond req)

/-- What the client gets from the application as `main.py` puts it together: the handler for
unhandled errors stands outside of all middlewares. -/
def Endpoint.delivered (mw : SecurityHeadersMiddleware) (cors : Cors ω) (scheme : Str)
    (e : Endpoint ω) : Option (Answer ω) :=
  match e.inner rt fresh uuid took req cors >>= mw.dispatch scheme with
  | .ok a => some a
  | .error className => unhandledAnswer rt fresh uuid req className

/-- The exception of the endpoint has no handler, or one that cannot build its response. -/
def Endpoint.Unhandled (e : Endpoint ω) : Prop :=
  ∃ exc status_ge, e.ending = .raises exc status_ge ∧
    ∀ handled, ¬exc.AnsweredBy rt fresh uuid req handled

end Requests

/-! ## Setting headers -/

/-- Headers of other names come through. -/
theorem filter_setAll_of_notMem {set : List (Str × Str)} {name : Str}
    (hnot : name ∉ set.map Prod.fst) (hs : List (Str × Str)) :
    ((set.foldl (fun hs h => setHeader h.1 h.2 hs) hs).filter fun h => h.1 == name)
      = hs.filter fun h => h.1 == name := by
  induction set generalizing hs with
  | nil => rfl
  | cons h set ih =>
    obtain ⟨hne, hrest⟩ := not_or.mp (List.mem_cons.not.mp hnot)
    rw [List.foldl_cons, ih hrest, filter_setHeader_of_ne hne]

/-- Each header that is set is there once, with its value. -/
theorem filter_setAll {set : List (Str × Str)} (hnodup : (set.map Prod.fst).Nodup)
    (hs : List (Str × Str)) : ∀ h ∈ set,
      ((set.foldl (fun hs h => setHeader h.1 h.2 hs) hs).filter fun x => x.1 == h.1) = [h] := by
  induction set generalizing hs with
  | nil => exact fun h hh => nomatch hh
  | cons h set ih =>
    obtain ⟨hnot, hrest⟩ := List.nodup_cons.mp hnodup
    intro h' hh'
    rw [List.foldl_cons]
    rcases List.mem_cons.mp hh' with rfl | hh'
    · rw [filter_setAll_of_notMem hnot, filter_setHeader]
    · exact ih hrest _ h' hh'

/-! ## The headers of the middleware -/

namespace SecurityHeadersMiddleware

def headerNames : List Str :=
  ["strict-transport-security".toList, "x-content-type-options".toList, "x-frame-options".toList,
    "referrer-policy".toList, "permissions-policy".toList, "content-security-policy".toList]

theorem nonempty_sublist (name : String) (value : Str) :
    List.Sublist ((nonempty name value).map Prod.fst) [lower name.toList] := by
  unfold nonempty
  split
  · exact List.nil_sublist _
  · exact List.Sublist.refl _

theorem headers_sublist (self : SecurityHeadersMiddleware) (scheme : Str) :
    List.Sublist ((self.headers scheme).map Prod.fst) headerNames := by
  have hone : ∀ (b : Prop) [Decidable b] (name value : Str),
      List.Sublist ((if b then [(name, value)] else []).map Prod.fst) [name] := by
    intro b _ name value
    split
    · exact List.Sublist.refl _
    · exact List.nil_sublist _
  simp only [headers, List.map_append]
  exact (hone _ _ _).append ((hone _ _ _).append ((nonempty_sublist _ _).append
    ((nonempty_sublist _ _).append ((nonempty_sublist _ _).append (nonempty_sublist _ _)))))

theorem nodup_headers (self : SecurityHeadersMiddleware) (scheme : Str) :
    ((self.headers scheme).map Prod.fst).Nodup :=
  (self.headers_sublist scheme).nodup (by decide)

/-- The middleware of `main.py` always has something to set. -/
theorem headers_ne_nil {self : SecurityHeadersMiddleware} (h : self.xContentTypeOptions = true)
    (scheme : Str) : self.headers scheme ≠ [] := by
  refine List.ne_nil_of_mem (a := (lower "X-Content-Type-Options".toList, "nosniff".toList)) ?_
  refine List.mem_append_right _ (List.mem_append_left _ ?_)
  rw [if_pos h]
  exact List.mem_singleton_self _

end SecurityHeadersMiddleware

/-! ## What the client gets -/

/-- The answer has each of these headers once. -/
def Answer.Has (a : Answer ω) (headers : List (Str × Str)) : Prop :=
  ∀ h ∈ headers, (a.headers.filter fun x => x.1 == h.1) = [h]

theorem has_headers (mw : SecurityHeadersMiddleware) (scheme : Str) (a : Answer ω) :
    (mw.secured scheme a).Has (mw.headers scheme) :=
  filter_setAll (mw.nodup_headers scheme) a.headers

section Delivered

variable {rt : Runtime ω} {fresh uuid : Str} {took : Nat} {req : Request}

/-- An unhandled error is answered with the id of the request and with no other header. -/
theorem not_has_unhandledAnswer {className : Str} {a : Answer ω}
    (h : unhandledAnswer rt fresh uuid req className = some a) {mw : SecurityHeadersMiddleware}
    {scheme : Str} (hmw : mw.headers scheme ≠ []) : ¬a.Has (mw.headers scheme) := by
  intro hhas
  obtain ⟨x, hx⟩ := List.exists_mem_of_ne_nil _ hmw
  have hname : x.1 ≠ lower hdrRequestId := by
    have hall : ∀ name ∈ SecurityHeadersMiddleware.headerNames, name ≠ lower hdrRequestId := by
      decide
    exact hall _ ((mw.headers_sublist scheme).subset (List.mem_map_of_mem hx))
  have hmem : x ∈ a.headers := by
    refine List.mem_of_mem_filter (p := fun y => y.1 == x.1) ?_
    rw [hhas x hx]
    exact List.mem_singleton_self x
  unfold unhandledAnswer at h
  split at h
  · next resp _ =>
    cases h
    rw [JSONResponse.answer, List.mem_singleton] at hmem
    exact hname (congrArg Prod.fst hmem)
  · cases h

theorem returned_cases (e : Endpoint ω) :
    (∃ a, e.returned rt fresh uuid took req = .ok a ∧ ¬e.Unhandled rt fresh uuid req) ∨
      ∃ className, e.returned rt fresh uuid took req = .error className ∧
        e.Unhandled rt fresh uuid req := by
  unfold Endpoint.returned Endpoint.Unhandled
  cases hend : e.ending with
  | responds response headers =>
    refine Or.inl ⟨_, rfl, ?_⟩
    rintro ⟨exc, status_ge, heq, -⟩
    cases heq
  | raises exc status_ge =>
    cases hhandled : exc.handledIn rt fresh uuid req with
    | none =>
      refine Or.inr ⟨exc.className, by simp only [hhandled], exc, status_ge, rfl, ?_⟩
      rintro handled ⟨heq, -⟩
      rw [hhandled] at heq
      cases heq
    | some handled =>
      cases hresp : handled.response with
      | ok resp =>
        refine Or.inl ⟨resp.answer.stamped fresh took req, by simp only [hhandled, hresp], ?_⟩
        rintro ⟨exc', status_ge', heq, hnot⟩
        cases heq
        exact hnot handled ⟨hhandled, resp, hresp⟩
      | error err =>
        refine Or.inr ⟨rt.raised err, by simp only [hhandled, hresp], exc, status_ge, rfl, ?_⟩
        rintro handled' ⟨heq, resp, hok⟩
        rw [hhandled] at heq
        cases heq
        rw [hresp] at hok
        cases hok

/-- What comes back is a response to a preflight request, or of an endpoint or a handler. -/
theorem inner_cases (cors : Cors ω) (e : Endpoint ω) :
    (∃ a, e.inner rt fresh uuid took req cors = .ok a ∧
        (cors.preflight req ≠ none ∨ ¬e.Unhandled rt fresh uuid req)) ∨
      ∃ className, e.inner rt fresh uuid took req cors = .error className ∧
        ¬(cors.preflight req ≠ none ∨ ¬e.Unhandled rt fresh uuid req) := by
  unfold Endpoint.inner
  cases hpreflight : cors.preflight req with
  | some a => exact Or.inl ⟨a, rfl, Or.inl (by simp)⟩
  | none =>
    rcases @returned_cases ω rt fresh uuid took req e with
      ⟨a, hreturned, hhandled⟩ | ⟨className, hreturned, hunhandled⟩
    · exact Or.inl ⟨cors.respond req a, by rw [hreturned]; rfl, Or.inr hhandled⟩
    · refine Or.inr ⟨className, by rw [hreturned]; rfl, ?_⟩
      rintro (hne | hnot)
      · exact hne rfl
      · exact hnot hunhandled

end Delivered

/--
**The answers that leave with the security headers**, each of them once: those to preflight
requests, and all others but those to errors that no handler answers; with a value that is not
latin-1 none does.
-/
theorem secured_iff (rt : Runtime ω) {fresh : Str} (hfresh : SafeId fresh) (uuid : Str)
    (took : Nat) (req : Request) (mw : SecurityHeadersMiddleware) (cors : Cors ω) {scheme : Str}
    (hmw : mw.headers scheme ≠ []) (e : Endpoint ω) :
    ∃ a, e.delivered rt fresh uuid took req mw cors scheme = some a ∧
      (a.Has (mw.headers scheme) ↔ mw.encodable scheme = true ∧
        (cors.preflight req ≠ none ∨ ¬e.Unhandled rt fresh uuid req)) := by
  have hunhandled : ∀ className, ∃ a, unhandledAnswer rt fresh uuid req className = some a ∧
      ¬a.Has (mw.headers scheme) := by
    intro className
    obtain ⟨a, -, hanswer, -⟩ := @unhandled_carries ω rt fresh uuid req hfresh className
    exact ⟨a, hanswer, not_has_unhandledAnswer hanswer hmw⟩
  unfold Endpoint.delivered
  rcases @inner_cases ω rt fresh uuid took req cors e with
    ⟨a, hinner, hreached⟩ | ⟨className, hinner, hnot⟩
  · have hend : (e.inner rt fresh uuid took req cors >>= mw.dispatch scheme)
        = mw.dispatch scheme a := by
      rw [hinner]
      rfl
    rw [hend, SecurityHeadersMiddleware.dispatch]
    by_cases hencodable : mw.encodable scheme = true
    · rw [if_pos hencodable]
      exact ⟨_, rfl, iff_of_true (has_headers mw scheme a) ⟨hencodable, hreached⟩⟩
    · rw [if_neg hencodable]
      obtain ⟨a', hanswer, hno⟩ := hunhandled "UnicodeEncodeError".toList
      exact ⟨a', hanswer, iff_of_false hno fun h => hencodable h.1⟩
  · obtain ⟨a, hanswer, hno⟩ := hunhandled className
    rw [hinner]
    exact ⟨a, hanswer, iff_of_false hno fun h => hnot h.2⟩

/-- The deployment without a setting of its own. -/
def plainHeaders : SecurityHeadersMiddleware :=
  { hstsMaxAge := 15552000, xFrameOptions := "DENY".toList, referrerPolicy := "no-referrer".toList
    permissionsPolicy := [] }

def noCors : Cors Empty where
  preflight _ := none
  respond _ a := a

theorem secured_iff_unknownPath :
    ∃ a, notFound.delivered jsonRuntime someHex [] 3 unknownPath plainHeaders noCors "https".toList
        = some a ∧ a.Has (plainHeaders.headers "https".toList) := by
  obtain ⟨a, hanswer, hiff⟩ := secured_iff jsonRuntime safeId_someHex [] 3 unknownPath plainHeaders
    noCors (SecurityHeadersMiddleware.headers_ne_nil rfl "https".toList) notFound
  refine ⟨a, hanswer, hiff.mpr ⟨by decide, Or.inr ?_⟩⟩
  rintro ⟨exc, status_ge, hend, hnot⟩
  cases hend
  exact hnot _ ⟨rfl, _, rfl⟩

end EnterpriseAssistant.Api
