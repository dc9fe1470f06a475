import HelixRpc.Runtime.Go.Errors
import HelixRpc.Runtime.Go.Metadata

/-!
# The JWT middleware of the Go server

Model of `NewJWTMiddleware` (`runtimes/go/auth.go`).
-/

namespace HelixRpc.Runtime.Go

open List
variable {Values Claims : Type}

structure HttpRequest (Values : Type) where
  header : Header
  context : Context Values

inductive MiddlewareOutcome (Values : Type) where
  | next (ctx : Context Values)
  | response (status : Nat) (body : Text)

def jwtMiddleware (cfg : JWTAuth (Context Values) Claims) (r : HttpRequest Values) : MiddlewareOutcome Values :=
  match checkJWT fromContext cfg r.context with
  | .ok ctx => .next ctx
  | .error (.helix he) =>
    .response (mapToHTTPStatus he.code) ("\x7b\"error\":".toList ++ (cfg.quote he.message ++
      (",\"code\":".toList ++ (formatInt he.code ++ "\x7d".toList))))
  | .error (.other text) => .response 401 (text ++ "\n".toList)

def Accepts (cfg : JWTAuth (Context Values) Claims) (headers : Text → List Text) : Prop :=
  ∃ rawToken claims, cfg.tokenExtractor headers = .ok rawToken ∧ cfg.parse rawToken = .token claims ∧
    ∀ required ∈ cfg.requiredClaims, cfg.hasClaim claims required = true

section
variable {cfg : JWTAuth (Context Values) Claims} {ctx : Context Values}

theorem accepts_iff {headers : Text → List Text} {rawToken : Text}
    (hextract : cfg.tokenExtractor headers = .ok rawToken) :
    Accepts cfg headers ↔ ∃ claims, cfg.parse rawToken = .token claims ∧
      ∀ required ∈ cfg.requiredClaims, cfg.hasClaim claims required = true := by
  constructor
  · rintro ⟨rawToken', claims, hok, hrest⟩
    rw [hextract] at hok
    cases hok
    exact ⟨claims, hrest⟩
  · rintro ⟨claims, hrest⟩
    exact ⟨rawToken, claims, hextract, hrest⟩

theorem checkJWT_ok_iff : (∃ ctx', checkJWT fromContext cfg ctx = .ok ctx') ↔ Accepts cfg (fromContext ctx) := by
  unfold checkJWT
  cases hextract : cfg.tokenExtractor (fromContext ctx) with
  | error err =>
    refine iff_of_false (fun ⟨_, h⟩ => ?_) fun ⟨rawToken, _, hok, _⟩ => ?_
    · cases h
    · rw [hextract] at hok
      cases hok
  | ok rawToken =>
    rw [accepts_iff hextract]
    dsimp only
    cases cfg.parse rawToken with
    | expired => exact iff_of_false (fun ⟨_, h⟩ => by cases h) fun ⟨_, h, _⟩ => by cases h
    | invalid err => exact iff_of_false (fun ⟨_, h⟩ => by cases h) fun ⟨_, h, _⟩ => by cases h
    | badClaims => exact iff_of_false (fun ⟨_, h⟩ => by cases h) fun ⟨_, h, _⟩ => by cases h
    | token claims =>
      simp only [Parsed.token.injEq, exists_eq_left']
      split
      · rename_i required hfind
        have hmissing := find?_some hfind
        rw [Bool.not_eq_true'] at hmissing
        refine iff_of_false (fun ⟨_, h⟩ => ?_) fun hall => ?_
        · cases h
        · have hclaim := hall required (mem_of_find?_eq_some hfind)
          rw [hmissing] at hclaim
          cases hclaim
      · rename_i hfind
        refine iff_of_true ⟨_, rfl⟩ fun required hmem => ?_
        simpa using find?_eq_none.1 hfind required hmem

theorem checkJWT_error {err : GoError} (h : checkJWT fromContext cfg ctx = .error err) :
    cfg.tokenExtractor (fromContext ctx) = .error err ∨ ∃ he : HelixError, err = .helix he ∧ he.code ≠ 0 := by
  unfold checkJWT at h
  split at h
  · rename_i hextract
    exact .inl (hextract.trans (congrArg Except.error (Except.error.inj h)))
  · have hreject : ∀ {code : Int} {message : Text}, (reject code message : Except GoError (Context Values)) =
        .error err → code ≠ 0 → ∃ he : HelixError, err = .helix he ∧ he.code ≠ 0 :=
      fun heq hcode => ⟨_, (Except.error.inj heq).symm, hcode⟩
    right
    split at h
    · exact hreject h (by decide)
    · exact hreject h (by decide)
    · exact hreject h (by decide)
    · split at h
      · exact hreject h (by decide)
      · cases h
end

theorem mapToHTTPStatus_error {code : Int} (h : code ≠ 0) : 400 ≤ mapToHTTPStatus code := by
  unfold mapToHTTPStatus
  rw [if_neg h]
  split_ifs <;> decide

section
variable (cfg : JWTAuth (Context Values) Claims) (r : HttpRequest Values)

structure JudgesToken : Prop where
  called : (∃ ctx, jwtMiddleware cfg r = .next ctx) ↔ Accepts cfg r.header.values
  refused : ¬ Accepts cfg r.header.values → ∃ status body, jwtMiddleware cfg r = .response status body ∧ 400 ≤ status

variable {cfg r}

theorem jwtMiddleware_next_iff : (∃ ctx, jwtMiddleware cfg r = .next ctx) ↔ Accepts cfg (fromContext r.context) := by
  rw [← checkJWT_ok_iff]
  unfold jwtMiddleware
  cases checkJWT fromContext cfg r.context with
  | ok ctx => exact iff_of_true ⟨ctx, rfl⟩ ⟨ctx, rfl⟩
  | error err =>
    refine iff_of_false (fun ⟨_, h⟩ => ?_) fun ⟨_, h⟩ => ?_
    · cases err <;> cases h
    · cases h

theorem jwtMiddleware_refused (h : ¬ Accepts cfg (fromContext r.context))
    (hcode : ∀ he : HelixError, cfg.tokenExtractor (fromContext r.context) = .error (.helix he) → he.code ≠ 0) :
    ∃ status body, jwtMiddleware cfg r = .response status body ∧ 400 ≤ status := by
  rw [← checkJWT_ok_iff, not_exists] at h
  unfold jwtMiddleware
  cases hcheck : checkJWT fromContext cfg r.context with
  | ok ctx => exact absurd hcheck (h ctx)
  | error err =>
    cases err with
    | other text => exact ⟨401, _, rfl, by decide⟩
    | helix he =>
      have hne : he.code ≠ 0 := by
        rcases checkJWT_error hcheck with hextract | ⟨he', heq, hne⟩
        · exact hcode he hextract
        · cases heq
          exact hne
      exact ⟨_, _, rfl, mapToHTTPStatus_error hne⟩
end

/-- The middleware judges the token in the header of a request exactly if the metadata in the
context is judged alike, and the extractor does not fail on it with the code 0. -/
theorem jwtMiddleware_judges_iff (cfg : JWTAuth (Context Values) Claims) (r : HttpRequest Values) : JudgesToken cfg r ↔
      (Accepts cfg (fromContext r.context) ↔ Accepts cfg r.header.values) ∧
        ∀ he : HelixError, cfg.tokenExtractor (fromContext r.context) = .error (.helix he) → he.code ≠ 0 := by
  constructor
  · intro h
    have hsame : Accepts cfg (fromContext r.context) ↔ Accepts cfg r.header.values :=
      jwtMiddleware_next_iff.symm.trans h.called
    refine ⟨hsame, fun he hextract hzero => ?_⟩
    -- the code 0 is answered with the status 200
    have hcheck : checkJWT fromContext cfg r.context = .error (.helix he) := by rw [checkJWT, hextract]
    have hnot : ¬ Accepts cfg r.header.values := by
      rw [← hsame, ← checkJWT_ok_iff, hcheck]
      rintro ⟨ctx, hok⟩
      cases hok
    obtain ⟨status, body, hresponse, hstatus⟩ := h.refused hnot
    rw [jwtMiddleware, hcheck] at hresponse
    dsimp only at hresponse
    injection hresponse with hcode
    rw [← hcode, hzero] at hstatus
    exact absurd hstatus (by decide)
  · rintro ⟨hsame, hcode⟩
    refine ⟨jwtMiddleware_next_iff.trans hsame, fun hnot => ?_⟩
    exact jwtMiddleware_refused (mt hsame.1 hnot) hcode

def goodAuth : JWTAuth (Context Unit) Unit where
  tokenExtractor := defaultBearerExtractor
  parse := fun rawToken => if rawToken = "good".toList then .token () else .invalid "bad".toList
  hasClaim := fun _ _ => true
  requiredClaims := []
  quote := id
  contextWithClaims := fun ctx _ => ctx

def bearerHeader : Header where
  fields := [("Authorization".toList, ["Bearer good".toList])]
  distinct := pairwise_singleton _ _
  names := fun field hfield => by
    rw [mem_singleton.1 hfield]
    decide

def emptyHeader : Header := ⟨[], nodup_nil, fun _ hfield => absurd hfield not_mem_nil⟩

theorem jwtMiddleware_ignores_header : (Accepts goodAuth bearerHeader.values ∧
        jwtMiddleware goodAuth ⟨bearerHeader, ⟨none, ()⟩⟩ = .response 401
          "\x7b\"error\":missing Authorization header,\"code\":16\x7d".toList ∧
        ¬ JudgesToken goodAuth ⟨bearerHeader, ⟨none, ()⟩⟩) ∧ (¬ Accepts goodAuth emptyHeader.values ∧
        ∃ ctx, jwtMiddleware goodAuth ⟨emptyHeader, ⟨some bearerHeader.values, ()⟩⟩ = .next ctx) := by
  have hgood : Accepts goodAuth bearerHeader.values :=
    ⟨"good".toList, (), by rfl, by rfl, fun _ hrequired => absurd hrequired not_mem_nil⟩
  have hempty : ¬ Accepts goodAuth emptyHeader.values := by
    rintro ⟨rawToken, claims, hok, _⟩
    cases hok
  have hresponse : jwtMiddleware goodAuth ⟨bearerHeader, ⟨none, ()⟩⟩ = .response 401
      "\x7b\"error\":missing Authorization header,\"code\":16\x7d".toList := by rfl
  refine ⟨⟨hgood, hresponse, fun h => ?_⟩, hempty, jwtMiddleware_next_iff.2 hgood⟩
  obtain ⟨ctx, hnext⟩ := h.called.2 hgood
  rw [hresponse] at hnext
  cases hnext

end HelixRpc.Runtime.Go
