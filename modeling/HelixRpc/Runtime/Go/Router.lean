import Mathlib.Data.List.Basic

/-!
# Routing of the Go server

Model of the method table of `GRPCHandler` (`runtimes/go/grpc_handler.go`).
-/

namespace HelixRpc.Runtime.Go

open List
universe u

abbrev Text := List Char

def toUpper (s : Text) : Text := s.map Char.toUpper

def trimSlashes (path : Text) : Text := ((path.dropWhile (· = '/')).reverse.dropWhile (· = '/')).reverse

def splitPath (path : Text) : List Text :=
  let trimmed := trimSlashes path
  if trimmed = [] then [] else trimmed.splitOn '/'

def isParam (part : Text) : Bool := ['{'].isPrefixOf part && ['}'].isSuffixOf part

def paramName (part : Text) : Text := part.tail.dropLast

abbrev Params := List (Text × Text)

def paramValue (params : Params) (name : Text) : Option Text :=
  (params.reverse.find? fun entry => decide (entry.1 = name)).map Prod.snd

theorem paramValue_append (params later : Params) (name : Text) :
    paramValue (params ++ later) name = (paramValue later name).or (paramValue params name) := by
  rw [paramValue, paramValue, paramValue, reverse_append, find?_append]
  cases later.reverse.find? fun entry => decide (entry.1 = name) <;> rfl

theorem paramValue_singleton (key value name : Text) :
    paramValue [(key, value)] name = if key = name then some value else none := by
  rw [paramValue, reverse_singleton, find?_singleton]
  by_cases hkey : key = name
  all_goals simp [hkey]

theorem paramValue_eq_none_iff {params : Params} {name : Text} :
    paramValue params name = none ↔ name ∉ params.map Prod.fst := by
  simp only [paramValue, Option.map_eq_none_iff, find?_eq_none, mem_reverse,
    decide_eq_true_eq, mem_map, not_exists, not_and]

def matchParts : List Text → List Text → Params → Option Params
  | [], [], params => some params
  | part :: parts, reqPart :: reqParts, params =>
    if isParam part then matchParts parts reqParts (params ++ [(paramName part, reqPart)])
    else if part ≠ reqPart then none
    else matchParts parts reqParts params
  | _, _, _ => none

theorem matchParts_cons_eq_some {part reqPart : Text} {parts reqParts : List Text} {params found : Params}
    (h : matchParts (part :: parts) (reqPart :: reqParts) params = some found) :
    (isParam part = true ∧ matchParts parts reqParts (params ++ [(paramName part, reqPart)]) = some found) ∨
      (isParam part = false ∧ part = reqPart ∧ matchParts parts reqParts params = some found) := by
  rw [matchParts] at h
  split at h
  · exact .inl ⟨‹_›, h⟩
  · split at h
    · cases h
    · exact .inr ⟨Bool.eq_false_iff.2 ‹_›, not_not.1 ‹_›, h⟩

@[elab_as_elim]
theorem matchParts_induction {found : Params}
    {motive : (parts reqParts : List Text) → (params : Params) → matchParts parts reqParts params = some found → Prop}
    {parts reqParts : List Text} {params : Params}
    (h : matchParts parts reqParts params = some found)
    (done : motive [] [] found rfl)
    (param : ∀ {part reqPart parts reqParts params} (_ : isParam part = true)
      (hrest : matchParts parts reqParts (params ++ [(paramName part, reqPart)]) = some found)
      (hrun : matchParts (part :: parts) (reqPart :: reqParts) params = some found),
      motive parts reqParts (params ++ [(paramName part, reqPart)]) hrest →
        motive (part :: parts) (reqPart :: reqParts) params hrun)
    (literal : ∀ {part parts reqParts params} (_ : isParam part = false)
      (hrest : matchParts parts reqParts params = some found)
      (hrun : matchParts (part :: parts) (part :: reqParts) params = some found),
      motive parts reqParts params hrest → motive (part :: parts) (part :: reqParts) params hrun) :
    motive parts reqParts params h := by
  induction parts generalizing reqParts params with
  | nil =>
    cases reqParts with
    | nil =>
      cases h
      exact done
    | cons reqPart reqParts => cases h
  | cons part parts ih =>
    cases reqParts with
    | nil => cases h
    | cons reqPart reqParts =>
      rcases matchParts_cons_eq_some h with ⟨hparam, hrest⟩ | ⟨hparam, rfl, hrest⟩
      · exact param hparam hrest h (ih hrest)
      · exact literal hparam hrest h (ih hrest)

theorem matchParts_self (parts : List Text) (params : Params) : (matchParts parts parts params).isSome = true := by
  induction parts generalizing params with
  | nil => rfl
  | cons part parts ih =>
    rw [matchParts]
    split
    · exact ih _
    · rw [if_neg (not_not.2 rfl)]
      exact ih params

structure RESTRoute where
  method : Text
  pathParts : List Text
  handlerPath : Text
  deriving DecidableEq

def RESTRoute.params (r : RESTRoute) (method : Text) (reqParts : List Text) : Option Params :=
  if r.method ≠ method ∨ r.pathParts.length ≠ reqParts.length then none
  else matchParts r.pathParts reqParts []

def matchREST (method path : Text) (routes : List RESTRoute) : Option (RESTRoute × Params) :=
  let reqParts := splitPath path
  let method := toUpper method
  routes.findSome? fun r => (r.params method reqParts).map fun params => (r, params)

variable {μ : Type u}

structure MethodTable (μ : Type u) where
  methods : Text → Option μ
  restRoutes : List RESTRoute

namespace MethodTable

def empty : MethodTable μ := ⟨fun _ => none, []⟩

def registerMethod (t : MethodTable μ) (path : Text) (methodInfo : μ) : MethodTable μ :=
  { t with methods := Function.update t.methods path (some methodInfo) }

def registerRESTRoute (t : MethodTable μ) (method pattern handlerPath : Text) : MethodTable μ :=
  { t with restRoutes := t.restRoutes ++ [⟨toUpper method, splitPath pattern, handlerPath⟩] }

end MethodTable

inductive Routed (μ : Type u) where
  | debug
  | notFound
  | method (methodPath : Text) (pathParams : Params) (methodInfo : μ)
  deriving DecidableEq

def isDebugPath (path : Text) : Bool :=
  "/__helix/".toList.isPrefixOf path || path = "/metrics".toList || path = "/metrics/".toList

variable (t : MethodTable μ)

def MethodTable.find (methodPath : Text) (pathParams : Params) : Routed μ :=
  match t.methods methodPath with
  | some methodInfo => .method methodPath pathParams methodInfo
  | none => .notFound

def MethodTable.route (verb path : Text) (query : Params) : Routed μ :=
  if isDebugPath path then .debug
  else
    match matchREST verb path t.restRoutes with
    | some (r, params) => t.find r.handlerPath (params ++ query)
    | none => t.find path []

def MethodTable.dispatch (verb path : Text) : Option (μ × Params) :=
  match t.route verb path [] with
  | .method _ params methodInfo => some (methodInfo, params)
  | _ => none

section
variable {t : MethodTable μ} {verb path : Text} {r : RESTRoute} {params : Params}

theorem dispatch_of_debug (h : isDebugPath path = true) : t.dispatch verb path = none := by
  simp [MethodTable.dispatch, MethodTable.route, h]

theorem dispatch_of_rest (hdebug : isDebugPath path = false) (h : matchREST verb path t.restRoutes = some (r, params)) :
    t.dispatch verb path = (t.methods r.handlerPath).map fun info => (info, params) := by
  simp only [MethodTable.dispatch, MethodTable.route, hdebug, h, MethodTable.find]
  cases t.methods r.handlerPath with
  | none => rfl
  | some info => simp

theorem dispatch_of_path (hdebug : isDebugPath path = false) (h : matchREST verb path t.restRoutes = none) :
    t.dispatch verb path = (t.methods path).map fun info => (info, []) := by
  simp only [MethodTable.dispatch, MethodTable.route, hdebug, h, MethodTable.find]
  cases t.methods path with
  | none => rfl
  | some info => simp

theorem dispatch_eq_some_iff {info : μ} : t.dispatch verb path = some (info, params) ↔ isDebugPath path = false ∧
      ((∃ r, matchREST verb path t.restRoutes = some (r, params) ∧ t.methods r.handlerPath = some info) ∨
        (matchREST verb path t.restRoutes = none ∧ params = [] ∧ t.methods path = some info)) := by
  cases hdebug : isDebugPath path with
  | true => simp [dispatch_of_debug hdebug]
  | false =>
    cases hmatch : matchREST verb path t.restRoutes with
    | none =>
      rw [dispatch_of_path hdebug hmatch]
      simp only [Option.map_eq_some_iff, Prod.mk.injEq, reduceCtorEq, false_and, exists_false, false_or, true_and]
      constructor
      · rintro ⟨info', hinfo, rfl, rfl⟩
        exact ⟨rfl, hinfo⟩
      · rintro ⟨rfl, hinfo⟩
        exact ⟨info, hinfo, rfl, rfl⟩
    | some found =>
      obtain ⟨r, params'⟩ := found
      rw [dispatch_of_rest hdebug hmatch]
      simp only [Option.map_eq_some_iff, Option.some.injEq, Prod.mk.injEq, true_and, reduceCtorEq, false_and, or_false]
      constructor
      · rintro ⟨info', hinfo, rfl, rfl⟩
        exact ⟨r, ⟨rfl, rfl⟩, hinfo⟩
      · rintro ⟨r', ⟨rfl, rfl⟩, hinfo⟩
        exact ⟨info, hinfo, rfl, rfl⟩
end

def RESTRoute.fits (r : RESTRoute) (path : Text) : Bool := (matchParts r.pathParts (splitPath path) []).isSome

def RESTRoute.takes (r : RESTRoute) (verb path : Text) : Bool := (r.params (toUpper verb) (splitPath path)).isSome

variable {parts reqParts : List Text}

theorem length_eq_of_matchParts {params : Params}
    (h : (matchParts parts reqParts params).isSome = true) : parts.length = reqParts.length := by
  obtain ⟨found, hfound⟩ := Option.isSome_iff_exists.1 h
  clear h
  induction hfound using matchParts_induction with
  | done => rfl
  | param _ _ _ ih => rw [length_cons, length_cons, ih]
  | literal _ _ _ ih => rw [length_cons, length_cons, ih]

variable {r : RESTRoute} {verb path : Text} {routes : List RESTRoute}

theorem takes_iff : r.takes verb path = true ↔ r.method = toUpper verb ∧ r.fits path = true := by
  rw [RESTRoute.takes, RESTRoute.params, RESTRoute.fits]
  split
  · rename_i hne
    refine ⟨nofun, ?_⟩
    rintro ⟨hmethod, hparts⟩
    rcases hne with hne | hne
    · exact absurd hmethod hne
    · exact absurd (length_eq_of_matchParts hparts) hne
  · rename_i hne
    exact ⟨fun h => ⟨not_not.1 fun hmethod => hne (.inl hmethod), h⟩, And.right⟩

variable {verb path : Text}

def PartMatches (part segment : Text) : Prop := isParam part = true ∨ part = segment

structure RESTRoute.Matches (r : RESTRoute) (verb path : Text) : Prop where
  method : r.method = toUpper verb
  segments : Forall₂ PartMatches r.pathParts (splitPath path)

theorem matchParts_isSome_iff {params : Params} :
    (matchParts parts reqParts params).isSome = true ↔ Forall₂ PartMatches parts reqParts := by
  induction parts generalizing reqParts params with
  | nil =>
    cases reqParts with
    | nil => exact ⟨fun _ => .nil, fun _ => rfl⟩
    | cons reqPart reqParts => exact ⟨nofun, nofun⟩
  | cons part parts ih =>
    cases reqParts with
    | nil => exact ⟨nofun, nofun⟩
    | cons reqPart reqParts =>
      rw [matchParts, forall₂_cons, PartMatches]
      cases hparam : isParam part with
      | true => simp [ih]
      | false =>
        by_cases heq : part = reqPart
        · simp [heq, ih]
        · simp [heq]

theorem matches_iff_takes : r.Matches verb path ↔ r.takes verb path = true := by
  rw [takes_iff, RESTRoute.fits, matchParts_isSome_iff]
  exact ⟨fun h => ⟨h.method, h.segments⟩, fun h => ⟨h.1, h.2⟩⟩

/-- The first route of a table that matches a request. -/
def FirstMatch (routes : List RESTRoute) (verb path : Text) (r : RESTRoute) : Prop :=
  ∃ before after, routes = before ++ r :: after ∧ r.Matches verb path ∧ ∀ r' ∈ before, ¬ r'.Matches verb path

theorem matchREST_eq_none_iff : matchREST verb path routes = none ↔ ∀ r ∈ routes, ¬ r.Matches verb path := by
  simp [matchREST, matches_iff_takes, RESTRoute.takes]

theorem matchREST_eq_some_iff :
    (∃ params, matchREST verb path routes = some (r, params)) ↔ FirstMatch routes verb path r := by
  constructor
  · rintro ⟨params, h⟩
    obtain ⟨before, r', after, hroutes, hr', hbefore⟩ := findSome?_eq_some_iff.1 h
    obtain ⟨params', hparams, heq⟩ := Option.map_eq_some_iff.1 hr'
    cases heq
    refine ⟨before, after, hroutes, matches_iff_takes.2 ?_, fun r'' hr'' => ?_⟩
    · rw [RESTRoute.takes, hparams]
      rfl
    · rw [matches_iff_takes, RESTRoute.takes, Option.map_eq_none_iff.1 (hbefore r'' hr'')]
      exact Bool.false_ne_true
  · rintro ⟨before, after, hroutes, hmatches, hbefore⟩
    obtain ⟨params, hparams⟩ := Option.isSome_iff_exists.1 (matches_iff_takes.1 hmatches)
    refine ⟨params, findSome?_eq_some_iff.2 ⟨before, r, after, hroutes, ?_, fun r' hr' => ?_⟩⟩
    · rw [hparams]
      rfl
    · rw [Option.map_eq_none_iff, ← Option.not_isSome_iff_eq_none]
      exact mt matches_iff_takes.2 (hbefore r' hr')

def paramNames (parts : List Text) : List Text := (parts.filter isParam).map paramName

def substitute (params : Params) (part : Text) : Option Text :=
  if isParam part then paramValue params (paramName part) else some part

theorem substitute_cons {name value part : Text} {params : Params} (h : isParam part = true → paramName part ≠ name) :
    substitute ((name, value) :: params) part = substitute params part := by
  unfold substitute
  split
  · rename_i hparam
    rw [← singleton_append, paramValue_append, paramValue_singleton, if_neg fun heq => h hparam heq.symm,
      Option.or_none]
  · rfl

theorem matchParts_spec {params found : Params} (h : matchParts parts reqParts params = some found) : ∃ later, found =
    params ++ later ∧ later.map Prod.fst = paramNames parts ∧ ((paramNames parts).Nodup →
    parts.map (substitute later) = reqParts.map some) := by
  induction h using matchParts_induction with
  | done => exact ⟨[], (append_nil _).symm, rfl, fun _ => rfl⟩
  | @param part reqPart parts reqParts params hparam _ _ ih =>
    obtain ⟨later, hfound, hnames, hsubst⟩ := ih
    have hparts : paramNames (part :: parts) = paramName part :: paramNames parts := by
      rw [paramNames, filter_cons_of_pos hparam, map_cons, paramNames]
    refine ⟨(paramName part, reqPart) :: later, ?_, ?_, ?_⟩
    · rw [hfound, append_assoc, singleton_append]
    · rw [hparts, map_cons, hnames]
    · rw [hparts]
      intro hnodup
      obtain ⟨hfresh, hrest⟩ := nodup_cons.1 hnodup
      have hhead : substitute ((paramName part, reqPart) :: later) part = some reqPart := by
        rw [substitute, if_pos hparam, ← singleton_append, paramValue_append, paramValue_singleton, if_pos rfl,
          paramValue_eq_none_iff.2 (hnames ▸ hfresh), Option.none_or]
      have htail : parts.map (substitute ((paramName part, reqPart) :: later)) = parts.map (substitute later) :=
        map_congr_left fun part' hmem => substitute_cons fun hparam' heq =>
          hfresh (mem_map.2 ⟨part', mem_filter.2 ⟨hmem, hparam'⟩, heq⟩)
      rw [map_cons, map_cons, hhead, htail, hsubst hrest]
  | @literal part parts reqParts params hparam _ _ ih =>
    obtain ⟨later, hfound, hnames, hsubst⟩ := ih
    have hparts : paramNames (part :: parts) = paramNames parts := by
      rw [paramNames, filter_cons_of_neg (by rw [hparam]; nofun), paramNames]
    refine ⟨later, hfound, hnames.trans hparts.symm, fun hnodup => ?_⟩
    rw [map_cons, map_cons, hsubst (hparts ▸ hnodup), substitute, hparam, if_neg Bool.false_ne_true]

theorem matchREST_first_match (verb path : Text) (routes : List RESTRoute) :
    (matchREST verb path routes = none ↔ ∀ r ∈ routes, ¬ r.Matches verb path) ∧
      ∀ r params, matchREST verb path routes = some (r, params) →
        (∃ before after, routes = before ++ r :: after ∧ r.Matches verb path ∧
          ∀ r' ∈ before, ¬ r'.Matches verb path) ∧
        ((paramNames r.pathParts).Nodup → r.pathParts.map (substitute params) = (splitPath path).map some) := by
  refine ⟨matchREST_eq_none_iff, fun r params h => ⟨matchREST_eq_some_iff.1 ⟨params, h⟩, fun hnodup => ?_⟩⟩
  obtain ⟨r', -, hr'⟩ := exists_of_findSome?_eq_some h
  obtain ⟨params', hparams, heq⟩ := Option.map_eq_some_iff.1 hr'
  cases heq
  rw [RESTRoute.params] at hparams
  split at hparams
  · cases hparams
  · obtain ⟨later, rfl, -, hsubst⟩ := matchParts_spec hparams
    exact hsubst hnodup

end HelixRpc.Runtime.Go
