import HelixRpc.Runtime.Go.Router

/-!
# The REST routers of Node and Rust

Model of `matchREST` and `splitPath` (`runtimes/node/src/server.ts`), and of `RestRoute::new` with the loop over the
routes (`runtimes/rust/src/server.rs`). The router of Go is the one of `Runtime.Go.Router`.
-/

namespace HelixRpc.Runtime

open Runtime.Go List Option

namespace Node

def splitPath (path : Text) : List Text :=
  let trimmed := trimSlashes path
  if trimmed = [] then [] else trimmed.splitOn '/'

def protoName : Text := "__proto__".toList

def assign (params : Params) (name value : Text) : Params :=
  if name = protoName then params else params ++ [(name, value)]

def matchParts : List Text → List Text → Params → Option Params
  | [], [], params => some params
  | part :: parts, reqPart :: reqParts, params =>
    if isParam part then matchParts parts reqParts (assign params (paramName part) reqPart)
    else if part ≠ reqPart then none
    else matchParts parts reqParts params
  | _, _, _ => none

structure RESTRoute where
  method : Text
  pattern : Text
  handlerPath : Text
  deriving DecidableEq

def RESTRoute.params (r : RESTRoute) (method : Text) (reqParts : List Text) : Option Params :=
  let routeParts := splitPath r.pattern
  if r.method ≠ method ∨ routeParts.length ≠ reqParts.length then none
  else matchParts routeParts reqParts []

def matchREST (method path : Text) (routes : List RESTRoute) : Option (RESTRoute × Params) :=
  let reqParts := splitPath path
  let method := toUpper method
  routes.findSome? fun r => (r.params method reqParts).map fun params => (r, params)

def registeredRoute (method pattern handlerPath : Text) : RESTRoute := ⟨toUpper method, pattern, handlerPath⟩

end Node

namespace Rust

def pathParts (path : Text) : List Text := ((trimSlashes path).splitOn '/').filter fun part => decide (part ≠ [])

structure RestRoute where
  method : Text
  pattern : Text
  pathParts : List Text
  handlerPath : Text
  deriving DecidableEq

def RestRoute.new (method pattern handlerPath : Text) : RestRoute :=
  ⟨toUpper method, pattern, Rust.pathParts pattern, handlerPath⟩

def RestRoute.params (r : RestRoute) (reqMethod : Text) (reqParts : List Text) : Option Params :=
  if r.method = reqMethod then
    if r.pathParts.length = reqParts.length then matchParts r.pathParts reqParts [] else none
  else none

def matchRoutes (reqMethod path : Text) (routes : List RestRoute) : Option (RestRoute × Params) :=
  routes.findSome? fun r => (r.params reqMethod (pathParts path)).map fun params => (r, params)

end Rust

structure RouteSpec where
  method : Text
  pattern : Text
  handlerPath : Text
  deriving DecidableEq

namespace RouteSpec

def go (s : RouteSpec) : RESTRoute := ⟨toUpper s.method, Go.splitPath s.pattern, s.handlerPath⟩

def node (s : RouteSpec) : Node.RESTRoute := Node.registeredRoute s.method s.pattern s.handlerPath

def rust (s : RouteSpec) : Rust.RestRoute := Rust.RestRoute.new s.method s.pattern s.handlerPath

end RouteSpec

def firstMatch (params : RouteSpec → Option Params) (specs : List RouteSpec) : Option (RouteSpec × Params) :=
  specs.findSome? fun s => (params s).map fun found => (s, found)

theorem params_of_firstMatch {params : RouteSpec → Option Params} {specs : List RouteSpec} {s : RouteSpec}
    {found : Params} (h : firstMatch params specs = some (s, found)) : s ∈ specs ∧ params s = some found := by
  obtain ⟨s', hmem, hfound⟩ := exists_of_findSome?_eq_some h
  obtain ⟨found', hparams, heq⟩ := map_eq_some_iff.1 hfound
  cases heq
  exact ⟨hmem, hparams⟩

section
variable (specs : List RouteSpec) (verb path : Text)

def goMatch : Option (RouteSpec × Params) := firstMatch (fun s => s.go.params (toUpper verb) (Go.splitPath path)) specs

def nodeMatch : Option (RouteSpec × Params) :=
  firstMatch (fun s => s.node.params (toUpper verb) (Node.splitPath path)) specs

def rustMatch : Option (RouteSpec × Params) :=
  firstMatch (fun s => s.rust.params (toUpper verb) (Rust.pathParts path)) specs
end

def selection (found : RouteSpec × Params) : RouteSpec × (Text → Option Text) := (found.1, paramValue found.2)

structure RoutersAgree (specs : List RouteSpec) (verb path : Text) : Prop where
  node : (nodeMatch specs verb path).map selection = (goMatch specs verb path).map selection
  rust : (rustMatch specs verb path).map selection = (goMatch specs verb path).map selection

theorem Node.splitPath_eq (path : Text) : Node.splitPath path = Go.splitPath path := rfl

theorem Rust.pathParts_eq (path : Text) :
    Rust.pathParts path = (Go.splitPath path).filter fun part => decide (part ≠ []) := by
  unfold Rust.pathParts Go.splitPath
  by_cases htrimmed : trimSlashes path = []
  · rw [htrimmed]
    rfl
  · simp only [if_neg htrimmed]

section
variable (s : RouteSpec) (method : Text) (reqParts : List Text)

/-- Whether the lengths are compared first makes no difference. -/
theorem ite_length {parts : List Text} {found : Option Params}
    (h : found.isSome = true → parts.length = reqParts.length) :
    (if toUpper s.method ≠ method ∨ parts.length ≠ reqParts.length then none else found) =
      if toUpper s.method = method then found else none := by
  by_cases hmethod : toUpper s.method = method
  · by_cases hlength : parts.length = reqParts.length
    · simp [hmethod, hlength]
    · simp [hlength, Option.not_isSome_iff_eq_none.1 (mt h hlength)]
  · simp [hmethod]

theorem RouteSpec.go_params : s.go.params method reqParts =
    if toUpper s.method = method then Go.matchParts (Go.splitPath s.pattern) reqParts [] else none :=
  ite_length s method reqParts length_eq_of_matchParts

theorem RouteSpec.rust_params : s.rust.params method reqParts =
    if toUpper s.method = method then Go.matchParts (Rust.pathParts s.pattern) reqParts [] else none := by
  rw [← ite_length s method reqParts length_eq_of_matchParts, RouteSpec.rust, Rust.RestRoute.new, Rust.RestRoute.params]
  by_cases hmethod : toUpper s.method = method
  · by_cases hlength : (Rust.pathParts s.pattern).length = reqParts.length <;> simp [hmethod, hlength]
  · simp [hmethod]
end

section
variable {parts reqParts : List Text} {params : Params}

theorem Node.matchParts_eq (parts reqParts : List Text) (params : Params) : Node.matchParts parts reqParts
    (params.filter fun entry => decide (entry.1 ≠ protoName)) = (Go.matchParts parts reqParts params).map
    (filter fun entry => decide (entry.1 ≠ protoName)) := by
  induction parts generalizing reqParts params with
  | nil =>
    cases reqParts <;> rfl
  | cons part parts ih =>
    cases reqParts with
    | nil => rfl
    | cons reqPart reqParts =>
      have hassign : assign (params.filter fun entry => decide (entry.1 ≠ protoName)) (paramName part) reqPart =
        (params ++ [(paramName part, reqPart)]).filter fun entry => decide (entry.1 ≠ protoName) := by
        rw [filter_append, assign]
        split
        · rename_i hname
          simp [hname]
        · rename_i hname
          simp [hname]
      rw [Node.matchParts, Go.matchParts, hassign]
      split
      · exact ih reqParts _
      · split
        · rfl
        · exact ih reqParts params

end

def Node.kept (params : Params) : Params := params.filter fun entry => decide (entry.1 ≠ Node.protoName)

theorem RouteSpec.node_params_eq (s : RouteSpec) (method : Text) (reqParts : List Text) :
    s.node.params method reqParts = (s.go.params method reqParts).map Node.kept := by
  have hparts := Node.matchParts_eq (Go.splitPath s.pattern) reqParts []
  rw [filter_nil] at hparts
  rw [RouteSpec.node, Node.registeredRoute, Node.RESTRoute.params, RouteSpec.go, RESTRoute.params, Node.splitPath_eq]
  dsimp only
  rw [hparts]
  split
  all_goals rfl

theorem nodeMatch_eq (specs : List RouteSpec) (verb path : Text) : nodeMatch specs verb path =
      (goMatch specs verb path).map fun found => (found.1, Node.kept found.2) := by
  have hparams : (fun s : RouteSpec => s.node.params (toUpper verb) (Node.splitPath path)) =
      fun s => (s.go.params (toUpper verb) (Go.splitPath path)).map Node.kept :=
    funext fun s => s.node_params_eq _ _
  rw [nodeMatch, goMatch, hparams]
  induction specs with
  | nil => rfl
  | cons s specs ih =>
    simp only [firstMatch, findSome?_cons] at ih ⊢
    cases s.go.params (toUpper verb) (Go.splitPath path) with
    | none => exact ih
    | some found => rfl

section
variable {specs : List RouteSpec} {s : RouteSpec} {verb path : Text}

theorem forall_split_cons {α : Type} {P Q : α → Prop} {a : α} {as : List α} :
    (∀ earlier x later, a :: as = earlier ++ x :: later → (∀ y ∈ earlier, Q y) → P x) ↔
      P a ∧ (Q a → ∀ earlier x later, as = earlier ++ x :: later → (∀ y ∈ earlier, Q y) → P x) := by
  constructor
  · intro h
    refine ⟨h [] a as rfl nofun, fun ha earlier x later heq hearlier => ?_⟩
    exact h (a :: earlier) x later (congrArg (a :: ·) heq) (forall_mem_cons.2 ⟨ha, hearlier⟩)
  · rintro ⟨ha, has⟩ earlier x later heq hearlier
    cases earlier with
    | nil => exact (cons.inj heq).1 ▸ ha
    | cons y earlier =>
      obtain ⟨rfl, hrest⟩ := cons.inj heq
      exact has (hearlier a mem_cons_self) earlier x later hrest fun z hz => hearlier z (mem_cons_of_mem _ hz)

/-- Two searches select the same route with the same values exactly if they do the same with each route that
the second one comes to. -/
theorem firstMatch_eq_iff {params params' : RouteSpec → Option Params} :
    (firstMatch params specs).map selection = (firstMatch params' specs).map selection ↔
      ∀ earlier s later, specs = earlier ++ s :: later → (∀ r ∈ earlier, params' r = none) →
        (params s).map paramValue = (params' s).map paramValue := by
  have hother : ∀ {params : RouteSpec → Option Params} {specs s values}, params s = none →
      (firstMatch params specs).map selection ≠ some (s, values) := by
    intro params specs s values hs hselected
    obtain ⟨found, hfound, heq⟩ := map_eq_some_iff.1 hselected
    cases heq
    rw [(params_of_firstMatch hfound).2] at hs
    cases hs
  induction specs with
  | nil => simp [firstMatch]
  | cons s specs ih =>
    refine Iff.trans ?_ (forall_split_cons.trans (and_congr_right' (imp_congr_right fun _ => ih.symm))).symm
    -- a route that only one search takes is selected by that one only
    cases hs : params s with
    | none =>
      cases hs' : params' s with
      | none => simp [firstMatch, hs, hs']
      | some found' => simpa [firstMatch, hs, hs', selection] using hother hs
    | some found =>
      cases hs' : params' s with
      | none => simpa [firstMatch, hs, hs', selection] using (hother hs').symm
      | some found' => simp [firstMatch, hs, hs', selection]
end

/-- A route fits a request in Rust: without the empty parts of both. -/
structure RouteSpec.FitsNonempty (s : RouteSpec) (verb path : Text) : Prop where
  method : toUpper s.method = toUpper verb
  segments : Forall₂ PartMatches (Rust.pathParts s.pattern) (Rust.pathParts path)

/-- No parameter of the pattern stands at an empty part of the path. -/
def NoEmptyValue (parts reqParts : List Text) : Prop :=
  ∀ entry ∈ parts.zip reqParts, isParam entry.1 = true → entry.2 ≠ []

section
variable {parts reqParts : List Text} {s : RouteSpec} {verb path : Text}

theorem noEmptyValue_cons {part reqPart : Text} : NoEmptyValue (part :: parts) (reqPart :: reqParts) ↔
    (isParam part = true → reqPart ≠ []) ∧ NoEmptyValue parts reqParts := by
  simp [NoEmptyValue]

def nonempty (part : Text) : Bool := decide (part ≠ [])

theorem nonempty_of_isParam {part : Text} (h : isParam part = true) : nonempty part = true := by
  cases part with
  | nil => cases h
  | cons _ _ => rfl

theorem matchParts_nonempty (h : Forall₂ PartMatches parts reqParts) (hvalues : NoEmptyValue parts reqParts)
    (params : Params) :
    Go.matchParts (parts.filter nonempty) (reqParts.filter nonempty) params = Go.matchParts parts reqParts params := by
  induction h generalizing params with
  | nil => rfl
  | @cons part reqPart parts reqParts hpart _ ih =>
    obtain ⟨hvalue, hrest⟩ := noEmptyValue_cons.1 hvalues
    cases hparam : isParam part with
    | true =>
      have hreq : nonempty reqPart = true := decide_eq_true (hvalue hparam)
      simp [nonempty_of_isParam hparam, hreq, Go.matchParts, hparam, ih hrest]
    | false =>
      obtain rfl : part = reqPart := hpart.resolve_left (Bool.eq_false_iff.1 hparam)
      cases hempty : nonempty part <;> simp [hempty, Go.matchParts, hparam, ih hrest]

theorem noEmptyValue_of_length (h : Forall₂ PartMatches parts reqParts) :
    (reqParts.filter nonempty).length ≤ (parts.filter nonempty).length ∧
      ((reqParts.filter nonempty).length = (parts.filter nonempty).length → NoEmptyValue parts reqParts) := by
  induction h with
  | nil => exact ⟨Nat.le_refl _, fun _ => nofun⟩
  | @cons part reqPart parts reqParts hpart _ ih =>
    rw [noEmptyValue_cons]
    cases hparam : isParam part with
    | true =>
      have hpart := nonempty_of_isParam hparam
      cases hreq : nonempty reqPart with
      | true => simpa [filter_cons, hpart, hreq] using ⟨ih.1, fun h => ⟨of_decide_eq_true hreq, ih.2 h⟩⟩
      | false =>
        simp only [filter_cons, hpart, hreq, if_true, Bool.false_eq_true, if_false, length_cons]
        exact ⟨by omega, fun h => absurd ih.1 (by omega)⟩
    | false =>
      obtain rfl : part = reqPart := hpart.resolve_left (Bool.eq_false_iff.1 hparam)
      cases hempty : nonempty part <;> simpa [filter_cons, hempty] using ih

theorem go_params_isSome_iff :
    (s.go.params (toUpper verb) (Go.splitPath path)).isSome = true ↔ s.go.Matches verb path :=
  matches_iff_takes.symm

theorem rust_params_isSome_iff :
    (s.rust.params (toUpper verb) (Rust.pathParts path)).isSome = true ↔ s.FitsNonempty verb path := by
  rw [s.rust_params]
  split_ifs with hmethod
  · rw [matchParts_isSome_iff]
    exact ⟨fun h => ⟨hmethod, h⟩, fun h => h.segments⟩
  · exact ⟨nofun, fun h => absurd h.method hmethod⟩

theorem rust_route_iff :
    (s.rust.params (toUpper verb) (Rust.pathParts path)).map paramValue =
        (s.go.params (toUpper verb) (Go.splitPath path)).map paramValue ↔
      (s.FitsNonempty verb path → s.go.Matches verb path) ∧
        (s.go.Matches verb path → NoEmptyValue (Go.splitPath s.pattern) (Go.splitPath path)) := by
  by_cases hgo : s.go.Matches verb path
  · refine ⟨fun h => ⟨fun _ => hgo, fun _ => ?_⟩, fun h => ?_⟩
    · have hmethod : toUpper s.method = toUpper verb := hgo.method
      have hrust := congrArg Option.isSome h
      rw [isSome_map, isSome_map, go_params_isSome_iff.2 hgo, s.rust_params, if_pos hmethod] at hrust
      have hlength := length_eq_of_matchParts hrust
      rw [Rust.pathParts_eq, Rust.pathParts_eq] at hlength
      exact (noEmptyValue_of_length hgo.segments).2 hlength.symm
    · rw [s.rust_params, s.go_params, Rust.pathParts_eq, Rust.pathParts_eq]
      exact congrArg (Option.map paramValue) (congrArg (ite _ · _) (matchParts_nonempty hgo.segments (h.2 hgo) []))
  · rw [Option.not_isSome_iff_eq_none.1 (mt go_params_isSome_iff.1 hgo), map_none, map_eq_none_iff,
      ← Option.not_isSome_iff_eq_none, rust_params_isSome_iff]
    exact ⟨fun h => ⟨fun hrust => absurd hrust h, fun h => absurd h hgo⟩, fun h hrust => hgo (h.1 hrust)⟩

theorem node_route_iff :
    (s.node.params (toUpper verb) (Node.splitPath path)).map paramValue =
        (s.go.params (toUpper verb) (Go.splitPath path)).map paramValue ↔
      (s.go.Matches verb path → Node.protoName ∉ paramNames (Go.splitPath s.pattern)) := by
  rw [s.node_params_eq, Node.splitPath_eq, ← go_params_isSome_iff]
  cases hfound : s.go.params (toUpper verb) (Go.splitPath path) with
  | none => simp
  | some found =>
    have hnames : found.map Prod.fst = paramNames (Go.splitPath s.pattern) := by
      rw [s.go_params] at hfound
      split_ifs at hfound
      obtain ⟨later, rfl, hlater, -⟩ := matchParts_spec hfound
      exact hlater
    simp only [map_some, some.injEq, isSome_some, forall_const, ← hnames]
    constructor
    · intro h
      have hproto := congrFun h Node.protoName
      rw [paramValue_eq_none_iff.2 (by simp [Node.kept])] at hproto
      exact paramValue_eq_none_iff.1 hproto.symm
    · intro h
      have hkept : Node.kept found = found := filter_eq_self.2 fun entry hentry =>
        decide_eq_true fun hname => h (hname ▸ mem_map_of_mem hentry)
      rw [hkept]

/-- The three servers agree on a request exactly if this holds for each route of the table with no route before
it that Go would take: Rust takes it only if Go does, and if Go does, then no parameter takes an empty part
and none is called `__proto__`. -/
theorem routers_agree_iff (specs : List RouteSpec) (verb path : Text) :
    RoutersAgree specs verb path ↔
      ∀ earlier s later, specs = earlier ++ s :: later → (∀ r ∈ earlier, ¬ r.go.Matches verb path) →
        (s.FitsNonempty verb path → s.go.Matches verb path) ∧
        (s.go.Matches verb path → NoEmptyValue (Go.splitPath s.pattern) (Go.splitPath path) ∧
          Node.protoName ∉ paramNames (Go.splitPath s.pattern)) := by
  have hnone : ∀ r : RouteSpec, r.go.params (toUpper verb) (Go.splitPath path) = none ↔ ¬ r.go.Matches verb path :=
    fun r => by rw [← go_params_isSome_iff, Option.not_isSome_iff_eq_none]
  have hsplit : RoutersAgree specs verb path ↔
      (nodeMatch specs verb path).map selection = (goMatch specs verb path).map selection ∧
        (rustMatch specs verb path).map selection = (goMatch specs verb path).map selection :=
    ⟨fun h => ⟨h.node, h.rust⟩, fun h => ⟨h.1, h.2⟩⟩
  rw [hsplit, nodeMatch, rustMatch, goMatch, firstMatch_eq_iff, firstMatch_eq_iff]
  simp only [hnone, node_route_iff, rust_route_iff]
  constructor
  · rintro ⟨hnode, hrust⟩ earlier s later heq hearlier
    obtain ⟨hfits, hvalues⟩ := hrust earlier s later heq hearlier
    exact ⟨hfits, fun hgo => ⟨hvalues hgo, hnode earlier s later heq hearlier hgo⟩⟩
  · intro h
    refine ⟨fun earlier s later heq hearlier hgo => ((h earlier s later heq hearlier).2 hgo).2,
      fun earlier s later heq hearlier => ?_⟩
    obtain ⟨hfits, hvalues⟩ := h earlier s later heq hearlier
    exact ⟨hfits, fun hgo => (hvalues hgo).1⟩
end

def usersRoute : RouteSpec :=
  ⟨"get".toList, "/users/\x7bid\x7d".toList, "/demo.Users/Get".toList⟩

def protoRoute : RouteSpec :=
  ⟨"get".toList, "/users/\x7b__proto__\x7d".toList, "/demo.Users/Get".toList⟩

theorem routers_disagree : goMatch [usersRoute] "GET".toList "/users//7".toList = none ∧
      nodeMatch [usersRoute] "GET".toList "/users//7".toList = none ∧
      rustMatch [usersRoute] "GET".toList "/users//7".toList = some (usersRoute, [("id".toList, "7".toList)]) ∧
      goMatch [protoRoute] "GET".toList "/users/7".toList = some (protoRoute, [("__proto__".toList, "7".toList)]) ∧
      nodeMatch [protoRoute] "GET".toList "/users/7".toList = some (protoRoute, []) :=
  ⟨rfl, rfl, rfl, rfl, rfl⟩

end HelixRpc.Runtime
