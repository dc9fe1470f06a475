import HelixRpc.Codegen.Go.Binder
import HelixRpc.Runtime.Routers

/-!
# Path parameters and the query string

Model of how the Go and the Node server fill the parameters of a REST request (`ServeHTTP` in
`runtimes/go/grpc_handler.go`, `handleHTTP1` in `runtimes/node/src/server.ts`).
-/

namespace HelixRpc.Runtime

open Runtime.Go List Option

def firstValue (query : Params) (name : Text) : Option Text :=
  (query.find? fun entry => decide (entry.1 = name)).map Prod.snd

def firstValues : Params → Params
  | [] => []
  | entry :: query => entry :: (firstValues query).filter fun other => decide (other.1 ≠ entry.1)

def goParams (params query : Params) : Params := params ++ firstValues query

def nodeParams (params query : Params) : Params :=
  query.foldl (fun params entry => Node.assign params entry.1 entry.2) params

section
variable {params query : Params} {name : Text}

theorem paramValue_cons (entry : Text × Text) (params : Params) (name : Text) : paramValue (entry :: params) name =
      (paramValue params name).or (if entry.1 = name then some entry.2 else none) := by
  rw [← singleton_append, paramValue_append, ← paramValue_singleton]

theorem paramValue_filter {keep : Text × Text → Bool} (hkeep : ∀ value, keep (name, value) = true) :
    paramValue (params.filter keep) name = paramValue params name := by
  induction params with
  | nil => rfl
  | cons entry params ih =>
    cases hentry : keep entry with
    | true => rw [filter_cons_of_pos hentry, paramValue_cons, paramValue_cons, ih]
    | false =>
      have hne : entry.1 ≠ name := by
        rintro rfl
        exact absurd (hkeep entry.2) (by rw [hentry]; decide)
      rw [filter_cons_of_neg (by rw [hentry]; decide), ih, paramValue_cons, if_neg hne, or_none]

theorem paramValue_firstValues (query : Params) (name : Text) :
    paramValue (firstValues query) name = firstValue query name := by
  induction query with
  | nil => rfl
  | cons entry query ih =>
    rw [firstValues, paramValue_cons, firstValue, find?_cons]
    by_cases hentry : entry.1 = name
    · -- the later values of the key are left out
      have hnone : paramValue ((firstValues query).filter fun other => decide (other.1 ≠ entry.1)) name = none := by
        rw [paramValue_eq_none_iff]
        simp [hentry]
      rw [hnone, if_pos hentry, decide_eq_true hentry]
      rfl
    · rw [paramValue_filter (fun value => decide_eq_true (Ne.symm hentry)), if_neg hentry,
        or_none, ih, decide_eq_false hentry]
      rfl

theorem paramValue_goParams (params query : Params) (name : Text) :
    paramValue (goParams params query) name = (firstValue query name).or (paramValue params name) := by
  rw [goParams, paramValue_append, paramValue_firstValues]

theorem paramValue_nodeParams (hname : name ≠ Node.protoName) (params query : Params) :
    paramValue (nodeParams params query) name = (paramValue query name).or (paramValue params name) := by
  induction query generalizing params with
  | nil => rfl
  | cons entry query ih =>
    rw [nodeParams, foldl_cons, ← nodeParams, ih, paramValue_cons, Node.assign]
    by_cases hproto : entry.1 = Node.protoName
    · have hne : entry.1 ≠ name := fun heq => hname (heq.symm.trans hproto)
      rw [if_pos hproto, if_neg hne, or_none]
    · rw [if_neg hproto, paramValue_append, paramValue_singleton, Option.or_assoc]

theorem paramValue_nodeParams_proto (params query : Params) :
    paramValue (nodeParams params query) Node.protoName = paramValue params Node.protoName := by
  induction query generalizing params with
  | nil => rfl
  | cons entry query ih =>
    rw [nodeParams, foldl_cons, ← nodeParams, ih, Node.assign]
    by_cases hproto : entry.1 = Node.protoName
    · rw [if_pos hproto]
    · rw [if_neg hproto, paramValue_append, paramValue_singleton, if_neg hproto, none_or]
end

inductive Binds : List Text → List Text → Text → Text → Prop
  | here {part segment : Text} {parts reqParts : List Text} (hparam : isParam part = true)
      (hlast : ∀ later ∈ parts, isParam later = true → paramName later ≠ paramName part) :
      Binds (part :: parts) (segment :: reqParts) (paramName part) segment
  | there {part reqPart name segment : Text} {parts reqParts : List Text}
      (h : Binds parts reqParts name segment) :
      Binds (part :: parts) (reqPart :: reqParts) name segment

variable {parts reqParts : List Text} {params found : Params}

theorem paramValue_of_matchParts {name : Text} (h : Go.matchParts parts reqParts params = some found)
    (hname : ∀ part ∈ parts, isParam part = true → paramName part ≠ name) : paramValue found name =
    paramValue params name := by
  induction h using Go.matchParts_induction with
  | done => rfl
  | param hparam _ _ ih =>
    rw [ih fun part hpart => hname part (mem_cons_of_mem _ hpart), paramValue_append,
      paramValue_singleton, if_neg (hname _ mem_cons_self hparam), none_or]
  | literal _ _ _ ih => exact ih fun part hpart => hname part (mem_cons_of_mem _ hpart)

theorem Binds.paramValue {name segment : Text} (hbinds : Binds parts reqParts name segment)
    (h : Go.matchParts parts reqParts params = some found) : Go.paramValue found name = some segment := by
  induction hbinds generalizing params with
  | here hparam hlast =>
    rw [Go.matchParts, if_pos hparam] at h
    rw [paramValue_of_matchParts h hlast, paramValue_append, paramValue_singleton, if_pos rfl]
    rfl
  | there _ ih =>
    rcases Go.matchParts_cons_eq_some h with ⟨-, hrest⟩ | ⟨-, -, hrest⟩
    all_goals exact ih hrest

section
variable (specs : List RouteSpec) (verb path : Text) (query : Params) (name : Text)

def goBound : Option Text := (goMatch specs verb path).bind fun found => paramValue (goParams found.2 query) name

def nodeBound : Option Text := (nodeMatch specs verb path).bind fun found => paramValue (nodeParams found.2 query) name
end

def PathParam (specs : List RouteSpec) (verb path name segment : Text) : Prop :=
  ∃ s params, goMatch specs verb path = some (s, params) ∧
    Binds (Go.splitPath s.pattern) (Go.splitPath path) name segment

section
variable {specs : List RouteSpec} {verb path name segment : Text}

theorem PathParam.value (h : PathParam specs verb path name segment) :
    ∃ s params, goMatch specs verb path = some (s, params) ∧ paramValue params name = some segment := by
  obtain ⟨s, params, hmatch, hbinds⟩ := h
  refine ⟨s, params, hmatch, ?_⟩
  have hparams : s.go.params (toUpper verb) (Go.splitPath path) = some params := (params_of_firstMatch hmatch).2
  rw [s.go_params] at hparams
  split at hparams
  · exact hbinds.paramValue hparams
  · cases hparams

theorem goBound_eq (h : PathParam specs verb path name segment) (query : Params) :
    goBound specs verb path query name = some ((firstValue query name).getD segment) := by
  obtain ⟨s, params, hmatch, hvalue⟩ := h.value
  rw [goBound, hmatch, bind_some, paramValue_goParams, hvalue]
  cases firstValue query name <;> rfl

theorem nodeBound_eq (h : PathParam specs verb path name segment) (hname : name ≠ Node.protoName) (query : Params) :
    nodeBound specs verb path query name = some ((paramValue query name).getD segment) := by
  obtain ⟨s, params, hmatch, hvalue⟩ := h.value
  have hkept : paramValue (Node.kept params) name = some segment := by
    rw [Node.kept, paramValue_filter fun value => decide_eq_true hname, hvalue]
  rw [nodeBound, nodeMatch_eq, hmatch, map_some, bind_some, paramValue_nodeParams hname, hkept]
  cases paramValue query name <;> rfl

theorem nodeBound_proto (specs : List RouteSpec) (verb path : Text) (query : Params) :
    nodeBound specs verb path query Node.protoName = none := by
  rw [nodeBound, nodeMatch_eq]
  cases goMatch specs verb path with
  | none => rfl
  | some found =>
    rw [map_some, bind_some, paramValue_nodeParams_proto, paramValue_eq_none_iff]
    simp [Node.kept]

theorem getD_eq_iff {value : Option Text} :
    value.getD segment = segment ↔ ∀ assigned, value = some assigned → assigned = segment := by
  cases value <;> simp

/-- A parameter of the pattern is bound to its segment in Go and in Node if and only if the
query string assigns nothing else to its name, and the name is not `__proto__`. -/
theorem path_parameters_kept_iff (h : PathParam specs verb path name segment) (query other : Params) :
    ((goBound specs verb path query name = some segment ∧ nodeBound specs verb path query name = some segment) ↔
    name ≠ Node.protoName ∧ ∀ assigned, firstValue query name = some assigned ∨ paramValue query name = some assigned →
    assigned = segment) ∧ (goBound specs verb path query name = goBound specs verb path other name ↔
    (firstValue query name).getD segment = (firstValue other name).getD segment) ∧
    (nodeBound specs verb path query name = nodeBound specs verb path other name ↔ name = Node.protoName ∨
    (paramValue query name).getD segment = (paramValue other name).getD segment) := by
  have hassigned : (∀ assigned, firstValue query name = some assigned ∨ paramValue query name = some assigned →
        assigned = segment) ↔
      (firstValue query name).getD segment = segment ∧ (paramValue query name).getD segment = segment := by
    rw [getD_eq_iff, getD_eq_iff, ← forall_and]
    exact forall_congr' fun assigned => or_imp
  rw [hassigned, goBound_eq h, goBound_eq h, some_inj, some_inj]
  by_cases hname : name = Node.protoName
  · -- Node binds nothing
    rw [hname, nodeBound_proto, nodeBound_proto]
    simp
  · rw [nodeBound_eq h hname, nodeBound_eq h hname, some_inj, some_inj]
    simp [hname]
end

def usernameRoute : RouteSpec :=
  ⟨"GET".toList, "/users/\x7busername\x7d".toList, "/helix_example.UserProfileService/Get".toList⟩

theorem usernameRoute_param :
    PathParam [usernameRoute] "GET".toList "/users/alice".toList "username".toList "alice".toList :=
  ⟨usernameRoute, [("username".toList, "alice".toList)], rfl,
    .there (.here rfl fun _ hlater => absurd hlater not_mem_nil)⟩

theorem path_parameters_kept_iff_page : goBound [usernameRoute] "GET".toList "/users/alice".toList
    [("page".toList, "2".toList)] "username".toList = some "alice".toList ∧ nodeBound
    [usernameRoute] "GET".toList "/users/alice".toList [("page".toList, "2".toList)] "username".toList =
    some "alice".toList := by
  refine (path_parameters_kept_iff usernameRoute_param _ []).1.2 ⟨by decide, ?_⟩
  intro assigned h
  have hfirst : firstValue [("page".toList, "2".toList)] "username".toList = none := rfl
  have hlast : paramValue [("page".toList, "2".toList)] "username".toList = none := rfl
  rw [hfirst, hlast] at h
  rcases h with h | h <;> cases h

def shortScanner : Codegen.Go.Scanner where
  int32 := fun _ => none
  int64 := fun _ => none
  bool := fun _ => none
  string := fun val =>
    ⟨(val.take 64).map fun ch => UInt8.ofNat ch.toNat, by
      rw [length_map, length_take]
      omega⟩

theorem query_overrides_path : goBound [usernameRoute] "GET".toList "/users/alice".toList
        [("username".toList, "mallory".toList)] "username".toList = some "mallory".toList ∧
      nodeBound [usernameRoute] "GET".toList "/users/alice".toList
        [("username".toList, "mallory".toList)] "username".toList = some "mallory".toList ∧
      goBound [usernameRoute] "GET".toList "/users/alice".toList [] "username".toList = some "alice".toList ∧
      nodeBound [usernameRoute] "GET".toList "/users/alice".toList [] "username".toList = some "alice".toList ∧
      Codegen.Go.bindField shortScanner (goParams [("username".toList, "alice".toList)]
          [("username".toList, "mallory".toList)]) (Codegen.Go.GoStruct.zero Codegen.Go.userProfile)
        (1 : Fin 3) = shortScanner.string "mallory".toList :=
  ⟨rfl, rfl, rfl, rfl, rfl⟩

end HelixRpc.Runtime
