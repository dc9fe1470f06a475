import HelixRpc.Foundation.Numeral
import HelixRpc.Foundation.Utf8
import HelixRpc.Runtime.Rust.Server
import Mathlib.Data.List.Induction

/-!
# Path parameters in the JSON body

Model of the part of `HelixHttpService::call` (`runtimes/rust/src/server.rs`) that adds the path parameters to a JSON
body; reading and printing of JSON are those of the library.
-/

namespace HelixRpc.Runtime.Rust

open Foundation Runtime.Go List Option

/-- The values of `simd_json`; `other` is a truth value, a floating-point number, an array or null. -/
inductive Value where
  | int (n : Int)
  | string (text : Text)
  | object (members : List (Text × Value))
  | other (text : Text)

structure SimdJson where
  fromSlice : Bytes → Option Value
  toVec : Value → Option Bytes
  fromSlice_nil : fromSlice [] = none
  fromSlice_toVec : ∀ value bytes, toVec value = some bytes → fromSlice bytes = some value

/-- The `i64` of a text: a sign, which may be a plus, and digits, of which the first may be zero. -/
def parseI64 (text : Text) : Option Int :=
  match Numeral.signed Numeral.asciiDigit ['+', '-'] text with
  | none => none
  | some (sign, n) =>
    let value : Int := if sign = ['-'] then -n else n
    if -2 ^ 63 ≤ value ∧ value < 2 ^ 63 then some value else none

def decimal (n : Int) : Text := (toString n).toList

def insertMember (members : List (Text × Value)) (name : Text) (value : Value) : List (Text × Value) :=
  (name, value) :: members.filter fun member => decide (member.1 ≠ name)

def segmentValue (segment : Text) : Value :=
  match parseI64 segment with
  | some num => .int num
  | none => .string segment

def mergedMembers (params : Params) (members : List (Text × Value)) : List (Text × Value) :=
  params.foldl (fun members param => insertMember members param.1 (segmentValue param.2)) members

def mergeParams (json : SimdJson) (params : Params) (payload : Bytes) : Bytes :=
  let value := if payload = [] then .object [] else (json.fromSlice payload).getD (.object [])
  match value with
  | .object members => (json.toVec (.object (mergedMembers params members))).getD payload
  | _ => payload

theorem lookup_filter_ne {members : List (Text × Value)} {name other : Text} (h : other ≠ name) :
    (members.filter fun member => decide (member.1 ≠ name)).lookup other = members.lookup other := by
  induction members with
  | nil => rfl
  | cons member members ih =>
    by_cases hmember : member.1 = name
    · have hother : (other == member.1) = false := beq_false_of_ne (hmember ▸ h)
      rw [filter_cons_of_neg (by simpa using hmember), ih, lookup_cons, hother]
    · rw [filter_cons_of_pos (by simpa using hmember), lookup_cons, lookup_cons, ih]

theorem lookup_insertMember (members : List (Text × Value)) (name other : Text) (value : Value) :
    (insertMember members name value).lookup other = if name = other then some value else members.lookup other := by
  rw [insertMember, lookup_cons]
  by_cases h : name = other
  · rw [if_pos h, h, beq_self_eq_true]
  · rw [if_neg h, beq_false_of_ne (Ne.symm h)]
    exact lookup_filter_ne (Ne.symm h)

theorem lookup_mergedMembers (params : Params) (members : List (Text × Value)) (name : Text) :
    (mergedMembers params members).lookup name =
      ((paramValue params name).map segmentValue).or (members.lookup name) := by
  induction params using reverseRecOn with
  | nil => rfl
  | append_singleton params param ih =>
    rw [mergedMembers, foldl_append, foldl_cons, foldl_nil, lookup_insertMember, paramValue_append,
      paramValue_singleton]
    by_cases h : param.1 = name
    · rw [if_pos h, if_pos h]
      rfl
    · rw [if_neg h, if_neg h, none_or]
      exact ih

theorem mergeParams_object {json : SimdJson} {payload printed : Bytes} {members : List (Text × Value)}
    (hbody : json.fromSlice payload = some (.object members)) (params : Params)
    (hprinted : json.toVec (.object (mergedMembers params members)) = some printed) :
    mergeParams json params payload = printed := by
  have hne : payload ≠ [] := by
    intro hnil
    rw [hnil, json.fromSlice_nil] at hbody
    cases hbody
  simp [mergeParams, if_neg hne, hbody, hprinted]

theorem serveRequest_json (lib : Library) (svc : HelixHttpService) {req : Request} (payload : Bytes)
    (hjson : headerStr req.contentType = "application/json".toList) (hparams : (routed svc req).2 ≠ []) :
    ∃ wrap ∈ [Invocation.handler, Invocation.sse], (serveRequest lib svc req payload).1 =
      [wrap (routed svc req).1 (lib.mergeParams (routed svc req).2 payload) .json] := by
  have hcodec : codecOf (headerStr req.contentType) = .json := by
    rw [hjson]
    rfl
  have hframing : framing (headerStr req.contentType) = none := by
    rw [hjson]
    rfl
  simp only [serveRequest, hcodec, hframing, if_pos (And.intro trivial hparams), handlerPayload]
  split
  · refine ⟨.sse, mem_cons_of_mem _ mem_cons_self, ?_⟩
    split
    all_goals rfl
  · refine ⟨.handler, mem_cons_self, ?_⟩
    simp only [reduceCtorEq, false_and, if_false, callHandler, hcodec]

/-- The member for a parameter is its segment as a string, or a number with that decimal text. -/
def Added (segment : Text) (member : Option Value) : Prop :=
  member = some (.string segment) ∨ ∃ n, member = some (.int n) ∧ decimal n = segment

/-- What a request with path parameters has to lead to: an object is passed on with the parameters
added, and any other body reaches no handler. -/
def MergedWithoutLoss (json : SimdJson) (path : Text) (params : Params) (payload : Bytes)
    (calls : List Invocation) : Prop :=
  match json.fromSlice payload with
  | some (.object members) => ∃ wrap ∈ [Invocation.handler, Invocation.sse], ∃ body merged,
      calls = [wrap path body .json] ∧ json.fromSlice body = some (.object merged) ∧
        ∀ name, match paramValue params name with
          | none => merged.lookup name = members.lookup name
          | some segment => Added segment (merged.lookup name)
  | _ => calls = []

theorem added_segmentValue (segment : Text) :
    Added segment (some (segmentValue segment)) ↔ ∀ n, parseI64 segment = some n → decimal n = segment := by
  rw [Added, segmentValue]
  cases parseI64 segment <;> simp

theorem calls_eq {wrap wrap' : Text → Bytes → Codec → Invocation} (hwrap : wrap ∈ [Invocation.handler, Invocation.sse])
    (hwrap' : wrap' ∈ [Invocation.handler, Invocation.sse]) {path : Text} {body body' : Bytes}
    (h : [wrap path body .json] = [wrap' path body' .json]) : body = body' := by
  simp only [mem_cons, not_mem_nil, or_false] at hwrap hwrap'
  rcases hwrap with rfl | rfl <;> rcases hwrap' with rfl | rfl <;> cases h <;> rfl

/-- The parameters are merged without loss exactly if the body is an object and no segment that is
kept is read as a number with another decimal text. -/
theorem params_merged_iff (json : SimdJson) (lib : Library) (hlib : lib.mergeParams = mergeParams json)
    (svc : HelixHttpService) (req : Request) (payload : Bytes)
    (hjson : headerStr req.contentType = "application/json".toList) (hparams : (routed svc req).2 ≠ [])
    (hprinted : ∀ members, json.fromSlice payload = some (.object members) →
      (json.toVec (.object (mergedMembers (routed svc req).2 members))).isSome) :
    MergedWithoutLoss json (routed svc req).1 (routed svc req).2 payload (serveRequest lib svc req payload).1 ↔
      (∃ members, json.fromSlice payload = some (.object members)) ∧
        ∀ name segment, paramValue (routed svc req).2 name = some segment →
          ∀ n, parseI64 segment = some n → decimal n = segment := by
  obtain ⟨wrap, hwrap, hserve⟩ := serveRequest_json lib svc payload hjson hparams
  rw [hlib] at hserve
  rw [MergedWithoutLoss, hserve]
  cases hbody : json.fromSlice payload with
  | none => simp
  | some value =>
    cases value with
    | int | string | other => simp
    | object members =>
      obtain ⟨printed, hprinted⟩ := Option.isSome_iff_exists.1 (hprinted members hbody)
      have hread := json.fromSlice_toVec _ _ hprinted
      rw [mergeParams_object hbody _ hprinted]
      constructor
      · rintro ⟨wrap', hwrap', body, merged, hcalls, hmerged, hmembers⟩
        cases calls_eq hwrap hwrap' hcalls
        cases hread.symm.trans hmerged
        refine ⟨⟨members, rfl⟩, fun name segment hvalue => ?_⟩
        have hadded := hmembers name
        rw [lookup_mergedMembers, hvalue] at hadded
        exact (added_segmentValue segment).1 hadded
      · rintro ⟨-, hdecimal⟩
        refine ⟨wrap, hwrap, printed, _, rfl, hread, fun name => ?_⟩
        rw [lookup_mergedMembers]
        cases hvalue : paramValue (routed svc req).2 name with
        | none => rfl
        | some segment => exact (added_segmentValue segment).2 (hdecimal name segment hvalue)

/-- Four texts: two objects, an array, and what is none of the three. -/
def idJson : SimdJson where
  fromSlice bytes :=
    if bytes = utf8Bytes "\x7b\"id\":7\x7d" then some (.object [("id".toList, .int 7)])
    else if bytes = utf8Bytes "\x7b\x7d" then some (.object [])
    else if bytes = utf8Bytes "[]" then some (.other "[]".toList)
    else none
  toVec
    | .object [(['i', 'd'], .int 7)] => some (utf8Bytes "\x7b\"id\":7\x7d")
    | _ => none
  fromSlice_nil := by decide
  fromSlice_toVec value bytes h := by
    split at h
    · cases h
      rfl
    · cases h

def idLib : Library := ⟨.ok, ⟨.ok, .ok⟩, mergeParams idJson, fun _ => true⟩

def idService : HelixHttpService where
  handler _ _ _ := .ok ([], [])
  restRoutes := [.new "GET".toList "/\x7bid\x7d".toList "/Get".toList]
  isStreaming _ := false
  handleStream _ _ := .ok ()
  isSse _ := false
  handleSse _ _ _ := .ok ()
  healthChecker := none
  disableMetrics := false

def idRequest (path : Text) : Request where
  method := "GET".toList
  path := path
  contentType := some "application/json".toList
  grpcEncoding := none
  accept := none
  isUpgrade := false
  upgradeError := none
  body := none
  expires := false

theorem params_merged_iff_seven : MergedWithoutLoss idJson "/Get".toList [("id".toList, "7".toList)]
    (utf8Bytes "\x7b\x7d") (serveRequest idLib idService (idRequest "/7".toList) (utf8Bytes "\x7b\x7d")).1 := by
  have hseven : parseI64 "7".toList = some 7 := by decide
  refine (params_merged_iff idJson idLib rfl idService (idRequest "/7".toList) _ rfl (by decide) ?_).2
    ⟨⟨[], rfl⟩, ?_⟩
  · rintro members ⟨⟩
    rfl
  · intro name segment hsegment n hn
    obtain ⟨param, hfind, rfl⟩ := map_eq_some_iff.1 hsegment
    obtain rfl := mem_singleton.1 (mem_of_find?_eq_some hfind)
    cases hseven.symm.trans hn
    decide

theorem params_merged_with_loss :
    (serveRequest idLib idService (idRequest "/007".toList) (utf8Bytes "\x7b\x7d")).1 =
        [.handler "/Get".toList (utf8Bytes "\x7b\"id\":7\x7d") .json] ∧ decimal 7 ≠ "007".toList ∧
      (serveRequest idLib idService (idRequest "/7".toList) (utf8Bytes "not JSON")).1 =
        [.handler "/Get".toList (utf8Bytes "\x7b\"id\":7\x7d") .json] ∧
      (serveRequest idLib idService (idRequest "/7".toList) (utf8Bytes "[]")).1 =
        [.handler "/Get".toList (utf8Bytes "[]") .json] :=
  ⟨rfl, by decide, rfl, rfl⟩

end HelixRpc.Runtime.Rust
