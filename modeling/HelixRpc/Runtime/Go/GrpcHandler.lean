import HelixRpc.Foundation.Framing
import HelixRpc.Foundation.Mediation
import HelixRpc.Runtime.Go.Router

/-!
# `GRPCHandler.ServeHTTP`

Model of the request handler of the Go server (`runtimes/go/grpc_handler.go`).
-/

namespace HelixRpc.Runtime.Go

open Foundation List
variable {Ctx Req Resp : Type}

abbrev CallResult (Resp : Type) := Except Text Resp

inductive Invocation where
  | handler (methodPath : Text)
  | streamHandler (methodPath : Text)
  deriving DecidableEq

abbrev UnaryHandler (Ctx Req Resp : Type) := Ctx × Req → Logged Invocation (CallResult Resp)

abbrev UnaryServerInterceptor (Ctx Req Resp : Type) :=
  Ctx → Req → Text → UnaryHandler Ctx Req Resp → Logged Invocation (CallResult Resp)

/-- An interceptor: what it does with a context, a request and a method, with the handler as the
function that it may call. -/
abbrev Interceptor (Ctx Req Resp : Type) := Ctx → Req → Text → Script (Ctx × Req) (CallResult Resp)

def interceptorAt (k : Nat) (ic : Interceptor Ctx Req Resp) : UnaryServerInterceptor Ctx Req Resp :=
  fun ctx req fullMethod handler => (ic ctx req fullMethod).runAs k handler

def getChainHandler (fullMethod : Text) (finalHandler : UnaryHandler Ctx Req Resp) :
    List (UnaryServerInterceptor Ctx Req Resp) → UnaryHandler Ctx Req Resp
  | [] => finalHandler
  | ic :: ics => fun (ctx, req) => ic ctx req fullMethod (getChainHandler fullMethod finalHandler ics)

def chainInterceptors : List (UnaryServerInterceptor Ctx Req Resp) → Option (UnaryServerInterceptor Ctx Req Resp)
  | [] => none
  | [ic] => some ic
  | ic :: ics => some fun ctx req fullMethod handler =>
    ic ctx req fullMethod (getChainHandler fullMethod handler ics)

/-- The body of a request: the bytes that arrive, and the error that ends them if it is not the end of
the body. -/
abbrev Body := Bytes × Option Text

inductive Codec where
  | json
  | proto
  | flatbuffers
  deriving DecidableEq

inductive ServerStream (Ctx : Type) where
  | webSocket (ctx : Ctx)
  | sse (ctx : Ctx) (payload : Bytes)
  | grpc (ctx : Ctx) (body : Body)

structure MethodInfo (Ctx Req Resp : Type) where
  decoder : Codec → Bytes → Except Text Req
  handler : Ctx → Req → CallResult Resp
  binder : Option (Req → Params → Except Text Req)
  isStreaming : Bool
  streamHandler : ServerStream Ctx → Option Text

structure Compressor where
  compress : Bytes → Except Text Bytes
  decompress : Bytes → Except Text Bytes

structure Library (Resp : Type) where
  base64 : Body → Body
  encodeJSON : Resp → Except Text Bytes
  marshal : Resp → Option (Except Text Bytes)
  getCompressor : Text → Option Compressor

structure Request (Ctx : Type) where
  verb : Text
  path : Text
  query : Params
  contentType : Text
  accept : Text
  grpcEncoding : Text
  isWebSocketUpgrade : Bool
  upgradeError : Option Text
  body : Body
  requestCtx : Ctx
  ctx : Ctx

structure GRPCHandler (Ctx Req Resp : Type) where
  table : MethodTable (MethodInfo Ctx Req Resp)
  interceptors : List (Interceptor Ctx Req Resp)

def GRPCHandler.addInterceptor (h : GRPCHandler Ctx Req Resp) (ic : Interceptor Ctx Req Resp) :
    GRPCHandler Ctx Req Resp := { h with interceptors := h.interceptors ++ [ic] }

def GRPCHandler.chained (h : GRPCHandler Ctx Req Resp) : Option (UnaryServerInterceptor Ctx Req Resp) :=
  chainInterceptors (h.interceptors.mapIdx interceptorAt)

inductive GrpcWeb where
  | no
  | binary
  | text
  deriving DecidableEq

inductive Response where
  | debug
  | unimplemented (message : Text)
  | httpError (message : Text) (code : Nat)
  | webSocket (err : Option Text)
  | json (body : Bytes)
  | sse (err : Option Text)
  | stream (err : Option Text)
  | grpcError (web : GrpcWeb) (status message : Text)
  | grpc (web : GrpcWeb) (compressed : Bool) (payload : Bytes)
  deriving DecidableEq

def contains : Text → Text → Bool
  | [], sub => sub.isEmpty
  | ch :: s, sub => sub.isPrefixOf (ch :: s) || contains s sub

def grpcWeb (contentType : Text) : GrpcWeb :=
  if contains contentType "application/grpc-web-text".toList then .text
  else if contains contentType "application/grpc-web".toList then .binary
  else .no

def codecOf (contentType : Text) : Codec :=
  if contains contentType "application/x-flatbuffers".toList ||
      contains contentType "application/grpc+flatbuffers".toList then .flatbuffers
  else .proto

def contentTypeOrJSON (contentType : Text) : Text :=
  if contentType = [] then "application/json".toList else contentType

def readFull (n : Nat) (body : Body) : Except Text (Bytes × Body) :=
  if n ≤ body.1.length then .ok (body.1.take n, (body.1.drop n, body.2))
  else
    match body.2 with
    | some err => .error err
    | none => .error (if body.1 = [] then "EOF".toList else "unexpected EOF".toList)

def readAll (body : Body) : Except Text Bytes :=
  match body.2 with
  | some err => .error err
  | none => .ok body.1

def jsonPayload (payload : Bytes) : Bytes := if payload = [] then [0x7b, 0x7d] else payload

def uint32 (bs : Bytes) : Nat := ofBigEndian bs

def unaryPayload (lib : Library Resp) (grpcEncoding : Text) (flag : Option UInt8) (payload : Bytes) :
    Except Text Bytes :=
  if flag = some 1 ∧ grpcEncoding ≠ [] then
    match lib.getCompressor grpcEncoding with
    | some comp =>
      match comp.decompress payload with
      | .ok decompressed => .ok decompressed
      | .error err => .error ("failed to decompress payload: ".toList ++ err)
    | none => .ok payload
  else .ok payload

def readGrpcFrame (lib : Library Resp) (grpcEncoding : Text) (body : Body) : Except Text Bytes := do
  let (frameHeader, body) ← readFull 5 body
  let (payload, _) ← readFull (uint32 frameHeader.tail) body
  unaryPayload lib grpcEncoding frameHeader.head? payload

def compressResponse (getCompressor : Text → Option Compressor) (grpcEncoding : Text) (payload : Bytes) : Bool × Bytes :=
  if grpcEncoding = [] then (false, payload)
  else
    match getCompressor grpcEncoding with
    | none => (false, payload)
    | some comp =>
      match comp.compress payload with
      | .ok compressed => (true, compressed)
      | .error _ => (false, payload)

section
variable (lib : Library Resp) (h : GRPCHandler Ctx Req Resp) (methodPath : Text)
  (methodInfo : MethodInfo Ctx Req Resp)

def finalHandler : UnaryHandler Ctx Req Resp :=
  fun (ctx, req) => ([.invoke (.handler methodPath)], methodInfo.handler ctx req)

def callMethod (ctx : Ctx) (req : Req) : Logged Invocation (CallResult Resp) :=
  match h.chained with
  | some chained => chained ctx req methodPath (finalHandler methodPath methodInfo)
  | none => finalHandler methodPath methodInfo (ctx, req)

def callStream (stream : ServerStream Ctx) : Logged Invocation (Option Text) :=
  ([.invoke (.streamHandler methodPath)], methodInfo.streamHandler stream)

def serveWebSocket (r : Request Ctx) : Logged Invocation Response :=
  match r.upgradeError with
  | some err => ([], .httpError ("failed to upgrade to websocket: ".toList ++ err) 400)
  | none =>
    let (es, err) := callStream methodPath methodInfo (.webSocket r.requestCtx)
    (es, .webSocket err)

def decodeJSON (body : Body) (pathParams : Params) : Except Response Req :=
  match readAll body >>= fun payload => methodInfo.decoder .json (jsonPayload payload) with
  | .error err => .error (.httpError ("failed to decode request: ".toList ++ err) 400)
  | .ok req =>
    match methodInfo.binder with
    | none => .ok req
    | some binder =>
      if pathParams = [] then .ok req
      else
        match binder req pathParams with
        | .ok req => .ok req
        | .error err =>
          .error (.httpError ("failed to bind path parameters: ".toList ++ err) 400)

def serveJSON (r : Request Ctx) (body : Body) (pathParams : Params) : Logged Invocation Response :=
  match decodeJSON methodInfo body pathParams with
  | .error response => ([], response)
  | .ok req =>
    let (es, result) := callMethod h methodPath methodInfo r.ctx req
    match result with
    | .error err => (es, .httpError ("method execution failed: ".toList ++ err) 500)
    | .ok resp =>
      match lib.encodeJSON resp with
      | .ok payload => (es, .json payload)
      | .error _ => (es, .httpError "failed to marshal json response".toList 500)

def serveSSE (r : Request Ctx) (body : Body) : Logged Invocation Response :=
  match readAll body with
  | .error err => ([], .httpError err 400)
  | .ok payload =>
    let (es, err) := callStream methodPath methodInfo (.sse r.ctx (jsonPayload payload))
    (es, .sse err)

def serveStream (r : Request Ctx) (body : Body) : Logged Invocation Response :=
  let (es, err) := callStream methodPath methodInfo (.grpc r.ctx body)
  (es, .stream err)

def encodeResponse : Text → Bytes → Bool × Bytes := compressResponse lib.getCompressor

def grpcResponse (web : GrpcWeb) (grpcEncoding : Text) : CallResult Resp → Response
  | .error err => .grpcError web "13".toList err
  | .ok resp =>
    match lib.marshal resp with
    | none => .grpcError web "13".toList "response does not implement ProtoMarshaler".toList
    | some (.error err) => .grpcError web "13".toList err
    | some (.ok payload) =>
      let (compressed, payload) := encodeResponse lib grpcEncoding payload
      .grpc web compressed payload

def serveGRPC (r : Request Ctx) (body : Body) : Logged Invocation Response :=
  let web := grpcWeb r.contentType
  let decoded := readGrpcFrame lib r.grpcEncoding body >>= fun payload =>
    methodInfo.decoder (codecOf r.contentType) payload
  match decoded with
  | .error err => ([], .grpcError web "3".toList err)
  | .ok req =>
    let (es, result) := callMethod h methodPath methodInfo r.ctx req
    (es, grpcResponse lib web r.grpcEncoding result)

def isSSE (r : Request Ctx) : Bool :=
  contains r.accept "text/event-stream".toList ||
    contains (contentTypeOrJSON r.contentType) "application/json".toList

def bodyOf (r : Request Ctx) : Body :=
  if grpcWeb r.contentType = .text then lib.base64 r.body else r.body

def serveMethod (r : Request Ctx) (pathParams : Params) : Logged Invocation Response :=
  if r.isWebSocketUpgrade && methodInfo.isStreaming then serveWebSocket methodPath methodInfo r
  else if contains (contentTypeOrJSON r.contentType) "application/json".toList &&
      !methodInfo.isStreaming then
    serveJSON lib h methodPath methodInfo r (bodyOf lib r) pathParams
  else if methodInfo.isStreaming then
    if isSSE r then serveSSE methodPath methodInfo r (bodyOf lib r)
    else serveStream methodPath methodInfo r (bodyOf lib r)
  else serveGRPC lib h methodPath methodInfo r (bodyOf lib r)
end

def serveHTTP (lib : Library Resp) (h : GRPCHandler Ctx Req Resp) (r : Request Ctx) : Logged Invocation Response :=
  match h.table.route r.verb r.path r.query with
  | .debug => ([], .debug)
  | .notFound => ([], .unimplemented ("path ".toList ++ (r.path ++ " not found".toList)))
  | .method methodPath pathParams methodInfo =>
    serveMethod lib h methodPath methodInfo r pathParams

def GRPCHandler.places (h : GRPCHandler Ctx Req Resp) : List Nat := List.range h.interceptors.length

def Rejects (ic : Interceptor Ctx Req Resp) (ctx : Ctx) : Prop :=
  ∀ req fullMethod, ∃ err, ic ctx req fullMethod = .ret (.error err)

/-- The handlers that a request invokes run inside of all interceptors, and none runs if the first
interceptor rejects the request. -/
structure Mediates (lib : Library Resp) (h : GRPCHandler Ctx Req Resp) (r : Request Ctx) : Prop where
  inside : Mediated h.places [] (serveHTTP lib h r).1
  rejected : ∀ ic ∈ h.interceptors.head?, Rejects ic r.ctx → ∀ t, .invoke t ∉ (serveHTTP lib h r).1

def startsStream (lib : Library Resp) (methodInfo : MethodInfo Ctx Req Resp) (r : Request Ctx) : Bool :=
  methodInfo.isStreaming &&
    if r.isWebSocketUpgrade then r.upgradeError.isNone
    else !isSSE r || (bodyOf lib r).2.isNone

def isStreamRequest (lib : Library Resp) (h : GRPCHandler Ctx Req Resp) (r : Request Ctx) : Bool :=
  match h.table.route r.verb r.path r.query with
  | .method _ _ methodInfo => startsStream lib methodInfo r
  | _ => false

section
variable (lib : Library Resp) (h : GRPCHandler Ctx Req Resp) (methodPath : Text)
  (methodInfo : MethodInfo Ctx Req Resp)

theorem nested_getChainHandler (final : UnaryHandler Ctx Req Resp) (ics : List (Interceptor Ctx Req Resp))
    (k : Nat) (hfinal : ∀ a, Nested (List.range (k + ics.length)) (List.range (k + ics.length))
      (final a).1) (a : Ctx × Req) :
    Nested (List.range (k + ics.length)) (List.range k)
      (getChainHandler methodPath final (ics.mapIdx fun i => interceptorAt (i + k)) a).1 := by
  -- each interceptor adds its place to the ones that the rest of the chain stands in
  induction ics generalizing k a with
  | nil => exact hfinal a
  | cons ic ics ih =>
    have hlength : k + (ic :: ics).length = k + 1 + ics.length := by
      rw [length_cons]
      omega
    rw [hlength] at hfinal ⊢
    have hplaces : (fun (i : Nat) (ic : Interceptor Ctx Req Resp) => interceptorAt (i + 1 + k) ic) =
        fun i => interceptorAt (i + (k + 1)) := by
      funext i
      rw [Nat.add_assoc, Nat.add_comm 1 k]
    rw [mapIdx_cons, hplaces, Nat.zero_add]
    refine Nested.runAs (fun a' => ?_) (ic a.1 a.2 methodPath)
    rw [← range_succ]
    exact ih (k + 1) hfinal a'

theorem callMethod_eq (ctx : Ctx) (req : Req) : callMethod h methodPath methodInfo ctx req = getChainHandler methodPath
      (finalHandler methodPath methodInfo) (h.interceptors.mapIdx interceptorAt) (ctx, req) := by
  unfold callMethod GRPCHandler.chained
  cases h.interceptors.mapIdx interceptorAt with
  | nil => rfl
  | cons ic ics =>
    cases ics <;> rfl

theorem nested_callMethod (ctx : Ctx) (req : Req) :
    Nested h.places [] (callMethod h methodPath methodInfo ctx req).1 := by
  rw [callMethod_eq]
  have hchain := nested_getChainHandler methodPath (finalHandler methodPath methodInfo) h.interceptors
    0 (fun a => by exact .invoke _) (ctx, req)
  rw [Nat.zero_add] at hchain
  exact hchain

theorem callMethod_of_rejects {ctx : Ctx} {ic : Interceptor Ctx Req Resp}
    (hic : ic ∈ h.interceptors.head?) (hrejects : Rejects ic ctx) (req : Req) (t : Invocation) :
    .invoke t ∉ (callMethod h methodPath methodInfo ctx req).1 := by
  obtain ⟨ics, hics⟩ : ∃ ics, h.interceptors = ic :: ics := head?_eq_some_iff.1 hic
  obtain ⟨err, herr⟩ := hrejects req methodPath
  rw [callMethod_eq, hics, mapIdx_cons]
  simp only [getChainHandler, interceptorAt, herr]
  exact nofun

theorem serveMethod_events (r : Request Ctx) (pathParams : Params) : (startsStream lib methodInfo r = true ∧
        (serveMethod lib h methodPath methodInfo r pathParams).1 = [.invoke (.streamHandler methodPath)]) ∨
      (startsStream lib methodInfo r = false ∧ ((serveMethod lib h methodPath methodInfo r pathParams).1 = [] ∨
          ∃ req, (serveMethod lib h methodPath methodInfo r pathParams).1 =
            (callMethod h methodPath methodInfo r.ctx req).1)) := by
  cases hstreaming : methodInfo.isStreaming with
  | false =>
    -- JSON or unary gRPC: either the request is not decoded, or the method is called
    refine .inr ⟨by rw [startsStream, hstreaming, Bool.false_and], ?_⟩
    simp only [serveMethod, hstreaming, Bool.and_false, Bool.false_eq_true, if_false, Bool.not_false, Bool.and_true]
    split
    · unfold serveJSON
      split
      · exact .inl rfl
      · rename_i req _
        refine .inr ⟨req, ?_⟩
        dsimp only
        split
        · rfl
        · split
          all_goals rfl
    · unfold serveGRPC
      dsimp only
      split
      · exact .inl rfl
      · rename_i req _
        exact .inr ⟨req, rfl⟩
  | true =>
    simp only [serveMethod, startsStream, hstreaming, Bool.and_true, Bool.true_and, Bool.not_true,
      Bool.and_false, Bool.false_eq_true, if_false, if_true]
    cases r.isWebSocketUpgrade with
    | true =>
      simp only [if_true, serveWebSocket]
      cases r.upgradeError with
      | none => exact .inl ⟨rfl, rfl⟩
      | some err => exact .inr ⟨rfl, .inl rfl⟩
    | false =>
      simp only [Bool.false_eq_true, if_false]
      cases isSSE r with
      | false => exact .inl ⟨rfl, rfl⟩
      | true =>
        simp only [if_true, serveSSE, readAll, Bool.not_true, Bool.false_or]
        cases (bodyOf lib r).2 with
        | none => exact .inl ⟨rfl, rfl⟩
        | some err => exact .inr ⟨rfl, .inl rfl⟩
end

/-- On a server with interceptors, the handlers that a request invokes run inside of all
of them if and only if the request does not start the stream of a streaming method. -/
theorem serveHTTP_mediated_iff (lib : Library Resp) {h : GRPCHandler Ctx Req Resp} (hne : h.interceptors ≠ [])
    (r : Request Ctx) : Mediates lib h r ↔ isStreamRequest lib h r = false := by
  have hnone : (serveHTTP lib h r).1 = [] → Mediates lib h r := by
    intro hevents
    refine ⟨by rw [hevents]; trivial, ?_⟩
    intro ic _ _ t
    rw [hevents]
    exact not_mem_nil
  cases hroute : h.table.route r.verb r.path r.query with
  | debug =>
    have hevents : (serveHTTP lib h r).1 = [] := by rw [serveHTTP, hroute]
    simp only [isStreamRequest, hroute, hnone hevents]
  | notFound =>
    have hevents : (serveHTTP lib h r).1 = [] := by rw [serveHTTP, hroute]
    simp only [isStreamRequest, hroute, hnone hevents]
  | method methodPath pathParams methodInfo =>
    have hserve : serveHTTP lib h r = serveMethod lib h methodPath methodInfo r pathParams := by rw [serveHTTP, hroute]
    have hstream : isStreamRequest lib h r = startsStream lib methodInfo r := by rw [isStreamRequest, hroute]
    rw [hstream]
    obtain ⟨hstarts, hevents⟩ | ⟨hstarts, hevents⟩ := serveMethod_events lib h methodPath methodInfo r pathParams
    · -- the stream handler is invoked outside, and there is an interceptor
      refine ⟨fun hmediates => ?_, fun hfalse => absurd (hstarts.symm.trans hfalse) (by decide)⟩
      have hinside := hmediates.inside
      rw [hserve, hevents] at hinside
      have hlength := congrArg List.length hinside.1
      rw [GRPCHandler.places, length_range] at hlength
      exact absurd (length_eq_zero_iff.1 hlength.symm) hne
    · refine ⟨fun _ => hstarts, fun _ => ?_⟩
      rcases hevents with hevents | ⟨req, hevents⟩
      · exact hnone (by rw [hserve, hevents])
      · refine ⟨?_, ?_⟩
        · rw [hserve, hevents]
          exact (nested_callMethod h methodPath methodInfo r.ctx req).mediated
        · intro ic hic hrejects t
          rw [hserve, hevents]
          exact callMethod_of_rejects h methodPath methodInfo hic hrejects req t

def denyAll : Interceptor Unit Unit Unit := fun _ _ _ => .ret (.error "denied".toList)

def quietMethod (isStreaming : Bool) : MethodInfo Unit Unit Unit :=
  ⟨fun _ _ => .ok (), fun _ _ => .ok (), none, isStreaming, fun _ => none⟩

def guarded : GRPCHandler Unit Unit Unit := GRPCHandler.addInterceptor
    ⟨(MethodTable.empty.registerMethod "/demo.Chat/Say".toList (quietMethod false)).registerMethod
      "/demo.Chat/Listen".toList (quietMethod true), []⟩ denyAll

def plainLibrary : Library Unit := ⟨id, fun _ => .ok [], fun _ => some (.ok []), fun _ => none⟩

def grpcRequest (path : Text) : Request Unit :=
  ⟨"POST".toList, path, [], "application/grpc".toList, [], [], false, none, ([0, 0, 0, 0, 0], none), (), ()⟩

theorem serveHTTP_mediated_iff_say : Mediates plainLibrary guarded (grpcRequest "/demo.Chat/Say".toList) :=
  (serveHTTP_mediated_iff plainLibrary (h := guarded) (cons_ne_nil _ _) _).2 rfl

theorem listen_not_mediated : serveHTTP plainLibrary guarded (grpcRequest "/demo.Chat/Listen".toList) =
        ([.invoke (.streamHandler "/demo.Chat/Listen".toList)], .stream none) ∧
      ¬ Mediates plainLibrary guarded (grpcRequest "/demo.Chat/Listen".toList) := by
  have hserve : serveHTTP plainLibrary guarded (grpcRequest "/demo.Chat/Listen".toList) =
      ([.invoke (.streamHandler "/demo.Chat/Listen".toList)], .stream none) := rfl
  refine ⟨hserve, fun hmediates => ?_⟩
  have hinside := hmediates.inside
  rw [hserve] at hinside
  exact absurd hinside.1 (cons_ne_nil 0 []).symm

end HelixRpc.Runtime.Go
