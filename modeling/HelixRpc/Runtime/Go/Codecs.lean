import HelixRpc.Runtime.Go.ServerStream

/-!
# The codecs of a call to the Go server

`ServeHTTP` selects a codec from the content type (`codecOf`).
-/

namespace HelixRpc.Runtime.Go

open Foundation List
variable {Ctx Req Resp : Type}

structure Method (Ctx Req Resp : Type) where
  messages : MessageCodec Req Resp
  handler : Ctx → Req → CallResult Resp
  binder : Option (Req → Params → Except Text Req)
  program : Option (Ctx → StreamProgram Req Resp)

structure Peer where
  incoming : Nat → Except Text Bytes
  socketFails : List Bytes → Bytes → Option Text
  writeFails : Bytes → Bytes → Option Text

variable (m : Method Ctx Req Resp)

/-- The call of `StreamHandler`, with the codecs that it uses. -/
def Method.stream (peer : Peer) : ServerStream Ctx → List CodecUse × Option Text
  | .webSocket ctx =>
    match m.program with
    | none => ([], none)
    | some program =>
      let run := (program ctx).run (socketStream m.messages) ⟨peer.incoming, [], peer.socketFails⟩
      (run.uses, run.result)
  | .sse ctx payload =>
    match m.program with
    | none => ([], none)
    | some program =>
      let run := (program ctx).run (sseStream m.messages) ⟨payload, false, ⟨[], peer.writeFails⟩⟩
      (run.uses, run.result)
  | .grpc ctx body =>
    match m.program with
    | none => ([], none)
    | some program =>
      let run := (program ctx).run (grpcStream m.messages) ⟨body, ⟨[], peer.writeFails⟩, []⟩
      (run.uses, run.result)

def Method.info (peer : Peer) : MethodInfo Ctx Req Resp where
  decoder := m.messages.decode
  handler := m.handler
  binder := m.binder
  isStreaming := m.program.isSome
  streamHandler stream := (m.stream peer stream).2

/-- The stream that `ServeHTTP` makes for a streaming method: none if the upgrade or the reading of the body fails. -/
def openedStream {Resp : Type} (lib : Library Resp) (r : Request Ctx) : Option (ServerStream Ctx) :=
  if r.isWebSocketUpgrade then
    match r.upgradeError with
    | some _ => none
    | none => some (.webSocket r.requestCtx)
  else if isSSE r then
    match readAll (bodyOf lib r) with
    | .error _ => none
    | .ok payload => some (.sse r.ctx (jsonPayload payload))
  else some (.grpc r.ctx (bodyOf lib r))

section
variable (lib : Library Resp) (h : GRPCHandler Ctx Req Resp) (methodPath : Text)
  (m : Method Ctx Req Resp) (peer : Peer) (r : Request Ctx)

def Method.streamUses : List CodecUse :=
  match openedStream lib r with
  | none => []
  | some stream => (m.stream peer stream).1

def Method.jsonUses (pathParams : Params) : List CodecUse :=
  match readAll (bodyOf lib r) with
  | .error _ => []
  | .ok _ =>
    .decode .json ::
      match decodeJSON (m.info peer) (bodyOf lib r) pathParams with
      | .error _ => []
      | .ok req =>
        match (callMethod h methodPath (m.info peer) r.ctx req).2 with
        | .error _ => []
        | .ok _ => [.encode .json]

/-- The response is marshaled as protobuf whatever the codec of the request is, if it is a `ProtoMarshaler`. -/
def Method.grpcUses : List CodecUse :=
  match readGrpcFrame lib r.grpcEncoding (bodyOf lib r) with
  | .error _ => []
  | .ok payload =>
    .decode (codecOf r.contentType) ::
      match m.messages.decode (codecOf r.contentType) payload with
      | .error _ => []
      | .ok req =>
        match (callMethod h methodPath (m.info peer) r.ctx req).2 with
        | .error _ => []
        | .ok resp => if (lib.marshal resp).isSome then [.encode .proto] else []

/-- The codecs that a call of `serveMethod` uses, in their order. -/
def Method.uses (pathParams : Params) : List CodecUse :=
  if m.program.isSome then m.streamUses lib peer r
  else if contains (contentTypeOrJSON r.contentType) "application/json".toList then
    m.jsonUses lib h methodPath peer r pathParams
  else m.grpcUses lib h methodPath peer r

def Method.serve (pathParams : Params) : List CodecUse × Logged Invocation Response :=
  (m.uses lib h methodPath peer r pathParams, serveMethod lib h methodPath (m.info peer) r pathParams)

def errorOf {α : Type} : Except Text α → Option Text
  | .error err => some err
  | .ok _ => none

def ServerStream.ctx : ServerStream Ctx → Ctx
  | .webSocket ctx => ctx
  | .sse ctx _ => ctx
  | .grpc ctx _ => ctx

/-- The error of each receive, if those before it have failed; none where a message comes. -/
def ServerStream.errors : ServerStream Ctx → Nat → Option Text
  | .webSocket _, n => errorOf (peer.incoming n)
  | .sse _ _, _ => none
  | .grpc _ body, n => errorOf (recvPayload (if n = 0 then body else ([], body.2)))

end

section
variable {σ : Type}

variable (m : MessageCodec Req Resp) (program : StreamProgram Req Resp)

end

section
variable (lib : Library Resp) (h : GRPCHandler Ctx Req Resp) (methodPath : Text)
  (m : Method Ctx Req Resp) (peer : Peer) (r : Request Ctx)

def ServerStream.codec : ServerStream Ctx → Codec
  | .grpc _ _ => .proto
  | _ => .json

end

def byteMessages : MessageCodec Bytes Bytes where
  sonicUnmarshal := .ok
  jsonUnmarshal := .ok
  unmarshal := .ok
  unmarshalFlatBuffers := fun payload => .ok payload.tail
  sonicEncode := .ok
  jsonMarshal := .ok
  marshal := .ok
  marshalFlatBuffers := fun resp => 0 :: resp

def echoMethod : Method Unit Bytes Bytes := ⟨byteMessages, fun _ req => .ok req, none, none⟩

end HelixRpc.Runtime.Go
