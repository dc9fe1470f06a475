import HelixRpc.Foundation.MessageFrame
import HelixRpc.Foundation.Utf8
import HelixRpc.Runtime.Go.GrpcHandler

/-!
# The streams of the Go server

Model of the three implementations of `ServerStream`: `serverStream` and `sseServerStream`
(`runtimes/go/grpc_handler.go`) and `WebSocketStream` (`runtimes/go/websocket.go`).
-/

namespace HelixRpc.Runtime.Go

open Foundation List
variable {Ctx Req Resp σ : Type}

structure MessageCodec (Req Resp : Type) where
  sonicUnmarshal : Bytes → Except Text Req
  jsonUnmarshal : Bytes → Except Text Req
  unmarshal : Bytes → Except Text Req
  unmarshalFlatBuffers : Bytes → Except Text Req
  sonicEncode : Resp → Except Text Bytes
  jsonMarshal : Resp → Except Text Bytes
  marshal : Resp → Except Text Bytes
  marshalFlatBuffers : Resp → Bytes

variable (m : MessageCodec Req Resp)

def MessageCodec.decode : Codec → Bytes → Except Text Req
  | .json => m.sonicUnmarshal
  | .proto => m.unmarshal
  | .flatbuffers => m.unmarshalFlatBuffers

inductive CodecUse where
  | decode (codec : Codec)
  | encode (codec : Codec)
  deriving DecidableEq

def CodecUse.codec : CodecUse → Codec
  | .decode codec => codec
  | .encode codec => codec

structure Used (σ α : Type) where
  result : α
  uses : List CodecUse
  stream : σ

structure StreamImpl (σ Req Resp : Type) where
  recv : σ → Used σ (Except Text Req)
  send : Resp → σ → Used σ (Option Text)

inductive StreamProgram (Req Resp : Type) where
  | done (err : Option Text)
  | recv (next : Except Text Req → StreamProgram Req Resp)
  | send (resp : Resp) (next : Option Text → StreamProgram Req Resp)

def StreamProgram.run (impl : StreamImpl σ Req Resp) : StreamProgram Req Resp → σ → Used σ (Option Text)
  | .done err, s => ⟨err, [], s⟩
  | .recv next, s =>
    let received := impl.recv s
    let rest := (next received.result).run impl received.stream
    ⟨rest.result, received.uses ++ rest.uses, rest.stream⟩
  | .send resp next, s =>
    let sent := impl.send resp s
    let rest := (next sent.result).run impl sent.stream
    ⟨rest.result, sent.uses ++ rest.uses, rest.stream⟩

structure Writer where
  written : Bytes
  fails : Bytes → Bytes → Option Text

def Writer.writeAll : List Bytes → Writer → Option Text × Writer
  | [], w => (none, w)
  | chunk :: chunks, w =>
    match w.fails w.written chunk with
    | some err => (some err, w)
    | none => writeAll chunks { w with written := w.written ++ chunk }

structure GrpcStream where
  body : Body
  writer : Writer
  codec : Text

def GrpcStream.streamCodec (s : GrpcStream) : Codec :=
  if s.codec = "flatbuffers".toList then .flatbuffers else .proto

def recvPayload (body : Body) : Except Text (Bytes × Body) := do
  let (frameHeader, body) ← readFull 5 body
  readFull (uint32 frameHeader.tail) body

def sendPayload (codec : Codec) (resp : Resp) : Except Text Bytes :=
  if codec = .flatbuffers then .ok (m.marshalFlatBuffers resp) else m.marshal resp

def grpcStream : StreamImpl GrpcStream Req Resp where
  recv s :=
    match recvPayload s.body with
    | .error err => ⟨.error err, [], { s with body := ([], s.body.2) }⟩
    | .ok (payload, body) =>
      ⟨m.decode s.streamCodec payload, [.decode s.streamCodec], { s with body := body }⟩
  send resp s :=
    match sendPayload m s.streamCodec resp with
    | .error err => ⟨some err, [.encode s.streamCodec], s⟩
    | .ok payload =>
      let (err, writer) :=
        s.writer.writeAll [0 :: bigEndian 4 payload.length, payload]
      ⟨err, [.encode s.streamCodec], { s with writer := writer }⟩

structure SseStream where
  payload : Bytes
  read : Bool
  writer : Writer

def trimNewline (serialized : Bytes) : Bytes :=
  if serialized.getLast? = some 0x0a then serialized.dropLast else serialized

def sseStream : StreamImpl SseStream Req Resp where
  recv s :=
    if s.read then ⟨.error "EOF".toList, [], s⟩
    else ⟨m.sonicUnmarshal s.payload, [.decode .json], { s with read := true }⟩
  send resp s :=
    match m.sonicEncode resp with
    | .error err => ⟨some err, [.encode .json], s⟩
    | .ok serialized =>
      let (err, writer) :=
        s.writer.writeAll [utf8Bytes "data: ", trimNewline serialized, utf8Bytes "\n\n"]
      ⟨err, [.encode .json], { s with writer := writer }⟩

/-- `WebSocketStream`: the results of the calls to `ReadMessage` to come, what has been sent, and why
`WriteMessage` fails, if it does. -/
structure SocketStream where
  incoming : Nat → Except Text Bytes
  sent : List Bytes
  fails : List Bytes → Bytes → Option Text

def socketStream : StreamImpl SocketStream Req Resp where
  recv s :=
    let rest : SocketStream := { s with incoming := fun n => s.incoming (n + 1) }
    match s.incoming 0 with
    | .error err => ⟨.error err, [], rest⟩
    | .ok data => ⟨m.jsonUnmarshal data, [.decode .json], rest⟩
  send resp s :=
    match m.jsonMarshal resp with
    | .error err => ⟨some err, [.encode .json], s⟩
    | .ok data =>
      match s.fails s.sent data with
      | some err => ⟨some err, [.encode .json], s⟩
      | none => ⟨none, [.encode .json], { s with sent := s.sent ++ [data] }⟩

section
variable (m : MessageCodec Req Resp)

variable (program : StreamProgram Req Resp)

end

end HelixRpc.Runtime.Go
