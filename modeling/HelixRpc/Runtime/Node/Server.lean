import HelixRpc.Foundation.MessageFrame
import HelixRpc.Runtime.Go.GrpcHandler

/-!
# gRPC calls to the Node server

Model of `handleHTTP2` and of the gRPC-Web branch of `handleHTTP1` (`runtimes/node/src/server.ts`).
-/

namespace HelixRpc.Runtime.Node

open Foundation Runtime.Go
variable {Json Req Resp : Type}

structure Library (Json : Type) where
  gunzipSync : Bytes → Except Text Bytes
  gzipSync : Bytes → Except Text Bytes
  toUtf8 : Bytes → Text
  parse : Text → Except Text Json
  emptyObject : Json
  fromBase64 : Bytes → Bytes

structure MethodInfo (Json Req Resp : Type) where
  decodeFlatBuffers : Bytes → Except Text Req
  decodeJSON : Json → Except Text Req
  handler : Req → Except Text Resp
  encode : Resp → Except Text Bytes

inductive Reply where
  | grpc (web : GrpcWeb) (compressed : Bool) (payload : Bytes)
  | grpcError (web : GrpcWeb) (status message : Text)
  deriving DecidableEq

section
variable (lib : Library Json) (methodInfo : MethodInfo Json Req Resp)

def framePayload (rawFrame : Bytes) : Except Text Bytes :=
  if rawFrame.length < 5 then .error "grpc frame too small".toList
  -- there is no comparison of `len` with the length of the body
  else if rawFrame.head? = some 1 then lib.gunzipSync (declaredPayload rawFrame)
  else .ok (declaredPayload rawFrame)

def decodeRequest (payload : Bytes) : Except Text Req :=
  if payload.head? = some 4 then methodInfo.decodeFlatBuffers payload
  else do
    let str := lib.toUtf8 payload
    let json ← if str = [] then .ok lib.emptyObject else lib.parse str
    methodInfo.decodeJSON json

def encodeResponse (web : GrpcWeb) (acceptEncoding : Text) (resp : Resp) : Except Text Reply := do
  let respBytes ← methodInfo.encode resp
  if contains acceptEncoding "gzip".toList then
    let finalBytes ← lib.gzipSync respBytes
    return .grpc web true finalBytes
  else return .grpc web false respBytes

def serveFrame (web : GrpcWeb) (acceptEncoding : Text) (rawFrame : Bytes) : List Req × Reply :=
  match framePayload lib rawFrame >>= decodeRequest lib methodInfo with
  | .error message => ([], .grpcError web "13".toList message)
  | .ok req =>
    match methodInfo.handler req >>= encodeResponse lib methodInfo web acceptEncoding with
    | .ok reply => ([req], reply)
    | .error message => ([req], .grpcError web "13".toList message)

def handleHTTP2 (method : Option (MethodInfo Json Req Resp)) (acceptEncoding : Text)
    (chunks : List Bytes) : List Req × Reply :=
  match method with
  | none => ([], .grpcError .no "12".toList "unimplemented".toList)
  | some methodInfo => serveFrame lib methodInfo .no acceptEncoding chunks.flatten
end

end HelixRpc.Runtime.Node
