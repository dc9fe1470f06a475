import HelixRpc.Foundation.Base64
import HelixRpc.Foundation.MessageFrame
import HelixRpc.Foundation.Trailers
import HelixRpc.Foundation.Utf8
import HelixRpc.Runtime.Go.GrpcHandler

/-!
# `web_handler`

Model of the request handler that `HelixServer.register_route` makes
(`runtimes/python/helix_rt/server.py`, `errors.py`).
-/

namespace HelixRpc.Runtime.Python

open Foundation Runtime.Go
variable {Json : Type}

inductive ErrorCode where
  | ok
  | invalidArgument
  | notFound
  | alreadyExists
  | permissionDenied
  | unimplemented
  | internal
  | unavailable
  | unauthenticated
  deriving DecidableEq

def ErrorCode.value : ErrorCode → Nat
  | ok => 0
  | invalidArgument => 3
  | notFound => 5
  | alreadyExists => 6
  | permissionDenied => 7
  | unimplemented => 12
  | internal => 13
  | unavailable => 14
  | unauthenticated => 16

def ErrorCode.httpStatus : ErrorCode → Nat
  | ok => 200
  | invalidArgument => 400
  | notFound => 404
  | alreadyExists => 409
  | permissionDenied => 403
  | unimplemented => 501
  | internal => 500
  | unavailable => 503
  | unauthenticated => 401

def ErrorCode.grpcStatus (code : ErrorCode) : Text := Nat.toDigits 10 code.value

inductive Exc where
  | helix (code : ErrorCode) (message : Text)
  | valueError (text : Text)
  | keyError (text : Text)
  | other (text : Text)
  deriving DecidableEq

def Exc.status : Exc → Text
  | .helix code _ => code.grpcStatus
  | _ => "13".toList

def Exc.text : Exc → Text
  | .helix _ message => message
  | .valueError text => text
  | .keyError text => text
  | .other text => text

structure Library (Json : Type) where
  b64decode : Bytes → Except Text Bytes
  decompress : Bytes → Except Exc Bytes
  compress : Bytes → Bytes
  loads : Bytes → Except Exc Json
  emptyObject : Json
  requestJson : Bytes → Except Exc Json
  dumps : Json → Except Exc Bytes
  errorBody : Text → Option Text → Bytes

inductive Body (Json : Type) where
  | bytes (b : Bytes)
  | json (value : Json)

structure Resp (Json : Type) where
  marshalFlatbuffers : Option (Except Exc Bytes)
  asdict : Option Json
  value : Json
  aiter : Option (Except Exc Unit)

structure Request where
  contentType : Text
  grpcEncoding : Text
  grpcTimeout : Option Text
  isWebSocket : Bool
  body : Bytes

structure Response where
  status : Nat
  contentType : Text
  body : Option Bytes
  deriving DecidableEq

abbrev Outcome (Json : Type) := List (Body Json) × Except Exc Response

def startsWith (text start : Text) : Bool := start.isPrefixOf text

def isGrpcWeb (ct : Text) : Bool := startsWith ct "application/grpc-web".toList

def isGrpcWebText (ct : Text) : Bool := startsWith ct "application/grpc-web-text".toList

def isFlatbuffers (ct : Text) : Bool :=
  contains ct "application/x-flatbuffers".toList || contains ct "application/grpc+flatbuffers".toList

def asciiBytes (text : Text) : Bytes := text.map fun ch => UInt8.ofNat ch.toNat

def encodeAscii (text : Text) : Except Exc Bytes :=
  if text.all fun ch => decide (ch.toNat < 128) then .ok (asciiBytes text)
  else .error (.valueError "'ascii' codec can't encode character".toList)

def lengthBytes (b : Bytes) : Except Exc Bytes :=
  if b.length < 2 ^ 32 then .ok (bigEndian 4 b.length)
  else .error (.other "int too big to convert".toList)

def pyFrame (flag : UInt8) (payload : Bytes) : Except Exc Bytes := do
  let length ← lengthBytes payload
  return flag :: (length ++ payload)

def trailersFrame (trailersStr : Text) : Except Exc Bytes := do
  let trailersBytes ← encodeAscii trailersStr
  pyFrame 0x80 trailersBytes

def trailersStr (status message : Text) : Text :=
  "grpc-status: ".toList ++ (status ++ ("\r\ngrpc-message: ".toList ++ (message ++ "\r\n".toList)))

def webResponse (ct : Text) (frames : Bytes) : Response :=
  ⟨200, ct, some (if isGrpcWebText ct then Base64.encode frames else frames)⟩

section
variable (lib : Library Json)

def framePayload (ct : Text) (rawBody : Bytes) : Except Exc Bytes := do
  let rawBody ←
    if isGrpcWebText ct then
      match lib.b64decode rawBody with
      | .ok decoded => .ok decoded
      | .error err =>
        .error (.helix .invalidArgument ("Failed to decode base64 body: ".toList ++ err))
    else .ok rawBody
  if rawBody.length < 5 then .error (.helix .invalidArgument "grpc frame too small".toList)
  else if rawBody.length < 5 + declaredLength rawBody then
    .error (.helix .invalidArgument "grpc frame payload truncated".toList)
  -- whatever `grpc-encoding` says
  else if rawBody.head? = some 1 then lib.decompress (declaredPayload rawBody)
  else .ok (declaredPayload rawBody)

def messageBody (ct : Text) (payload : Bytes) : Except Exc (Body Json) :=
  if isFlatbuffers ct then .ok (.bytes payload)
  else if payload = [] then .ok (.json lib.emptyObject)
  else (lib.loads payload).map .json

variable (req : Request)

def requestBody : Except Exc (Body Json) :=
  if isGrpcWeb req.contentType then
    framePayload lib req.contentType req.body >>= messageBody lib req.contentType
  -- the header of a frame is not taken off
  else if isFlatbuffers req.contentType then .ok (.bytes req.body)
  else (lib.requestJson req.body).map .json

variable (resp : Resp Json)

def respBytes : Except Exc Bytes :=
  match resp.marshalFlatbuffers with
  | some marshaled => marshaled
  | none => lib.dumps (resp.asdict.getD resp.value)

def combinedFrame : Except Exc Bytes := do
  let payload ← respBytes lib resp
  let responseFrame ← pyFrame 0 payload
  let trailers ← trailersFrame (trailersStr "0".toList [])
  return responseFrame ++ trailers

def plainResponse : Except Exc Response :=
  match resp.aiter with
  | some iteration => do
      iteration
      return ⟨200, if req.isWebSocket then [] else "text/event-stream".toList, none⟩
  | none =>
    match isFlatbuffers req.contentType, resp.marshalFlatbuffers with
    | true, some marshaled => do
        let bytes ← marshaled
        return ⟨200, "application/x-flatbuffers".toList, some bytes⟩
    | _, _ => do
        let bytes ← lib.dumps (resp.asdict.getD resp.value)
        return ⟨200, "application/json".toList, some bytes⟩

def respond : Except Exc Response :=
  if isGrpcWeb req.contentType then do
    let frames ← combinedFrame lib resp
    return webResponse req.contentType frames
  else plainResponse lib req resp

def handleExc (exc : Exc) : Except Exc Response :=
  if isGrpcWeb req.contentType then do
    -- an exception here leaves `web_handler`
    let frame ← trailersFrame (trailersStr exc.status exc.text)
    return webResponse req.contentType frame
  else
    match exc with
    | .helix code message =>
      .ok ⟨code.httpStatus, "application/json".toList, some (lib.errorBody message (some code.grpcStatus))⟩
    | _ => .ok ⟨500, "application/json".toList, some (lib.errorBody exc.text none)⟩

def webHandler (handler : Nat → Body Json → Except Exc (Resp Json)) (attempt : Nat) (req : Request) : Outcome Json :=
  match requestBody lib req with
  | .error exc => ([], handleExc lib req exc)
  | .ok body =>
    match handler attempt body >>= respond lib req with
    | .ok response => ([body], .ok response)
    | .error exc => ([body], handleExc lib req exc)
end

end HelixRpc.Runtime.Python
