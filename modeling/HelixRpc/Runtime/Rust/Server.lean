import HelixRpc.Foundation.MessageFrame
import HelixRpc.Runtime.Go.GrpcHandler
import HelixRpc.Runtime.Routers

/-!
# `HelixHttpService::call`

Model of the request handler of the Rust server (`runtimes/rust/src/server.rs`).
-/

namespace HelixRpc.Runtime.Rust

open Foundation Runtime.Go

structure GrpcServerStream where
  body : List (Except Text Bytes)
  buf : Bytes
  deriving DecidableEq

def readExact (n : Nat) : List (Except Text Bytes) → Bytes → Except Text Bytes × GrpcServerStream
  | [], buf =>
    if n ≤ buf.length then (.ok (buf.take n), ⟨[], buf.drop n⟩)
    else (.error "unexpected end of stream".toList, ⟨[], buf⟩)
  | chunk :: chunks, buf =>
    if n ≤ buf.length then (.ok (buf.take n), ⟨chunk :: chunks, buf.drop n⟩)
    else
      match chunk with
      | .ok bytes => readExact n chunks (buf ++ bytes)
      | .error err => (.error ("body read error: ".toList ++ err), ⟨chunks, buf⟩)

namespace GrpcServerStream

def hasMore (s : GrpcServerStream) : Bool × GrpcServerStream :=
  if s.buf ≠ [] then (true, s)
  else
    match s.body with
    | [] => (false, s)
    | .ok chunk :: chunks => (!chunk.isEmpty, ⟨chunks, chunk⟩)
    | .error _ :: chunks => (false, ⟨chunks, []⟩)

def recv (s : GrpcServerStream) : Except Text (Option Bytes) × GrpcServerStream :=
  match s.hasMore with
  | (false, s) => (.ok none, s)
  | (true, s) =>
    match readExact 5 s.body s.buf with
    | (.error err, s) => (.error err, s)
    | (.ok header, s) =>
      match readExact (uint32 header.tail) s.body s.buf with
      | (.error err, s) => (.error err, s)
      | (.ok payload, s) => (.ok (some payload), s)

def ofBytes (bytes : Bytes) : GrpcServerStream := ⟨if bytes = [] then [] else [.ok bytes], []⟩

end GrpcServerStream

def headerStr (value : Option Text) : Text :=
  match value with
  | some text =>
    if text.all fun ch => decide (ch = '\t' ∨ (32 ≤ ch.toNat ∧ ch.toNat < 127)) then text else []
  | none => []

structure Request where
  method : Text
  path : Text
  contentType : Option Text
  grpcEncoding : Option Text
  accept : Option Text
  isUpgrade : Bool
  upgradeError : Option Text
  body : Option Bytes
  expires : Bool

inductive Invocation where
  | webSocket (path : Text)
  | health (body : Bytes) (codec : Codec)
  | sse (path : Text) (body : Bytes) (codec : Codec)
  | stream (path : Text) (stream : GrpcServerStream)
  | handler (path : Text) (body : Bytes) (codec : Codec)
  deriving DecidableEq

inductive Reply where
  | webSocket
  | metrics
  | sse
  | text (status : Nat) (body : Text)
  | body (contentType : Text) (body : Bytes)
  | stream (status : Text)
  | grpc (web : GrpcWeb) (compressed : Bool) (payload : Bytes)
  | grpcError (web : GrpcWeb) (status message : Text)
  | panicked
  deriving DecidableEq

structure HelixHttpService where
  handler : Text → Bytes → Codec → Except Text (Bytes × Text)
  restRoutes : List RestRoute
  isStreaming : Text → Bool
  handleStream : Text → GrpcServerStream → Except Text Unit
  isSse : Text → Bool
  handleSse : Text → Bytes → Codec → Except Text Unit
  healthChecker : Option (Bytes → Codec → Except Text (Bytes × Text))
  disableMetrics : Bool

structure Library where
  base64Decode : Bytes → Except Text Bytes
  gzip : Compressor
  mergeParams : Params → Bytes → Bytes
  isHeaderValue : Text → Bool

def Library.getCompressor (lib : Library) (name : Text) : Option Compressor :=
  if name = "gzip".toList then some lib.gzip else none

variable (contentType : Text)

def codecOf : Codec :=
  if contentType = "application/json".toList then .json else Go.codecOf contentType

def framing : Option GrpcWeb :=
  if contentType = "application/grpc".toList then some .no
  else if contentType = "application/grpc-web".toList then some .binary
  else if contentType = "application/grpc-web-text".toList then some .text
  else none

def isSupported : Bool := codecOf contentType ≠ .proto || (framing contentType).isSome

section
variable (lib : Library) (svc : HelixHttpService)

/-- A reply with a gRPC status: in trailers, or in headers. -/
def grpcErrorReply (web : GrpcWeb) (status message : Text) : Reply :=
  if web = .no && !lib.isHeaderValue message then .panicked else .grpcError web status message

def bodyReply (contentType : Text) (body : Bytes) : Reply :=
  if lib.isHeaderValue contentType then .body contentType body else .panicked

def decompress (web : GrpcWeb) (grpcEncoding : Text) (payload : Bytes) : Except Reply Bytes :=
  match lib.getCompressor grpcEncoding with
  | some compressor =>
    match compressor.decompress payload with
    | .ok decompressed => .ok decompressed
    | .error err => .error (grpcErrorReply lib web "13".toList ("decompression error: ".toList ++ err))
  | none => .error
      (grpcErrorReply lib web "12".toList ("unsupported grpc-encoding: ".toList ++ grpcEncoding))

def unframe (web : GrpcWeb) (grpcEncoding : Text) (payload : Bytes) : Except Reply Bytes :=
  if payload.length < 5 then
    .error (grpcErrorReply lib web "13".toList "invalid frame header length".toList)
  else if payload.length < 5 + declaredLength payload then
    .error (grpcErrorReply lib web "13".toList "frame payload truncated".toList)
  else if payload.head? = some 1 ∧ grpcEncoding ≠ [] then
    decompress lib web grpcEncoding (declaredPayload payload)
  else .ok (declaredPayload payload)

def handlerPayload (contentType grpcEncoding : Text) (payload : Bytes) : Except Reply Bytes :=
  match framing contentType with
  | some web => unframe lib web grpcEncoding payload
  | none => .ok payload

def encodeResponse : Text → Bytes → Bool × Bytes := compressResponse lib.getCompressor

def handlerReply (contentType grpcEncoding : Text) : Except Text (Bytes × Text) → Reply
  | .ok (respBytes, respContentType) =>
    match framing contentType with
    | some web => .grpc web (encodeResponse lib grpcEncoding respBytes).1
        (encodeResponse lib grpcEncoding respBytes).2
    | none => bodyReply lib respContentType respBytes
  | .error errMsg =>
    let isDeadline := contains errMsg "deadline exceeded".toList
    match framing contentType with
    | some web => grpcErrorReply lib web (if isDeadline then "4".toList else "13".toList) errMsg
    | none => .text (if isDeadline then 504 else 500) errMsg

def callHandler (contentType grpcEncoding matchedPath : Text) (expires : Bool) (payload : Bytes) :
    List Invocation × Reply :=
  let codec := codecOf contentType
  let result :=
    if expires then .error "deadline exceeded".toList else svc.handler matchedPath payload codec
  ([.handler matchedPath payload codec], handlerReply lib contentType grpcEncoding result)

def serveHealth (check : Bytes → Codec → Except Text (Bytes × Text)) (contentType : Text)
    (payload : Bytes) : List Invocation × Reply :=
  let codec := codecOf contentType
  if framing contentType = some .no then
    -- the slice of a truncated frame panics
    if 5 ≤ payload.length ∧ payload.length < 5 + declaredLength payload then ([], .panicked)
    else
      let message := if 5 ≤ payload.length then declaredPayload payload else []
      match check message codec with
      | .ok (respBytes, _) => ([.health message codec], .grpc .no false respBytes)
      | .error err => ([.health message codec], grpcErrorReply lib .no "5".toList err)
  else
    match check payload codec with
    | .ok (respBytes, respContentType) =>
      ([.health payload codec], bodyReply lib respContentType respBytes)
    | .error err => ([.health payload codec], .text 404 err)

def healthPath : Text := "/grpc.health.v1.Health/Check".toList

variable (req : Request)

def routed : Text × Params :=
  match matchRoutes (toUpper req.method) req.path svc.restRoutes with
  | some (r, params) => (r.handlerPath, params)
  | none => (req.path, [])

def serveRequest (payload : Bytes) : List Invocation × Reply :=
  let contentType := headerStr req.contentType
  let grpcEncoding := headerStr req.grpcEncoding
  let (matchedPath, pathParams) := routed svc req
  let codec := codecOf contentType
  let payload := if codec = .json ∧ pathParams ≠ [] then lib.mergeParams pathParams payload else payload
  if req.accept = some "text/event-stream".toList ∧ svc.isSse matchedPath = true then
    match svc.handleSse matchedPath payload codec with
    | .ok _ => ([.sse matchedPath payload codec], .sse)
    | .error err => ([.sse matchedPath payload codec], .text 500 err)
  else if framing contentType = some .no ∧ svc.isStreaming matchedPath = true then
    let stream := GrpcServerStream.ofBytes payload
    match svc.handleStream matchedPath stream with
    | .ok _ => ([.stream matchedPath stream], .stream "0".toList)
    | .error _ => ([.stream matchedPath stream], .stream "13".toList)
  else
    match handlerPayload lib contentType grpcEncoding payload with
    | .error reply => ([], reply)
    | .ok payload => callHandler lib svc contentType grpcEncoding matchedPath req.expires payload

def respond : List Invocation × Reply :=
  let contentType := headerStr req.contentType
  if !isSupported contentType then ([], .text 400 "Unsupported Content-Type".toList)
  else
    match req.body with
    | none => ([], .text 500 "Failed to read body".toList)
    | some bytes =>
      let decoded :=
        if framing contentType = some .text then lib.base64Decode bytes else .ok bytes
      match decoded with
      | .error err => ([], .text 400 ("Failed to decode base64 body: ".toList ++ err))
      | .ok payload =>
        match svc.healthChecker with
        | some check =>
          if req.path = healthPath then serveHealth lib check contentType payload
          else serveRequest lib svc req payload
        | none => serveRequest lib svc req payload

def isMetricsPath (path : Text) : Bool :=
  path = "/metrics".toList || path = "/metrics/".toList || path = "/__helix/metrics".toList ||
    path = "/__helix/metrics/".toList

def call : List Invocation × Reply :=
  if req.isUpgrade && svc.isStreaming req.path then
    match req.upgradeError with
    | some err => ([], .text 400 ("WebSocket upgrade error: ".toList ++ err))
    | none => ([.webSocket req.path], .webSocket)
  else if !svc.disableMetrics && isMetricsPath req.path then ([], .metrics)
  else respond lib svc req
end

section
variable {lib : Library} {web : GrpcWeb} {grpcEncoding : Text} {body : Bytes}

theorem unframe_truncated (h : Truncated body) : unframe lib web grpcEncoding body =
    .error (grpcErrorReply lib web "13".toList "frame payload truncated".toList) := by
  have hheader : ¬ body.length < 5 := not_lt.2 h.header
  rw [unframe, if_neg hheader, if_pos h.short]

theorem unframe_complete (h : Complete body) : unframe lib web grpcEncoding body = if body.head? = some 1 ∧
    grpcEncoding ≠ [] then decompress lib web grpcEncoding (declaredPayload body) else .ok (declaredPayload body) := by
  have hheader : ¬ body.length < 5 := not_lt.2 h.header
  have henough : ¬ body.length < 5 + declaredLength body := not_lt.2 h.enough
  rw [unframe, if_neg hheader, if_neg henough]
end

theorem readExact_of_le {n : Nat} {buf : Bytes} (h : n ≤ buf.length) (chunks : List (Except Text Bytes)) :
    readExact n chunks buf = (.ok (buf.take n), ⟨chunks, buf.drop n⟩) := by
  cases chunks with
  | nil => rw [readExact, if_pos h]
  | cons chunk chunks =>
    rw [readExact.eq_def]
    exact if_pos h

namespace GrpcServerStream

theorem recv_ofBytes (bytes : Bytes) : (ofBytes bytes).recv = recv ⟨[], bytes⟩ := by
  cases bytes <;> rfl

theorem recv_complete {bytes : Bytes} (h : Complete bytes) : recv ⟨[], bytes⟩ =
      (.ok (some (declaredPayload bytes)), ⟨[], (bytes.drop 5).drop (declaredLength bytes)⟩) := by
  have hne : bytes ≠ [] := by
    rintro rfl
    exact absurd h.header (by decide)
  have hmore : hasMore ⟨[], bytes⟩ = (true, ⟨[], bytes⟩) := by rw [hasMore, if_pos hne]
  simp only [recv, hmore, readExact_of_le h.header, uint32, ofBigEndian_header, readExact_of_le h.declared_le]
  rfl

end GrpcServerStream

end HelixRpc.Runtime.Rust
