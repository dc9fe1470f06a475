import HelixRpc.Runtime.Go.Frames
import HelixRpc.Runtime.Rust.Server

/-!
# Frames with the compressed flag

What the decoder or the handler receives for a frame whose flag is 1, in the Go and the Rust server.
-/

namespace HelixRpc.Runtime

open Foundation Runtime.Go
variable {Resp : Type}

/-- The compressor that `grpc-encoding` names; none if the header is missing or empty, or if the name is
unknown. -/
def namedCompressor (getCompressor : Text → Option Compressor) (grpcEncoding : Text) : Option Compressor :=
  if grpcEncoding = [] then none else getCompressor grpcEncoding

def DecompressesTo (comp : Option Compressor) (payload message : Bytes) : Prop :=
  ∃ c, comp = some c ∧ c.decompress payload = .ok message

def OnlyDecompressed (comp : Option Compressor) (payload : Bytes) (received : Option Bytes) : Prop :=
  ∀ message, received = some message → DecompressesTo comp payload message

def Go.nextPayload (body : Body) : Option Bytes × Body :=
  match recvPayload body with
  | .ok (payload, body) => (some payload, body)
  | .error _ => (none, ([], body.2))

def Rust.nextPayload (s : Rust.GrpcServerStream) : Option Bytes × Rust.GrpcServerStream :=
  match s.recv with
  | (.ok payload, s) => (payload, s)
  | (.error _, s) => (none, s)

def Rust.Invocation.message : Rust.Invocation → Option Bytes
  | .health body _ => some body
  | .handler _ body _ => some body
  | _ => none

section
variable (m : FramedMessage) (rest : Bytes)

theorem Go.nextPayload_message (err : Option Text) :
    Go.nextPayload (m.bytes ++ rest, err) = (some m.payload, (rest, err)) := by
  rw [Go.nextPayload, recvPayload_complete (m.complete rest), m.declaredPayload_bytes, m.drop_bytes]

theorem Rust.nextPayload_message : Rust.nextPayload ⟨[], m.bytes ++ rest⟩ = (some m.payload, ⟨[], rest⟩) := by
  rw [Rust.nextPayload, Rust.GrpcServerStream.recv_complete (m.complete rest), m.declaredPayload_bytes, m.drop_bytes]

theorem Go.nthMessage_stream (before : List FramedMessage) (err : Option Text) : nthMessage Go.nextPayload before.length
      (before.flatMap FramedMessage.bytes ++ (m.bytes ++ rest), err) = some m.payload :=
  nthMessage_messages (fun bytes => (bytes, err))
    (fun m rest => Go.nextPayload_message m rest err) before m rest

theorem Rust.nthMessage_stream (before : List FramedMessage) : nthMessage Rust.nextPayload before.length
      (.ofBytes (before.flatMap FramedMessage.bytes ++ (m.bytes ++ rest))) = some m.payload := by
  have hfirst : ∀ k bytes, nthMessage Rust.nextPayload k (.ofBytes bytes) =
      nthMessage Rust.nextPayload k ⟨[], bytes⟩ := by
    intro k bytes
    have hnext : Rust.nextPayload (.ofBytes bytes) = Rust.nextPayload ⟨[], bytes⟩ := by
      rw [Rust.nextPayload, Rust.GrpcServerStream.recv_ofBytes, Rust.nextPayload]
    cases k <;> rw [nthMessage, hnext, nthMessage]
  rw [hfirst]
  exact nthMessage_messages (fun bytes => Rust.GrpcServerStream.mk [] bytes)
    (fun m rest => Rust.nextPayload_message m rest) before m rest

variable {comp : Option Compressor} {payload message : Bytes}

theorem onlyDecompressed_some : OnlyDecompressed comp payload (some message) ↔ DecompressesTo comp payload message :=
  ⟨fun h => h message rfl, fun h _ heq => Option.some.inj heq ▸ h⟩

theorem not_onlyDecompressed : ¬ OnlyDecompressed none payload (some message) :=
  fun h => absurd (onlyDecompressed_some.1 h) fun ⟨_, heq, _⟩ => nomatch heq

theorem onlyDecompressed_none : OnlyDecompressed comp payload none :=
  nofun

theorem Go.unary_iff (lib : Go.Library Resp) (grpcEncoding : Text) (err : Option Text) (hflag : m.flag = 1) :
    OnlyDecompressed (namedCompressor lib.getCompressor grpcEncoding) m.payload
        (readGrpcFrame lib grpcEncoding (m.bytes ++ rest, err)).toOption ↔
      (namedCompressor lib.getCompressor grpcEncoding).isSome = true := by
  rw [readGrpcFrame_complete (m.complete rest), m.declaredPayload_bytes, m.head_bytes, hflag,
    unaryPayload, namedCompressor]
  by_cases henc : grpcEncoding = []
  · -- without a name the payload is kept
    rw [if_pos henc, if_neg fun h => h.2 henc]
    exact ⟨fun h => absurd h not_onlyDecompressed, nofun⟩
  · rw [if_neg henc, if_pos ⟨rfl, henc⟩]
    cases lib.getCompressor grpcEncoding with
    | none =>
      exact ⟨fun h => absurd h not_onlyDecompressed, nofun⟩
    | some comp =>
      refine ⟨fun _ => rfl, fun _ => ?_⟩
      dsimp only
      cases hdecompress : comp.decompress m.payload with
      | error e => exact onlyDecompressed_none
      | ok message => exact onlyDecompressed_some.2 ⟨comp, rfl, hdecompress⟩

theorem Rust.unframe_iff (lib : Rust.Library) (web : GrpcWeb) (grpcEncoding : Text) (hflag : m.flag = 1) :
    OnlyDecompressed (namedCompressor lib.getCompressor grpcEncoding) m.payload
        (Rust.unframe lib web grpcEncoding (m.bytes ++ rest)).toOption ↔ grpcEncoding ≠ [] := by
  rw [Rust.unframe_complete (m.complete rest), m.declaredPayload_bytes, m.head_bytes, hflag, namedCompressor]
  by_cases henc : grpcEncoding = []
  · rw [if_pos henc, if_neg fun h => h.2 henc]
    exact ⟨fun h => absurd h not_onlyDecompressed, fun h => absurd henc h⟩
  · refine ⟨fun _ => henc, fun _ => ?_⟩
    rw [if_neg henc, if_pos ⟨rfl, henc⟩, Rust.decompress]
    -- an unknown name is refused
    cases lib.getCompressor grpcEncoding with
    | none => exact onlyDecompressed_none
    | some comp =>
      dsimp only
      cases hdecompress : comp.decompress m.payload with
      | error e => exact onlyDecompressed_none
      | ok message => exact onlyDecompressed_some.2 ⟨comp, rfl, hdecompress⟩

theorem Rust.handlerPayload_iff (lib : Rust.Library) (contentType grpcEncoding : Text) (hflag : m.flag = 1) :
    OnlyDecompressed (namedCompressor lib.getCompressor grpcEncoding) m.payload
    (Rust.handlerPayload lib contentType grpcEncoding (m.bytes ++ rest)).toOption ↔ if
    (Rust.framing contentType).isSome then grpcEncoding ≠ [] else DecompressesTo
    (namedCompressor lib.getCompressor grpcEncoding) m.payload (m.bytes ++ rest) := by
  rw [Rust.handlerPayload]
  cases Rust.framing contentType with
  | none => exact onlyDecompressed_some
  | some web => exact Rust.unframe_iff m rest lib web grpcEncoding hflag

theorem Rust.health_message (lib : Rust.Library) (check : Bytes → Codec → Except Text (Bytes × Text)) :
    (Rust.serveHealth lib check "application/grpc".toList (m.bytes ++ rest)).1.head?.bind
      Rust.Invocation.message = some m.payload := by
  have hcomplete := m.complete rest
  have hwhole : ¬ (5 ≤ (m.bytes ++ rest).length ∧ (m.bytes ++ rest).length < 5 + declaredLength (m.bytes ++ rest)) :=
    fun h => absurd h.2 (not_lt.2 hcomplete.enough)
  have hgrpc : Rust.framing "application/grpc".toList = some .no := rfl
  simp only [Rust.serveHealth, hgrpc, if_true, if_neg hwhole, if_pos hcomplete.header, m.declaredPayload_bytes]
  cases check m.payload (Rust.codecOf "application/grpc".toList) <;> rfl
end

/-- For a frame whose flag is 1, only the output of the named decompressor is received: in unary calls of Go exactly
if the name is known, in those of Rust exactly if the header is not empty; in streams and in the health check exactly
if the decompressor maps the payload to itself. -/
theorem compressed_frames_iff (goLib : Go.Library Resp) (rustLib : Rust.Library)
    (contentType grpcEncoding : Text) (check : Bytes → Codec → Except Text (Bytes × Text))
    (before : List FramedMessage) (m : FramedMessage) (hflag : m.flag = 1) (rest : Bytes)
    (err : Option Text) :
    let goComp := namedCompressor goLib.getCompressor grpcEncoding
    let rustComp := namedCompressor rustLib.getCompressor grpcEncoding
    let stream := before.flatMap FramedMessage.bytes ++ (m.bytes ++ rest)
    (OnlyDecompressed goComp m.payload (readGrpcFrame goLib grpcEncoding (m.bytes ++ rest, err)).toOption ↔
      goComp.isSome = true) ∧
    (OnlyDecompressed goComp m.payload (nthMessage Go.nextPayload before.length (stream, err)) ↔
      DecompressesTo goComp m.payload m.payload) ∧ (OnlyDecompressed rustComp m.payload
        (Rust.handlerPayload rustLib contentType grpcEncoding (m.bytes ++ rest)).toOption ↔
      if (Rust.framing contentType).isSome then grpcEncoding ≠ []
      else DecompressesTo rustComp m.payload (m.bytes ++ rest)) ∧
    (OnlyDecompressed rustComp m.payload (nthMessage Rust.nextPayload before.length (.ofBytes stream)) ↔
      DecompressesTo rustComp m.payload m.payload) ∧ (OnlyDecompressed rustComp m.payload
        ((Rust.serveHealth rustLib check "application/grpc".toList (m.bytes ++ rest)).1.head?.bind
          Rust.Invocation.message) ↔ DecompressesTo rustComp m.payload m.payload) := by
  refine ⟨Go.unary_iff m rest goLib grpcEncoding err hflag, ?_,
    Rust.handlerPayload_iff m rest rustLib contentType grpcEncoding hflag, ?_, ?_⟩
  · rw [Go.nthMessage_stream]
    exact onlyDecompressed_some
  · rw [Rust.nthMessage_stream]
    exact onlyDecompressed_some
  · rw [Rust.health_message]
    exact onlyDecompressed_some

def markingCompressor : Compressor where
  compress bytes := .ok (0x1f :: bytes)
  decompress bytes := .ok bytes.tail

def Go.markingLibrary : Go.Library Unit :=
  ⟨id, fun _ => .ok [], fun _ => none, fun name => if name = "gzip".toList then some markingCompressor else none⟩

def Rust.markingLibrary : Rust.Library := ⟨.ok, markingCompressor, fun _ body => body, fun _ => true⟩

def markedMessage : FramedMessage := ⟨1, [0x1f, 0x08], by decide⟩

theorem compressed_frames_iff_gzip : OnlyDecompressed (namedCompressor Go.markingLibrary.getCompressor "gzip".toList)
        markedMessage.payload
        (readGrpcFrame Go.markingLibrary "gzip".toList (markedMessage.bytes ++ [], none)).toOption ∧
      OnlyDecompressed (namedCompressor Rust.markingLibrary.getCompressor "gzip".toList)
        markedMessage.payload
        (Rust.handlerPayload Rust.markingLibrary "application/grpc".toList "gzip".toList
          (markedMessage.bytes ++ [])).toOption :=
  have hframes := compressed_frames_iff Go.markingLibrary Rust.markingLibrary
    "application/grpc".toList "gzip".toList (fun _ _ => .error []) [] markedMessage rfl [] none
  ⟨hframes.1.2 rfl, hframes.2.2.1.2 (show "gzip".toList ≠ [] by decide)⟩

theorem compressed_bytes_received : markingCompressor.decompress [0x1f, 0x08] = .ok [0x08] ∧
      readGrpcFrame Go.markingLibrary [] (markedMessage.bytes, none) = .ok [0x1f, 0x08] ∧
      readGrpcFrame Go.markingLibrary "snappy".toList (markedMessage.bytes, none) = .ok [0x1f, 0x08] ∧
      Rust.handlerPayload Rust.markingLibrary "application/grpc".toList [] markedMessage.bytes = .ok [0x1f, 0x08] ∧
      nthMessage Go.nextPayload 0 (markedMessage.bytes, none) = some [0x1f, 0x08] ∧
      nthMessage Rust.nextPayload 0 (.ofBytes markedMessage.bytes) = some [0x1f, 0x08] :=
  ⟨rfl, rfl, rfl, rfl, rfl, rfl⟩

end HelixRpc.Runtime
