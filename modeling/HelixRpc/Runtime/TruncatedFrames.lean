import HelixRpc.Runtime.Go.Frames
import HelixRpc.Runtime.Node.Server
import HelixRpc.Runtime.Python.Server
import HelixRpc.Runtime.Rust.Server

/-!
# Truncated frames

A body has a frame header of five bytes that declares the length of the payload.
-/

namespace HelixRpc.Runtime

open Foundation Runtime.Go List Option
variable {Ctx Req Resp Json : Type}

def MadeOf (decompress : Bytes → Option Bytes) (payload message : Bytes) : Prop :=
  message = payload ∨ decompress payload = some message

structure FollowsHeader (body : Bytes) (decompress : Bytes → Option Bytes) (invoked : Prop)
    (message : Option Bytes) : Prop where
  truncated : Truncated body → ¬ invoked
  complete : Complete body → ∀ m, message = some m → MadeOf decompress (declaredPayload body) m

def decompressorOf (getCompressor : Text → Option Compressor) (grpcEncoding : Text) (payload : Bytes) : Option Bytes :=
  (getCompressor grpcEncoding).bind fun comp => (comp.decompress payload).toOption

variable {grpcEncoding : Text}

theorem madeOf_decompress {getCompressor : Text → Option Compressor} {comp : Compressor}
    (hcomp : getCompressor grpcEncoding = some comp) {payload message : Bytes}
    (hdecompress : comp.decompress payload = .ok message) :
    MadeOf (decompressorOf getCompressor grpcEncoding) payload message := by
  refine Or.inr ?_
  rw [decompressorOf, hcomp, bind_some, hdecompress]
  rfl

def headerOnly : Bytes := [0, 0, 0, 0, 1]

theorem truncated_headerOnly : Truncated headerOnly := ⟨by decide, by decide⟩

theorem Go.unaryPayload_madeOf {lib : Go.Library Resp} {flag : Option UInt8} {payload message : Bytes}
    (h : (unaryPayload lib grpcEncoding flag payload).toOption = some message) : MadeOf
    (decompressorOf lib.getCompressor grpcEncoding) payload message := by
  unfold unaryPayload at h
  split at h
  · cases hcomp : lib.getCompressor grpcEncoding with
    | none =>
      rw [hcomp] at h
      exact Or.inl (some.inj h).symm
    | some comp =>
      simp only [hcomp] at h
      cases hdecompress : comp.decompress payload with
      | error e =>
        rw [hdecompress] at h
        cases h
      | ok decompressed =>
        rw [hdecompress] at h
        cases h
        exact madeOf_decompress hcomp hdecompress
  · exact Or.inl (some.inj h).symm

theorem Go.followsHeader (lib : Go.Library Resp) (h : GRPCHandler Ctx Req Resp) (methodPath : Text)
    (methodInfo : MethodInfo Ctx Req Resp) (r : Go.Request Ctx) (body : Bytes) (err : Option Text) : FollowsHeader body
    (decompressorOf lib.getCompressor r.grpcEncoding) ((serveGRPC lib h methodPath methodInfo r (body, err)).1 ≠ [])
    (readGrpcFrame lib r.grpcEncoding (body, err)).toOption where
  truncated htruncated := by
    have hincomplete : ¬ Complete body := (not_complete_iff htruncated.header).2 htruncated
    obtain ⟨e, herror⟩ := readGrpcFrame_incomplete hincomplete lib r.grpcEncoding err
    rw [serveGRPC, herror]
    exact fun hinvoked => hinvoked rfl
  complete hcomplete m hm := by
    rw [readGrpcFrame_complete hcomplete] at hm
    exact Go.unaryPayload_madeOf hm

def Rust.serveUnary (lib : Rust.Library) (svc : Rust.HelixHttpService)
    (contentType grpcEncoding matchedPath : Text) (expires : Bool) (payload : Bytes) :
    List Rust.Invocation × Rust.Reply :=
  match Rust.handlerPayload lib contentType grpcEncoding payload with
  | .error reply => ([], reply)
  | .ok payload => Rust.callHandler lib svc contentType grpcEncoding matchedPath expires payload

theorem Rust.unframe_madeOf {lib : Rust.Library} {web : GrpcWeb} {body message : Bytes} (hcomplete : Complete body)
    (h : (Rust.unframe lib web grpcEncoding body).toOption = some message) :
    MadeOf (decompressorOf lib.getCompressor grpcEncoding) (declaredPayload body) message := by
  rw [Rust.unframe_complete hcomplete] at h
  split at h
  · rw [Rust.decompress] at h
    cases hcomp : lib.getCompressor grpcEncoding with
    | none =>
      rw [hcomp] at h
      cases h
    | some comp =>
      simp only [hcomp] at h
      cases hdecompress : comp.decompress (declaredPayload body) with
      | error e =>
        rw [hdecompress] at h
        cases h
      | ok decompressed =>
        rw [hdecompress] at h
        cases h
        exact madeOf_decompress hcomp hdecompress
  · exact Or.inl (some.inj h).symm

theorem Rust.followsHeader_iff (lib : Rust.Library) (svc : Rust.HelixHttpService)
    (contentType grpcEncoding matchedPath : Text) (expires : Bool) :
    (∀ body, FollowsHeader body (decompressorOf lib.getCompressor grpcEncoding)
      ((Rust.serveUnary lib svc contentType grpcEncoding matchedPath expires body).1 ≠ [])
      (Rust.handlerPayload lib contentType grpcEncoding body).toOption) ↔ (Rust.framing contentType).isSome = true := by
  cases hframing : Rust.framing contentType with
  | none =>
    -- the handler is called with any body, also one that is truncated
    refine ⟨fun hfollows => absurd ?_ ((hfollows headerOnly).truncated truncated_headerOnly), nofun⟩
    simp only [Rust.serveUnary, Rust.handlerPayload, hframing, Rust.callHandler]
    exact cons_ne_nil _ _
  | some web =>
    refine ⟨fun _ => rfl, fun _ body => ⟨fun htruncated => ?_, fun hcomplete m hm => ?_⟩⟩
    · simp only [Rust.serveUnary, Rust.handlerPayload, hframing, Rust.unframe_truncated htruncated]
      exact fun hinvoked => hinvoked rfl
    · rw [Rust.handlerPayload, hframing] at hm
      exact Rust.unframe_madeOf hcomplete hm

variable (lib : Python.Library Json)

def Python.Carries (req : Python.Request) (body : Bytes) : Prop :=
  if Python.isGrpcWebText req.contentType then lib.b64decode req.body = .ok body else req.body = body

def Python.message (req : Python.Request) : Option Bytes :=
  if Python.isGrpcWeb req.contentType then (Python.framePayload lib req.contentType req.body).toOption
  else some req.body

theorem Python.framePayload_of_carries {lib : Python.Library Json} {req : Python.Request} {body : Bytes}
    (h : Python.Carries lib req body) :
    Python.framePayload lib req.contentType req.body =
      if body.length < 5 then .error (.helix .invalidArgument "grpc frame too small".toList)
      else if body.length < 5 + declaredLength body then
        .error (.helix .invalidArgument "grpc frame payload truncated".toList)
      else if body.head? = some 1 then lib.decompress (declaredPayload body)
      else .ok (declaredPayload body) := by
  unfold Python.Carries at h
  rw [Python.framePayload]
  split at h
  · rename_i htext
    rw [if_pos htext, h]
    rfl
  · rename_i htext
    rw [if_neg htext, h]
    rfl

theorem Python.isGrpcWeb_of_text {ct : Text} (h : Python.isGrpcWebText ct = true) : Python.isGrpcWeb ct = true := by
  have hbegin : "application/grpc-web".toList <+: "application/grpc-web-text".toList :=
    ⟨"-text".toList, rfl⟩
  exact isPrefixOf_iff_prefix.2 (hbegin.trans ( isPrefixOf_iff_prefix.1 h))

theorem Python.followsHeader_of_web {lib : Python.Library Json}
    {handler : Nat → Python.Body Json → Except Python.Exc (Python.Resp Json)} {attempt : Nat}
    {req : Python.Request} {body : Bytes} (hweb : Python.isGrpcWeb req.contentType = true)
    (hcarries : Python.Carries lib req body) :
    FollowsHeader body (fun payload => (lib.decompress payload).toOption)
      ((Python.webHandler lib handler attempt req).1 ≠ []) (Python.message lib req) where
  truncated htruncated := by
    have hpayload := Python.framePayload_of_carries hcarries
    rw [if_neg (not_lt.2 htruncated.header), if_pos htruncated.short] at hpayload
    have hbody : Python.requestBody lib req =
        .error (.helix .invalidArgument "grpc frame payload truncated".toList) := by
      rw [Python.requestBody, if_pos hweb, hpayload]
      rfl
    rw [Python.webHandler, hbody]
    exact fun hinvoked => hinvoked rfl
  complete hcomplete m hm := by
    rw [Python.message, if_pos hweb, Python.framePayload_of_carries hcarries,
      if_neg (not_lt.2 hcomplete.header), if_neg (not_lt.2 hcomplete.enough)] at hm
    split at hm
    · exact Or.inr hm
    · exact Or.inl (some.inj hm).symm

theorem Python.followsHeader_iff (handler : Nat → Python.Body Json → Except Python.Exc (Python.Resp Json))
    (attempt : Nat) {ct : Text} (hct : Python.isGrpcWeb ct = true ∨ Python.isFlatbuffers ct = true) : (∀ req body,
    req.contentType = ct → Python.Carries lib req body → FollowsHeader body
    (fun payload => (lib.decompress payload).toOption) ((Python.webHandler lib handler attempt req).1 ≠ [])
    (Python.message lib req)) ↔ Python.isGrpcWeb ct = true := by
  constructor
  · intro hfollows
    cases hweb : Python.isGrpcWeb ct with
    | true => rfl
    | false =>
      -- the handler is called with the whole body, whatever its header says
      have htext : ¬ Python.isGrpcWebText ct = true := fun htext =>
        Bool.noConfusion (hweb.symm.trans (Python.isGrpcWeb_of_text htext))
      have hflat : Python.isFlatbuffers ct = true :=
        hct.resolve_left fun htrue => Bool.noConfusion (hweb.symm.trans htrue)
      let req : Python.Request := ⟨ct, [], none, false, headerOnly⟩
      have hcarries : Python.Carries lib req headerOnly := by rw [Python.Carries, if_neg htext]
      have hbody : Python.requestBody lib req = .ok (.bytes headerOnly) := by
        simp [Python.requestBody, req, hweb, hflat]
      refine absurd ?_ ((hfollows req headerOnly rfl hcarries).truncated truncated_headerOnly)
      rw [Python.webHandler, hbody]
      dsimp only
      split
      all_goals exact cons_ne_nil _ _
  · rintro hweb req body rfl hcarries
    exact Python.followsHeader_of_web hweb hcarries

theorem Node.not_invoked_iff (lib : Node.Library Json) (methodInfo : Node.MethodInfo Json Req Resp) (web : GrpcWeb)
    (acceptEncoding : Text) (body : Bytes) : ¬ (Node.serveFrame lib methodInfo web acceptEncoding body).1 ≠ [] ↔ ∃ e,
    Node.framePayload lib body >>= Node.decodeRequest lib methodInfo = .error e := by
  rw [Node.serveFrame, not_not]
  cases Node.framePayload lib body >>= Node.decodeRequest lib methodInfo with
  | error e => exact ⟨fun _ => ⟨e, rfl⟩, fun _ => rfl⟩
  | ok req =>
    dsimp only
    constructor
    · intro hnil
      split at hnil
      all_goals exact absurd hnil (cons_ne_nil _ _)
    · exact fun ⟨_, heq⟩ => nomatch heq

theorem Node.framePayload_madeOf {lib : Node.Library Json} {body message : Bytes}
    (h : (Node.framePayload lib body).toOption = some message) :
    MadeOf (fun payload => (lib.gunzipSync payload).toOption) (declaredPayload body) message := by
  unfold Node.framePayload at h
  split at h
  · cases h
  · split at h
    · exact Or.inr h
    · exact Or.inl (some.inj h).symm

theorem Node.followsHeader_iff (lib : Node.Library Json) (methodInfo : Node.MethodInfo Json Req Resp)
    (web : GrpcWeb) (acceptEncoding : Text) :
    (∀ body, FollowsHeader body (fun payload => (lib.gunzipSync payload).toOption)
      ((Node.serveFrame lib methodInfo web acceptEncoding body).1 ≠ [])
      (Node.framePayload lib body).toOption) ↔
      ∀ body, Truncated body → ∃ e, Node.framePayload lib body >>= Node.decodeRequest lib methodInfo = .error e := by
  constructor
  · intro hfollows body htruncated
    exact (Node.not_invoked_iff lib methodInfo web acceptEncoding body).1 ((hfollows body).truncated htruncated)
  · intro hdecode body
    exact ⟨fun htruncated => (Node.not_invoked_iff lib methodInfo web acceptEncoding body).2
      (hdecode body htruncated), fun _ _ hm => Node.framePayload_madeOf hm⟩

/-- The Go server follows the header of every frame; the Rust server does so exactly for the content types
of gRPC, the Python server exactly for those of gRPC-Web, and the Node server exactly for methods that
decode nothing of a truncated payload. -/
theorem frame_headers_followed_iff (goLib : Go.Library Resp) (h : GRPCHandler Ctx Req Resp)
    (methodPath : Text) (methodInfo : MethodInfo Ctx Req Resp) (r : Go.Request Ctx)
    (rustLib : Rust.Library) (svc : Rust.HelixHttpService) (contentType grpcEncoding : Text)
    (expires : Bool) (pyLib : Python.Library Json)
    (handler : Nat → Python.Body Json → Except Python.Exc (Python.Resp Json)) (attempt : Nat)
    (ct : Text) (hct : Python.isGrpcWeb ct = true ∨ Python.isFlatbuffers ct = true)
    (nodeLib : Node.Library Json) (nodeMethod : Node.MethodInfo Json Req Resp) (web : GrpcWeb)
    (acceptEncoding : Text) :
    (∀ body err, FollowsHeader body (decompressorOf goLib.getCompressor r.grpcEncoding)
      ((serveGRPC goLib h methodPath methodInfo r (body, err)).1 ≠ [])
      (readGrpcFrame goLib r.grpcEncoding (body, err)).toOption) ∧
    ((∀ body, FollowsHeader body (decompressorOf rustLib.getCompressor grpcEncoding)
      ((Rust.serveUnary rustLib svc contentType grpcEncoding methodPath expires body).1 ≠ [])
      (Rust.handlerPayload rustLib contentType grpcEncoding body).toOption) ↔
        (Rust.framing contentType).isSome = true) ∧ ((∀ req body, req.contentType = ct → Python.Carries pyLib req body →
      FollowsHeader body (fun payload => (pyLib.decompress payload).toOption)
        ((Python.webHandler pyLib handler attempt req).1 ≠ []) (Python.message pyLib req)) ↔
        Python.isGrpcWeb ct = true) ∧
    ((∀ body, FollowsHeader body (fun payload => (nodeLib.gunzipSync payload).toOption)
      ((Node.serveFrame nodeLib nodeMethod web acceptEncoding body).1 ≠ [])
      (Node.framePayload nodeLib body).toOption) ↔ ∀ body, Truncated body →
          ∃ e, Node.framePayload nodeLib body >>= Node.decodeRequest nodeLib nodeMethod = .error e) :=
  ⟨fun body err => Go.followsHeader goLib h methodPath methodInfo r body err,
    Rust.followsHeader_iff rustLib svc contentType grpcEncoding methodPath expires,
    Python.followsHeader_iff pyLib handler attempt hct, Node.followsHeader_iff nodeLib nodeMethod web acceptEncoding⟩

def Node.textLibrary : Node.Library Text where
  gunzipSync := .ok
  gzipSync := .ok
  toUtf8 payload := payload.map fun b => Char.ofNat b.toNat
  parse := .ok
  emptyObject := []
  fromBase64 := id

def Node.textMethod : Node.MethodInfo Text Text Text where
  decodeFlatBuffers _ := .ok []
  decodeJSON := .ok
  handler := .ok
  encode _ := .ok []

def Rust.idLibrary : Rust.Library := ⟨.ok, ⟨.ok, .ok⟩, fun _ body => body, fun _ => true⟩

def Python.bytesLibrary : Python.Library Bytes where
  b64decode := .ok
  decompress := .ok
  compress := id
  loads := .ok
  emptyObject := []
  requestJson := .ok
  dumps := .ok
  errorBody _ _ := []

def Rust.emptyService : Rust.HelixHttpService :=
  ⟨fun _ _ _ => .ok ([], []), [], fun _ => false, fun _ _ => .ok (), fun _ => false, fun _ _ _ => .ok (), none, true⟩

theorem frame_headers_followed_iff_web : Python.isGrpcWeb "application/grpc-web".toList = true ∧
      ∀ req body, req.contentType = "application/grpc-web".toList → Python.Carries Python.bytesLibrary req body →
        FollowsHeader body (fun payload => (Python.bytesLibrary.decompress payload).toOption)
          ((Python.webHandler Python.bytesLibrary (fun _ _ => .error (.other [])) 0 req).1 ≠ [])
          (Python.message Python.bytesLibrary req) :=
  ⟨rfl, (frame_headers_followed_iff ⟨id, fun _ => .ok [], fun _ => none, fun _ => none⟩
    ⟨MethodTable.empty, []⟩ "/text.Text/Echo".toList
    ⟨fun _ _ => .ok [], fun _ req => .ok req, none, false, fun _ => none⟩
    ⟨[], [], [], [], [], [], false, none, ([], none), (), ()⟩
    Rust.idLibrary Rust.emptyService "application/grpc".toList [] false
    Python.bytesLibrary (fun _ _ => .error (.other [])) 0 "application/grpc-web".toList (Or.inl rfl)
    ⟨.ok, .ok, fun _ => [], fun _ => .ok [], [], id⟩ (⟨.ok, .ok, .ok, .ok⟩ :
      Node.MethodInfo Bytes Bytes Bytes) .no []).2.2.1.2 rfl⟩

theorem truncated_frame_invokes : Truncated [0, 0, 0, 0, 10] ∧
      Node.handleHTTP2 Node.textLibrary (some Node.textMethod) [] [[0, 0, 0, 0, 10]] = ([[]], .grpc .no false []) ∧
      (Rust.serveUnary Rust.idLibrary Rust.emptyService "application/grpc+flatbuffers".toList []
          "/text.Text/Echo".toList false [0, 0, 0, 0, 10]).1 =
        [.handler "/text.Text/Echo".toList [0, 0, 0, 0, 10] .flatbuffers] :=
  ⟨⟨by decide, by decide⟩, rfl, rfl⟩

end HelixRpc.Runtime
