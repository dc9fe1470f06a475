import HelixRpc.Runtime.Rust.Server

/-!
# Content types in Go and Rust

How the two servers read the body of a unary request, as a function of its `Content-Type`.
-/

namespace HelixRpc.Runtime

open Foundation Runtime.Go

structure RequestKind where
  codec : Codec
  framed : Bool
  web : GrpcWeb
  deriving DecidableEq

def Go.requestKind (contentType : Text) : RequestKind :=
  if contains (contentTypeOrJSON contentType) "application/json".toList then
    ⟨.json, false, grpcWeb contentType⟩
  else ⟨Go.codecOf contentType, true, grpcWeb contentType⟩

def Rust.requestKind (contentType : Text) : Option RequestKind :=
  if Rust.isSupported contentType then
    some ⟨Rust.codecOf contentType, (Rust.framing contentType).isSome, (Rust.framing contentType).getD .no⟩
  else none

/-- A `Content-Type` is treated alike: the body is read in the same way, and if there is a frame header
the Rust handler receives the payload without it. -/
structure TreatedAlike (value : Option Text) : Prop where
  kind : Rust.requestKind (Rust.headerStr value) = some (Go.requestKind (value.getD []))
  payload : (Go.requestKind (value.getD [])).framed = true → ∀ lib grpcEncoding payload, payload.length < 2 ^ 32 →
      Rust.handlerPayload lib (Rust.headerStr value) grpcEncoding (messageFrame 0 payload) = .ok payload

def commonTypes : List Text :=
  ["application/json".toList, "application/grpc".toList, "application/grpc-web".toList,
    "application/grpc-web-text".toList]

section
variable {contentType : Text}

theorem Rust.framing_cases (h : (Rust.framing contentType).isSome = true) :
    contentType ∈ commonTypes ∧ Rust.codecOf contentType = .proto := by
  unfold Rust.framing at h
  split at h
  · rename_i heq
    rw [heq]
    decide
  · split at h
    · rename_i heq
      rw [heq]
      decide
    · split at h
      · rename_i heq
        rw [heq]
        decide
      · cases h

theorem Rust.framing_of_flatbuffers (h : Rust.codecOf contentType = .flatbuffers) :
    Rust.framing contentType = none := by
  rw [← Option.not_isSome_iff_eq_none]
  intro hsome
  rw [(Rust.framing_cases hsome).2] at h
  cases h

theorem mem_commonTypes (h : Rust.requestKind contentType = some (Go.requestKind contentType)) :
    contentType ∈ commonTypes := by
  unfold Rust.requestKind at h
  split at h
  · rename_i hsupported
    have hkind := Option.some.inj h
    cases hcodec : Rust.codecOf contentType with
    | json =>
      unfold Rust.codecOf Go.codecOf at hcodec
      split at hcodec
      · rename_i heq
        rw [heq]
        decide
      · split at hcodec <;> cases hcodec
    | flatbuffers =>
      -- Go takes it for JSON, or it has a frame header there
      have hframing := Rust.framing_of_flatbuffers hcodec
      rw [hcodec, hframing, Go.requestKind] at hkind
      split at hkind
      · cases (RequestKind.mk.inj hkind).1
      · cases (RequestKind.mk.inj hkind).2.1
    | proto =>
      have hframed : (Rust.framing contentType).isSome = true := by simpa [Rust.isSupported, hcodec] using hsupported
      exact (Rust.framing_cases hframed).1
  · cases h

theorem Rust.headerStr_cases (value : Option Text) :
    Rust.headerStr value = [] ∨ value = some (Rust.headerStr value) := by
  cases value with
  | none => exact .inl rfl
  | some text =>
    rw [Rust.headerStr]
    split
    · exact .inr rfl
    · exact .inl rfl

theorem Rust.handlerPayload_frame {web : GrpcWeb} (h : Rust.framing contentType = some web)
    (lib : Rust.Library) (grpcEncoding : Text) {payload : Bytes} (hlength : payload.length < 2 ^ 32) :
    Rust.handlerPayload lib contentType grpcEncoding (messageFrame 0 payload) = .ok payload := by
  have hcomplete := complete_messageFrame hlength 0 []
  have hpayload := declaredPayload_messageFrame hlength 0 []
  rw [List.append_nil] at hcomplete hpayload
  have hflag : ¬ ((messageFrame 0 payload).head? = some 1 ∧ grpcEncoding ≠ []) := by
    rintro ⟨hone, -⟩
    exact absurd (Option.some.inj hone) (by decide)
  rw [Rust.handlerPayload, h]
  dsimp only
  rw [unframe_complete hcomplete, if_neg hflag, hpayload]
end

/-- A `Content-Type` is treated alike by Go and Rust if and only if it is
`application/json`, `application/grpc`, `application/grpc-web` or `application/grpc-web-text`, without
parameters. -/
theorem treated_alike_iff (value : Option Text) :
    TreatedAlike value ↔ ∃ contentType ∈ commonTypes, value = some contentType := by
  constructor
  · intro h
    have hkind := h.kind
    rcases Rust.headerStr_cases value with hempty | hvalue
    · -- no header, or one that is not visible ASCII: Rust refuses it
      rw [hempty] at hkind
      cases hkind
    · have hgo : value.getD [] = Rust.headerStr value := congrArg (fun v => v.getD []) hvalue
      rw [hgo] at hkind
      exact ⟨_, mem_commonTypes hkind, hvalue⟩
  · rintro ⟨contentType, hmem, rfl⟩
    simp only [commonTypes, List.mem_cons, List.not_mem_nil, or_false] at hmem
    rcases hmem with rfl | rfl | rfl | rfl
    · exact ⟨rfl, nofun⟩
    all_goals exact ⟨rfl, fun _ lib grpcEncoding _ => Rust.handlerPayload_frame rfl lib grpcEncoding⟩

def Rust.plainLibrary : Rust.Library := ⟨.ok, ⟨.ok, .ok⟩, fun _ body => body, fun _ => true⟩

def Rust.echoService : Rust.HelixHttpService :=
  ⟨fun _ body _ => .ok (body, "application/octet-stream".toList), [], fun _ => false,
    fun _ _ => .ok (), fun _ => false, fun _ _ _ => .ok (), none, true⟩

def Rust.echoRequest (contentType : Option Text) (body : Bytes) : Rust.Request :=
  ⟨"POST".toList, "/demo.Chat/Echo".toList, contentType, none, none, false, none, some body, false⟩

theorem content_types_differ : Go.requestKind [] = ⟨.json, false, .no⟩ ∧
      Rust.call Rust.plainLibrary Rust.echoService (Rust.echoRequest none []) =
        ([], .text 400 "Unsupported Content-Type".toList) ∧
      Go.requestKind "application/json; charset=utf-8".toList = ⟨.json, false, .no⟩ ∧
      Rust.call Rust.plainLibrary Rust.echoService
          (Rust.echoRequest (some "application/json; charset=utf-8".toList) []) =
        ([], .text 400 "Unsupported Content-Type".toList) ∧
      Go.requestKind "application/grpc+flatbuffers".toList = ⟨.flatbuffers, true, .no⟩ ∧
      (Rust.call Rust.plainLibrary Rust.echoService
          (Rust.echoRequest (some "application/grpc+flatbuffers".toList) (messageFrame 0 [4]))).1 =
        [.handler "/demo.Chat/Echo".toList (messageFrame 0 [4]) .flatbuffers] :=
  ⟨rfl, rfl, rfl, rfl, rfl, rfl⟩

end HelixRpc.Runtime
