import HelixRpc.Runtime.Go.Errors

/-!
# What a caller receives of an error

`ServeHTTP` does not use the mappings of `errors.go`: it sends gRPC errors with the status 13 and JSON errors with
500.
-/

namespace HelixRpc.Runtime.Go

open Foundation List
variable {Ctx Req Resp : Type}

inductive Transport where
  | grpc
  | stream
  | json
  | sse
  deriving DecidableEq

/-- A response has the status and the message of `ToGRPCStatus`, or the HTTP status of `MapToHTTPStatus`. -/
def Delivered (e : HelixError) : Response → Prop
  | .grpcError _ status message => (status, message) = toGRPCStatus (.helix e)
  | .stream (some message) => ("13".toList, message) = toGRPCStatus (.helix e)
  | .httpError _ code => code = mapToHTTPStatus e.code
  | .sse _ => 200 = mapToHTTPStatus e.code
  | _ => False

section
variable (lib : Library Resp) (h : GRPCHandler Ctx Req Resp) (methodPath : Text)
  (methodInfo : MethodInfo Ctx Req Resp) (r : Request Ctx) (pathParams : Params)

def IsJSON : Prop := contains (contentTypeOrJSON r.contentType) "application/json".toList = true

inductive EndsWith (e : HelixError) : Transport → Prop where
  | grpc (req : Req) (hunary : methodInfo.isStreaming = false) (hjson : ¬ IsJSON r)
      (hdecode : (readGrpcFrame lib r.grpcEncoding (bodyOf lib r) >>= fun payload =>
        methodInfo.decoder (codecOf r.contentType) payload) = .ok req)
      (hcall : (callMethod h methodPath methodInfo r.ctx req).2 = .error e.error) :
      EndsWith e .grpc
  | stream (hstreaming : methodInfo.isStreaming = true) (hsocket : r.isWebSocketUpgrade = false)
      (hsse : isSSE r = false)
      (hcall : methodInfo.streamHandler (.grpc r.ctx (bodyOf lib r)) = some e.error) :
      EndsWith e .stream
  | json (req : Req) (hunary : methodInfo.isStreaming = false) (hjson : IsJSON r)
      (hdecode : decodeJSON methodInfo (bodyOf lib r) pathParams = .ok req)
      (hcall : (callMethod h methodPath methodInfo r.ctx req).2 = .error e.error) :
      EndsWith e .json
  | sse (payload : Bytes) (hstreaming : methodInfo.isStreaming = true)
      (hsocket : r.isWebSocketUpgrade = false) (hsse : isSSE r = true)
      (hread : readAll (bodyOf lib r) = .ok payload)
      (hcall : methodInfo.streamHandler (.sse r.ctx (jsonPayload payload)) = some e.error) :
      EndsWith e .sse

theorem append_ne_self {label : Text} (hlabel : label ≠ []) (code name message : Text) :
    label ++ (code ++ (name ++ message)) ≠ message := by
  intro heq
  rw [← append_assoc, ← append_assoc, append_left_eq_self] at heq
  exact hlabel (append_eq_nil_iff.1 (append_eq_nil_iff.1 heq).1).1

theorem HelixError.error_ne_message (e : HelixError) : e.error ≠ e.message := append_ne_self (by decide) _ _ _

theorem HelixError.ne_toGRPCStatus (e : HelixError) (status : Text) : (status, e.error) ≠ toGRPCStatus (.helix e) :=
  fun heq => e.error_ne_message (congrArg Prod.snd heq)

variable {lib h methodPath methodInfo r pathParams} {e : HelixError}

theorem EndsWith.response {t : Transport} (hends : EndsWith lib h methodPath methodInfo r pathParams e t) :
    (serveMethod lib h methodPath methodInfo r pathParams).2 = match t with
      | .grpc => .grpcError (grpcWeb r.contentType) "13".toList e.error
      | .stream => .stream (some e.error)
      | .json => .httpError ("method execution failed: ".toList ++ e.error) 500
      | .sse => .sse (some e.error) := by
  cases hends with
  | grpc req hunary hjson hdecode hcall =>
    rw [IsJSON, Bool.not_eq_true] at hjson
    rw [serveMethod, hunary, hjson]
    simp only [Bool.and_false, Bool.false_eq_true, if_false, Bool.false_and]
    rw [serveGRPC]
    simp only [hdecode, hcall]
    rfl
  | stream hstreaming hsocket hsse hcall =>
    rw [serveMethod, hstreaming, hsocket, hsse]
    simp only [Bool.false_and, Bool.false_eq_true, if_false, Bool.not_true, Bool.and_false, if_true]
    rw [serveStream, callStream, hcall]
  | json req hunary hjson hdecode hcall =>
    rw [IsJSON] at hjson
    rw [serveMethod, hunary, hjson]
    simp only [Bool.and_false, Bool.false_eq_true, if_false, Bool.not_false, Bool.and_true, if_true]
    rw [serveJSON, hdecode]
    simp only [hcall]
  | sse payload hstreaming hsocket hsse hread hcall =>
    rw [serveMethod, hstreaming, hsocket, hsse]
    simp only [Bool.false_and, Bool.false_eq_true, if_false, Bool.not_true, Bool.and_false, if_true]
    rw [serveSSE, hread]
    simp only [callStream, hcall]

/-- An error is delivered as the mappings say exactly if it is one of a JSON call whose HTTP status is
500, or one of server-sent events whose status is 200. -/
theorem delivered_iff {t : Transport} (hends : EndsWith lib h methodPath methodInfo r pathParams e t) :
    Delivered e (serveMethod lib h methodPath methodInfo r pathParams).2 ↔
      (t = .json ∧ mapToHTTPStatus e.code = 500) ∨ (t = .sse ∧ mapToHTTPStatus e.code = 200) := by
  rw [hends.response]
  cases t with
  | grpc => simpa [Delivered] using e.ne_toGRPCStatus _
  | stream => simpa [Delivered] using e.ne_toGRPCStatus _
  | json => simp [Delivered, eq_comm]
  | sse => simp [Delivered, eq_comm]

theorem EndsWith.of_rejected {checks : List (Check Ctx)} (hchecks : h.interceptors = checks.map guardWith)
    (hreject : runChecks checks r.ctx = .error (.helix e)) {req : Req}
    (hunary : methodInfo.isStreaming = false) (hjson : ¬ IsJSON r)
    (hdecode : (readGrpcFrame lib r.grpcEncoding (bodyOf lib r) >>= fun payload =>
      methodInfo.decoder (codecOf r.contentType) payload) = .ok req) :
    EndsWith lib h methodPath methodInfo r pathParams e .grpc := by
  refine .grpc req hunary hjson hdecode ?_
  rw [callMethod_guards hchecks, guardedResult, hreject]
  rfl
end

def keyedHandler : GRPCHandler Unit Unit Unit := ⟨MethodTable.empty, [checkAPIKey (fun _ _ => []) fun _ => true,
    checkRate (fun _ _ => []) (fun _ => false) "1".toList].map guardWith⟩

def missingKey : HelixError := ⟨16, "missing API key".toList⟩

def jsonRequest (path : Text) : Request Unit :=
  ⟨"POST".toList, path, [], "application/json".toList, [], [], false, none, ([], none), (), ()⟩

def failingMethod : MethodInfo Unit Unit Unit :=
  ⟨fun _ _ => .ok (), fun _ _ => .error (HelixError.error ⟨13, "broken".toList⟩), none, false, fun _ => none⟩

theorem delivered_iff_internal : Delivered ⟨13, "broken".toList⟩ (serveMethod plainLibrary ⟨MethodTable.empty, []⟩
      "/demo.Chat/Fail".toList failingMethod (jsonRequest "/demo.Chat/Fail".toList) []).2 :=
  have hends : EndsWith plainLibrary ⟨MethodTable.empty, []⟩ "/demo.Chat/Fail".toList failingMethod
      (jsonRequest "/demo.Chat/Fail".toList) [] ⟨13, "broken".toList⟩ .json :=
    .json () rfl (show contains _ _ = true from rfl) rfl rfl
  (delivered_iff hends).2 (Or.inl ⟨rfl, rfl⟩)

theorem errors_not_delivered : toGRPCStatus (.helix missingKey) = ("16".toList, "missing API key".toList) ∧
      missingKey.error = "helix error: code=16 message=missing API key".toList ∧
      (serveMethod plainLibrary keyedHandler "/demo.Chat/Keyed".toList (quietMethod false)
          (grpcRequest "/demo.Chat/Keyed".toList) []).2 = .grpcError .no "13".toList missingKey.error ∧
      mapToHTTPStatus missingKey.code = 401 ∧
      (serveMethod plainLibrary keyedHandler "/demo.Chat/Keyed".toList (quietMethod false)
          (jsonRequest "/demo.Chat/Keyed".toList) []).2 =
        .httpError ("method execution failed: ".toList ++ missingKey.error) 500 := by
  have hgrpc : ¬ IsJSON (grpcRequest "/demo.Chat/Keyed".toList) :=
    fun hjson => Bool.noConfusion (show false = true from hjson)
  have hrejected : EndsWith plainLibrary keyedHandler "/demo.Chat/Keyed".toList (quietMethod false)
      (grpcRequest "/demo.Chat/Keyed".toList) [] missingKey .grpc :=
    .of_rejected rfl rfl rfl hgrpc rfl
  have hjson : EndsWith plainLibrary keyedHandler "/demo.Chat/Keyed".toList (quietMethod false)
      (jsonRequest "/demo.Chat/Keyed".toList) [] missingKey .json := by
    refine .json () rfl (show contains _ _ = true from rfl) rfl ?_
    rw [callMethod_guards rfl]
    rfl
  exact ⟨rfl, by decide, hrejected.response, rfl, hjson.response⟩

end HelixRpc.Runtime.Go
