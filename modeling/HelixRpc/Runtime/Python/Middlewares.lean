import HelixRpc.Runtime.ErrorTrailers

/-!
# The middlewares of the Python server

Model of the default stack of `HelixServer` (`runtimes/python/helix_rt/server.py`).
-/

namespace HelixRpc.Runtime.Python

open Foundation Runtime.Go
variable {Json : Type}

abbrev Route (Json : Type) := Nat → Request → Outcome Json

def telemetryMiddleware (handler : Request → Outcome Json) : Request → Outcome Json := handler

def loggingMiddleware (handler : Request → Outcome Json) : Request → Outcome Json := handler

inductive Clock where
  | inTime
  | expired (started : Bool)

structure Deadline where
  parse : Text → Except Exc Unit
  clock : Clock

def Exc.isPassed : Exc → Bool
  | .valueError _ => true
  | .keyError _ => true
  | _ => false

def deadlineExceeded : Response := ⟨408, "text/plain".toList, some (utf8Bytes "Deadline Exceeded")⟩

/-- The call of the route under a deadline. -/
def callWithin (d : Deadline) (route : Route Json) (req : Request) : Outcome Json :=
  match d.clock with
  | .expired started => (if started then (route 0 req).1 else [], .ok deadlineExceeded)
  | .inTime =>
    match route 0 req with
    | (calls, .ok response) => (calls, .ok response)
    | (calls, .error exc) =>
      -- the `try` that reads the header stands around the call too
      if exc.isPassed then (calls ++ (route 1 req).1, (route 1 req).2) else (calls, .error exc)

def deadlineMiddleware (d : Deadline) (route : Route Json) (req : Request) : Outcome Json :=
  match req.grpcTimeout with
  | none => route 0 req
  | some header =>
    if header = [] then route 0 req
    else
      match d.parse header with
      | .ok _ => callWithin d route req
      | .error exc => if exc.isPassed then route 0 req else ([], .error exc)

def isCompressed (req : Request) (response : Response) : Bool :=
  contains req.grpcEncoding "gzip".toList && response.contentType ≠ "text/event-stream".toList

def compressResponse (lib : Library Json) (req : Request) (response : Response) : Response :=
  match response.body with
  | none => response
  | some body =>
    if isCompressed req response && body ≠ [] then
      { response with body := some (lib.compress body) }
    else response

def gzipMiddleware (lib : Library Json) (route : Route Json) : Route Json := fun attempt req =>
  let (calls, result) := route attempt req
  (calls, result.map (compressResponse lib req))

def serve (lib : Library Json) (d : Deadline)
    (handler : Nat → Body Json → Except Exc (Resp Json)) (req : Request) : Outcome Json :=
  telemetryMiddleware
    (loggingMiddleware (deadlineMiddleware d (gzipMiddleware lib (webHandler lib handler)))) req

section
variable (lib : Library Json) (handler : Nat → Body Json → Except Exc (Resp Json))

def answer (attempt : Nat) (req : Request) : Except Exc Bytes :=
  requestBody lib req >>= fun body => handler attempt body >>= respBytes lib

def okTrailers : Bytes := trailerLines (utf8Bytes "0") []

def dataFrames (message : Bytes) : Bytes := messageFrame 0 message ++ messageFrame 0x80 okTrailers

theorem trailersFrame_ok : trailersFrame (trailersStr "0".toList []) = .ok (messageFrame 0x80 okTrailers) := by decide

theorem combinedFrame_eq (resp : Resp Json) : combinedFrame lib resp = match respBytes lib resp with
      | .error exc => .error exc
      | .ok message =>
        match pyFrame 0 message with
        | .error exc => .error exc
        | .ok frame => .ok (frame ++ messageFrame 0x80 okTrailers) := by
  rw [combinedFrame, trailersFrame_ok]
  cases respBytes lib resp with
  | error exc => rfl
  | ok message =>
    change (pyFrame 0 message >>= _) = _
    dsimp only
    cases pyFrame 0 message <;> rfl

variable {req : Request}

theorem webHandler_web_cases (hweb : isGrpcWeb req.contentType = true) (attempt : Nat) :
    (∃ message, answer lib handler attempt req = .ok message ∧ message.length < 2 ^ 32 ∧
      (webHandler lib handler attempt req).2 = .ok (webResponse req.contentType (dataFrames message))) ∨
    ((¬ ∃ message, answer lib handler attempt req = .ok message ∧ message.length < 2 ^ 32) ∧
      ∃ exc, (webHandler lib handler attempt req).2 = handleExc lib req exc) := by
  rw [webHandler, answer]
  cases requestBody lib req with
  | error exc => exact Or.inr ⟨(fun ⟨_, heq, _⟩ => nomatch heq), exc, rfl⟩
  | ok body =>
    change (∃ message, (handler attempt body >>= respBytes lib) = .ok message ∧ _) ∨
      ((¬ ∃ message, (handler attempt body >>= respBytes lib) = .ok message ∧ _) ∧ _)
    dsimp only
    cases handler attempt body with
    | error exc => exact Or.inr ⟨(fun ⟨_, heq, _⟩ => nomatch heq), exc, rfl⟩
    | ok resp =>
      have hrespond : (Except.ok resp >>= respond lib req) = respond lib req resp := rfl
      have hanswer : (Except.ok resp >>= respBytes lib) = respBytes lib resp := rfl
      rw [hrespond, hanswer, respond, if_pos hweb, combinedFrame_eq]
      cases respBytes lib resp with
      | error exc => exact Or.inr ⟨(fun ⟨_, heq, _⟩ => nomatch heq), exc, rfl⟩
      | ok message =>
        dsimp only
        cases hframe : pyFrame 0 message with
        | error exc =>
          refine Or.inr ⟨fun ⟨message', heq, hshort⟩ => ?_, exc, rfl⟩
          cases heq
          rw [pyFrame_eq_ok_iff.2 ⟨hshort, rfl⟩] at hframe
          cases hframe
        | ok frame =>
          obtain ⟨hshort, rfl⟩ := pyFrame_eq_ok_iff.1 hframe
          exact Or.inl ⟨message, rfl, hshort, rfl⟩

theorem handleExc_web_cases (hweb : isGrpcWeb req.contentType = true) (exc : Exc) :
    (∃ exc', handleExc lib req exc = .error exc') ∨
      ∃ block, handleExc lib req exc = .ok (webResponse req.contentType (messageFrame 0x80 block)) := by
  unfold handleExc
  rw [if_pos hweb]
  cases hframe : trailersFrame (trailersStr exc.status exc.text) with
  | error exc' => exact Or.inl ⟨exc', rfl⟩
  | ok frame =>
    obtain ⟨-, -, rfl⟩ := trailersFrame_eq_ok_iff.1 hframe
    exact Or.inr ⟨_, rfl⟩
end

/-- One data frame with a message, compressed only if the flag says so, and one frame of trailers. -/
def IsReply (lib : Library Json) (message bytes : Bytes) : Prop :=
  ∃ flag payload rest trailers, takeMessage bytes = some (flag, payload, rest) ∧
    takeMessage rest = some (0x80, trailers, []) ∧
    ((flag = 0 ∧ payload = message) ∨ (flag = 1 ∧ lib.decompress payload = .ok message))

def FramedReply (lib : Library Json) (isGrpcWebText : Bool) (answer : Except Exc Bytes)
    (result : Except Exc Response) : Prop :=
  ∃ message response body bytes, answer = .ok message ∧ result = .ok response ∧
    response.body = some body ∧ webBytes isGrpcWebText body = some bytes ∧ IsReply lib message bytes

section
variable {lib : Library Json} {message bytes : Bytes} {ct : Text}

theorem isReply_dataFrames (hshort : message.length < 2 ^ 32) : IsReply lib message (dataFrames message) := by
  have hlength : okTrailers.length < 2 ^ 32 := by decide
  have htrailers := takeMessage_messageFrame hlength 0x80 []
  rw [List.append_nil] at htrailers
  exact ⟨0, message, _, okTrailers, takeMessage_messageFrame hshort 0 _, htrailers, Or.inl ⟨rfl, rfl⟩⟩

theorem IsReply.head (h : IsReply lib message bytes) : bytes.head? = some 0 ∨ bytes.head? = some 1 := by
  obtain ⟨flag, payload, rest, trailers, htake, -, hflag⟩ := h
  obtain ⟨rfl, -⟩ := eq_of_takeMessage htake
  rcases hflag with ⟨rfl, -⟩ | ⟨rfl, -⟩
  · exact Or.inl rfl
  · exact Or.inr rfl

theorem not_isReply_of_head {first : UInt8} (hhead : bytes.head? = some first) (hzero : first ≠ 0)
    (hone : first ≠ 1) : ¬ IsReply lib message bytes := by
  intro hreply
  rcases hreply.head with h | h
  · exact hzero (Option.some.inj (hhead.symm.trans h))
  · exact hone (Option.some.inj (hhead.symm.trans h))

theorem not_isReply_trailers (block : Bytes) : ¬ IsReply lib message (messageFrame 0x80 block) :=
  by
  have hhead : (messageFrame 0x80 block).head? = some 0x80 := rfl
  exact not_isReply_of_head hhead (by decide) (by decide)

theorem webBytes_webResponse (ct : Text) (frames : Bytes) : ∃ body, (webResponse ct frames).body = some body ∧
      webBytes (isGrpcWebText ct) body = some frames := by
  refine ⟨_, rfl, ?_⟩
  cases isGrpcWebText ct with
  | true => exact Base64.decode_encode frames
  | false => rfl

theorem not_reply_of_gzip {body : Bytes} (hhead : body.head? = some 0x1f) (isText : Bool)
    (hbytes : webBytes isText body = some bytes) : ¬ IsReply lib message bytes := by
  obtain ⟨rest, rfl⟩ : ∃ rest, body = 0x1f :: rest := List.head?_eq_some_iff.1 hhead
  cases isText with
  | true =>
    have hnone : Base64.decode (0x1f :: rest) = none := Base64.decode_of_value_none (by decide)
    exact absurd (hnone.symm.trans hbytes) nofun
  | false =>
    cases hbytes
    exact not_isReply_of_head hhead (by decide) (by decide)
end

section
variable (lib : Library Json) (d : Deadline) (handler : Nat → Body Json → Except Exc (Resp Json))
  {req : Request}
variable {frames : Bytes} {route : Route Json}

theorem compressResponse_web (hweb : isGrpcWeb req.contentType = true) (hframes : frames ≠ []) :
    compressResponse lib req (webResponse req.contentType frames) = if contains req.grpcEncoding "gzip".toList then
    { webResponse req.contentType frames with body := (webResponse req.contentType frames).body.map lib.compress }
      else webResponse req.contentType frames := by
  have htype : req.contentType ≠ "text/event-stream".toList := by
    intro heq
    rw [heq] at hweb
    exact absurd hweb (by decide)
  have hbody : (if isGrpcWebText req.contentType then Base64.encode frames else frames) ≠ [] := by
    split
    · exact Base64.encode_ne_nil hframes
    · exact hframes
  simp only [compressResponse, webResponse, isCompressed, htype, hbody, ne_eq, not_false_eq_true,
    decide_true, Bool.and_true, Option.map_some]

theorem framed_compressResponse_iff (hgzip : ∀ b, (lib.compress b).head? = some 0x1f)
    (hweb : isGrpcWeb req.contentType = true) (hframes : frames ≠ []) (answer : Except Exc Bytes) : FramedReply lib
    (isGrpcWebText req.contentType) answer (.ok (compressResponse lib req (webResponse req.contentType frames))) ↔
    contains req.grpcEncoding "gzip".toList = false ∧ ∃ message, answer = .ok message ∧ IsReply lib message frames := by
  obtain ⟨body, hbody, hbytes⟩ := webBytes_webResponse req.contentType frames
  rw [compressResponse_web lib hweb hframes]
  -- with gzip the first byte is no flag, without it the frames are as they were written
  cases contains req.grpcEncoding "gzip".toList with
  | true =>
    refine ⟨fun ⟨message, response, body', bytes, _, hresult, hbody', hbytes', hreply⟩ => ?_,
      fun h => Bool.noConfusion h.1⟩
    cases hresult
    rw [if_pos rfl, hbody] at hbody'
    cases hbody'
    exact absurd hreply (not_reply_of_gzip (hgzip body) _ hbytes')
  | false =>
    constructor
    · rintro ⟨message, response, body', bytes, hanswer, hresult, hbody', hbytes', hreply⟩
      cases hresult
      rw [if_neg Bool.false_ne_true, hbody] at hbody'
      cases hbody'
      cases hbytes.symm.trans hbytes'
      exact ⟨rfl, message, hanswer, hreply⟩
    · rintro ⟨-, message, hanswer, hreply⟩
      exact ⟨message, _, body, frames, hanswer, rfl, hbody, hbytes, hreply⟩

theorem gzip_route_framed_iff (hgzip : ∀ b, (lib.compress b).head? = some 0x1f)
    (hweb : isGrpcWeb req.contentType = true) (attempt : Nat) : FramedReply lib (isGrpcWebText req.contentType)
    (answer lib handler attempt req) (gzipMiddleware lib (webHandler lib handler) attempt req).2 ↔
    contains req.grpcEncoding "gzip".toList = false ∧ ∃ message, answer lib handler attempt req = .ok message ∧
    message.length < 2 ^ 32 := by
  change FramedReply _ _ _ ((webHandler lib handler attempt req).2.map (compressResponse lib req)) ↔ _
  rcases webHandler_web_cases lib handler hweb attempt with
    ⟨message, hanswer, hshort, hresult⟩ | ⟨hnone, exc, hresult⟩
  · rw [hresult]
    refine (framed_compressResponse_iff lib hgzip hweb (List.cons_ne_nil _ _) _).trans
      (and_congr_right fun _ => ⟨fun _ => ⟨message, hanswer, hshort⟩, fun _ => ?_⟩)
    exact ⟨message, hanswer, isReply_dataFrames hshort⟩
  · -- an exception has no data frame
    rw [hresult]
    refine ⟨fun hframed => ?_, fun h => absurd h.2 hnone⟩
    rcases handleExc_web_cases lib hweb exc with ⟨exc', hexc⟩ | ⟨block, hexc⟩
    · rw [hexc] at hframed
      obtain ⟨_, _, _, _, _, hok, _⟩ := hframed
      cases hok
    · rw [hexc] at hframed
      obtain ⟨-, message, -, hreply⟩ := (framed_compressResponse_iff lib hgzip hweb (List.cons_ne_nil _ _) _).1 hframed
      exact absurd hreply (not_isReply_trailers block)

def Met (req : Request) : Prop :=
  match req.grpcTimeout with
  | none => True
  | some header => header = [] ∨ match d.parse header with
      | .ok _ => d.clock = .inTime
      | .error exc => exc.isPassed = true

def isTimed (req : Request) : Bool :=
  match req.grpcTimeout with
  | none => false
  | some header => header ≠ [] && (d.parse header).isOk

def retries (route : Route Json) (req : Request) : Bool := isTimed d req &&
    match (route 0 req).2 with
    | .ok _ => false
    | .error exc => exc.isPassed

def finalAttempt (route : Route Json) (req : Request) : Nat := if retries d route req then 1 else 0

theorem deadlineMiddleware_of_timed (htimed : isTimed d req = true) (route : Route Json) :
    deadlineMiddleware d route req = callWithin d route req ∧ (Met d req → d.clock = .inTime) := by
  unfold isTimed at htimed
  unfold deadlineMiddleware Met
  cases htimeout : req.grpcTimeout with
  | none =>
    rw [htimeout] at htimed
    cases htimed
  | some header =>
    rw [htimeout] at htimed
    obtain ⟨hheader, hok⟩ := Bool.and_eq_true_iff.1 htimed
    have hempty : ¬ header = [] := of_decide_eq_true hheader
    cases hparse : d.parse header with
    | error exc =>
      rw [hparse] at hok
      cases hok
    | ok value =>
      dsimp only
      rw [if_neg hempty, hparse]
      exact ⟨rfl, fun hmet => hmet.resolve_left hempty⟩

theorem deadlineMiddleware_of_untimed (hmet : Met d req) (htimed : isTimed d req = false)
    (route : Route Json) : deadlineMiddleware d route req = route 0 req := by
  unfold isTimed at htimed
  unfold Met at hmet
  unfold deadlineMiddleware
  cases htimeout : req.grpcTimeout with
  | none => rfl
  | some header =>
    rw [htimeout] at htimed hmet
    dsimp only
    split
    · rfl
    · rename_i hempty
      have hpassed := hmet.resolve_left hempty
      cases hparse : d.parse header with
      | error exc =>
        rw [hparse] at hpassed
        exact if_pos hpassed
      | ok value =>
        simp [hempty, hparse, Except.isOk, Except.toBool] at htimed

theorem deadlineMiddleware_of_met (hmet : Met d req) :
    (deadlineMiddleware d route req).2 = (route (finalAttempt d route req) req).2 := by
  rw [finalAttempt, retries]
  cases htimed : isTimed d req with
  | false =>
    rw [deadlineMiddleware_of_untimed d hmet htimed, Bool.false_and]
    rfl
  | true =>
    obtain ⟨hcall, hclock⟩ := deadlineMiddleware_of_timed d htimed route
    rw [hcall, callWithin, hclock hmet, Bool.true_and]
    cases hroute : route 0 req with
    | mk calls result =>
      cases result with
      | ok response => exact (congrArg Prod.snd hroute).symm
      | error exc =>
        dsimp only
        by_cases hpassed : exc.isPassed = true
        · rw [if_pos hpassed, if_pos hpassed]
        · rw [if_neg hpassed, if_neg hpassed]
          exact (congrArg Prod.snd hroute).symm

theorem deadlineMiddleware_of_not_met (hmet : ¬ Met d req) : (deadlineMiddleware d route req).2 = .ok deadlineExceeded ∨
    ∃ exc, (deadlineMiddleware d route req).2 = .error exc := by
  unfold Met at hmet
  unfold deadlineMiddleware
  cases htimeout : req.grpcTimeout with
  | none =>
    rw [htimeout] at hmet
    exact absurd trivial hmet
  | some header =>
    rw [htimeout] at hmet
    obtain ⟨hempty, hparsed⟩ := not_or.1 hmet
    dsimp only
    rw [if_neg hempty]
    cases hparse : d.parse header with
    | error exc =>
      rw [hparse] at hparsed
      dsimp only at hparsed ⊢
      rw [if_neg hparsed]
      exact Or.inr ⟨exc, rfl⟩
    | ok value =>
      rw [hparse] at hparsed
      dsimp only at hparsed ⊢
      rw [callWithin]
      cases hclock : d.clock with
      | inTime => exact absurd hclock hparsed
      | expired started => exact Or.inl rfl

theorem not_framed_deadlineExceeded (isText : Bool) (answer : Except Exc Bytes) :
    ¬ FramedReply lib isText answer (.ok deadlineExceeded) := by
  rintro ⟨message, response, body, bytes, -, hresult, hbody, hbytes, hreply⟩
  cases hresult
  cases hbody
  cases isText with
  | true =>
    have hnone : Base64.decode (utf8Bytes "Deadline Exceeded") = none := by decide
    exact absurd (hnone.symm.trans hbytes) nofun
  | false =>
    cases hbytes
    have hhead : (utf8Bytes "Deadline Exceeded").head? = some 0x44 := by decide
    exact not_isReply_of_head hhead (by decide) (by decide) hreply

/-- A reply to a gRPC-Web request is framed exactly if its deadline does not end it, `grpc-encoding` does
not name gzip, and the RPC handler returns a message, with a length that fits into the header, in the
attempt that is answered. -/
theorem web_reply_framed_iff (req : Request) (hgzip : ∀ b, (lib.compress b).head? = some 0x1f)
    (hweb : isGrpcWeb req.contentType = true) :
    let attempt := finalAttempt d (gzipMiddleware lib (webHandler lib handler)) req
    FramedReply lib (isGrpcWebText req.contentType) (answer lib handler attempt req)
        (serve lib d handler req).2 ↔ Met d req ∧ contains req.grpcEncoding "gzip".toList = false ∧
        ∃ message, answer lib handler attempt req = .ok message ∧ message.length < 2 ^ 32 := by
  intro attempt
  have hserve : serve lib d handler req = deadlineMiddleware d (gzipMiddleware lib (webHandler lib handler)) req := rfl
  rw [hserve]
  by_cases hmet : Met d req
  · -- what leaves the stack is the outcome of one attempt
    rw [deadlineMiddleware_of_met d hmet, gzip_route_framed_iff lib handler hgzip hweb]
    exact (and_iff_right hmet).symm
  · refine ⟨fun hframed => ?_, fun h => absurd h.1 hmet⟩
    rcases deadlineMiddleware_of_not_met d hmet with hexceeded | ⟨exc, hexc⟩
    · rw [hexceeded] at hframed
      exact absurd hframed (not_framed_deadlineExceeded lib _ _)
    · rw [hexc] at hframed
      obtain ⟨_, _, _, _, _, hok, _⟩ := hframed
      cases hok
end

def markedLibrary : Library Bytes where
  b64decode := .ok
  decompress bytes := .ok (bytes.drop 2)
  compress bytes := 0x1f :: 0x8b :: bytes
  loads := .ok
  emptyObject := []
  requestJson := .ok
  dumps := .ok
  errorBody _ _ := []

def pingHandler : Nat → Body Bytes → Except Exc (Resp Bytes) := fun _ _ =>
  .ok ⟨none, none, [0x7b, 0x7d], none⟩

def noDeadline : Deadline := ⟨fun _ => .ok (), .inTime⟩

def pingRequest (grpcEncoding : Text) : Request :=
  ⟨"application/grpc-web".toList, grpcEncoding, none, false, [0, 0, 0, 0, 0]⟩

theorem web_reply_framed_iff_identity :
    FramedReply markedLibrary false (answer markedLibrary pingHandler 0 (pingRequest []))
      (serve markedLibrary noDeadline pingHandler (pingRequest [])).2 :=
  (web_reply_framed_iff markedLibrary noDeadline pingHandler (pingRequest []) (fun _ => rfl)
    rfl).2 ⟨trivial, rfl, [0x7b, 0x7d], rfl, by decide⟩

theorem gzip_reply_not_framed : (serve markedLibrary noDeadline pingHandler (pingRequest "gzip".toList)).2 = .ok ⟨200,
    "application/grpc-web".toList, some (0x1f :: 0x8b :: dataFrames [0x7b, 0x7d])⟩ ∧
    ¬ FramedReply markedLibrary false (answer markedLibrary pingHandler 0 (pingRequest "gzip".toList))
    (serve markedLibrary noDeadline pingHandler (pingRequest "gzip".toList)).2 := by
  have hserve : (serve markedLibrary noDeadline pingHandler (pingRequest "gzip".toList)).2 =
      .ok ⟨200, "application/grpc-web".toList, some (0x1f :: 0x8b :: dataFrames [0x7b, 0x7d])⟩ := by decide
  refine ⟨hserve, ?_⟩
  rw [hserve]
  rintro ⟨message, response, body, bytes, -, hresult, hbody, hbytes, hreply⟩
  cases hresult
  cases hbody
  exact not_reply_of_gzip rfl false hbytes hreply

end HelixRpc.Runtime.Python
