import HelixRpc.Runtime.Go.ServerStream

/-!
# Server-sent events from the Go server to the generated client

`GRPCHandler.ServeHTTP` runs a stream handler over an `sseServerStream` and closes the response with `[DONE]`.
-/

namespace HelixRpc.Runtime.Sse

open Foundation Runtime.Go List
variable {Req Resp Value Out δ : Type}

def encodeText (t : Text) : Bytes := utf8Bytes (String.ofList t)

theorem encodeText_inj {t u : Text} : encodeText t = encodeText u ↔ t = u := utf8Bytes_inj.trans String.ofList_inj

theorem encodeText_append (t u : Text) : encodeText (t ++ u) = encodeText t ++ encodeText u := by
  simp [encodeText, utf8Bytes, String.ofList_append]

variable {α : Type} {data : Text} {w : Writer}

theorem splitOn_append [BEq α] [LawfulBEq α] (x : α) (t : List α) :
    ∃ lines last, t.splitOn x = lines ++ [last] ∧ x ∉ last ∧ ∀ u, (t ++ u).splitOn x = lines ++ (last ++ u).splitOn x := by
  by_cases hx : x ∈ t
  · obtain ⟨last, lines, hreverse, hlast⟩ := eq_append_cons_of_mem (mem_reverse.2 hx)
    have ht : t = lines.reverse ++ x :: last.reverse := by
      rw [← reverse_reverse t, hreverse]
      simp
    have hlast : x ∉ last.reverse := fun h => hlast (mem_reverse.1 h)
    refine ⟨lines.reverse.splitOn x, last.reverse, ?_, hlast, fun u => ?_⟩
    · rw [ht, splitOn_append_cons_self, splitOn_eq_singleton hlast]
    · rw [ht, append_assoc, cons_append, splitOn_append_cons_self]
  · exact ⟨[], t, splitOn_eq_singleton hx, hx, fun u => rfl⟩

def sent (m : MessageCodec Req Resp) : StreamProgram Req Resp → SseStream → List Resp
  | .done _, _ => []
  | .recv next, s => sent m (next ((sseStream m).recv s).result) ((sseStream m).recv s).stream
  | .send resp next, s =>
    let call := (sseStream m).send resp s
    (if call.result = none then [resp] else []) ++ sent m (next call.result) call.stream

def newStream (body : Bytes) (w : Writer) : SseStream := ⟨if body = [] then utf8Bytes "\x7b\x7d" else body, false, w⟩

def outcome (m : MessageCodec Req Resp) (handler : StreamProgram Req Resp) (s : SseStream) : List (Resp ⊕ Text) :=
  (sent m handler s).map .inl ++ ((handler.run (sseStream m) s).result.map .inr).toList

/-- The part of `ServeHTTP` for a streaming method whose client accepts events; `errorJson` is `sonic.Marshal` of the
map with the error. -/
def serveSSE (m : MessageCodec Req Resp) (errorJson : Text → Bytes) (handler : StreamProgram Req Resp) (body : Bytes)
    (w : Writer) : Writer :=
  let ran := handler.run (sseStream m) (newStream body w)
  let w := match ran.result with
    | some err => (ran.stream.writer.writeAll [utf8Bytes "data: " ++ errorJson err ++ utf8Bytes "\n\n"]).2
    | none => ran.stream.writer
  (w.writeAll [utf8Bytes "data: [DONE]\n\n"]).2

def isSpace (c : Char) : Bool := (9 ≤ c.toNat && c.toNat ≤ 13) || (0x2000 ≤ c.toNat && c.toNat ≤ 0x200a) ||
    [0x20, 0xa0, 0x1680, 0x2028, 0x2029, 0x202f, 0x205f, 0x3000, 0xfeff].contains c.toNat

def trim (t : Text) : Text := ((t.dropWhile isSpace).reverse.dropWhile isSpace).reverse

def doneMarker : Text := "[DONE]".toList

structure Script (Value Out : Type) where
  parse : Text → Option Value
  new : Value → Out
  parse_trim : ∀ t v, parse t = some v → parse (trim t) = some v
  parse_done : parse doneMarker = none

structure TextDecoder (δ : Type) where
  start : δ
  decode : δ → Bytes → Text × δ

structure Yielded (Out : Type) where
  yields : List Out
  returned : Bool

def Yielded.andThen (first rest : Yielded Out) : Yielded Out :=
  if first.returned then first else ⟨first.yields ++ rest.yields, rest.returned⟩

theorem Yielded.andThen_assoc (a b c : Yielded Out) : (a.andThen b).andThen c = a.andThen (b.andThen c) := by
  obtain ⟨ys, _ | _⟩ := a <;> obtain ⟨zs, _ | _⟩ := b <;> simp [Yielded.andThen]

variable (js : Script Value Out) (dec : TextDecoder δ)

def readLine (line : Text) : Yielded Out :=
  if "data: ".toList.isPrefixOf line then
    let dataStr := trim (line.drop 6)
    if dataStr = doneMarker then ⟨[], true⟩
    else match js.parse dataStr with
      | some data => ⟨[js.new data], false⟩
      | none => ⟨[], false⟩
  else ⟨[], false⟩

def readLines : List Text → Yielded Out
  | [] => ⟨[], false⟩
  | line :: lines => (readLine js line).andThen (readLines lines)

def consume : δ → Text → List Bytes → Yielded Out
  | _, _, [] => ⟨[], false⟩
  | d, buffer, value :: chunks =>
    let (piece, d) := dec.decode d value
    let lines := (buffer ++ piece).splitOn '\n'
    (readLines js lines.dropLast).andThen (consume d (lines.getLastD []) chunks)

def client (status : Nat) (body : Option (List Bytes)) : List Out × Option Text :=
  if status < 200 ∨ 300 ≤ status then ([], some ("HTTP error! status: ".toList ++ Nat.toDigits 10 status))
  else match body with
    | none => ([], some "Response body is null".toList)
    | some chunks => ((consume js dec dec.start [] chunks).yields, none)

theorem readLines_append (a b : List Text) : readLines js (a ++ b) = (readLines js a).andThen (readLines js b) := by
  induction a with
  | nil => rfl
  | cons line a ih => rw [cons_append, readLines, readLines, ih, Yielded.andThen_assoc]

def TextDecoder.text : δ → List Bytes → Text
  | _, [] => []
  | d, value :: chunks => (dec.decode d value).1 ++ TextDecoder.text (dec.decode d value).2 chunks

/-- The decoder works incrementally on these chunks: if they are the encoding of a text, this text comes out. -/
def TextDecoder.Incremental (chunks : List Bytes) : Prop :=
  ∀ t, chunks.flatten = encodeText t → dec.text dec.start chunks = t

def readText (t : Text) : Yielded Out := readLines js (t.splitOn '\n').dropLast

theorem consume_eq (d : δ) {buffer : Text} (hbuffer : '\n' ∉ buffer) (chunks : List Bytes) :
    consume js dec d buffer chunks = readText js (buffer ++ dec.text d chunks) := by
  -- by induction on the chunks; the buffer is a line that is not finished
  induction chunks generalizing d buffer with
  | nil =>
    rw [TextDecoder.text, append_nil, readText, splitOn_eq_singleton hbuffer]
    rfl
  | cons value chunks ih =>
    obtain ⟨lines, last, hlines, hlast, happend⟩ := splitOn_append '\n' (buffer ++ (dec.decode d value).1)
    have hne : (last ++ dec.text (dec.decode d value).2 chunks).splitOn '\n' ≠ [] := splitOn_ne_nil _ _
    rw [TextDecoder.text, ← append_assoc, readText, happend, dropLast_append_of_ne_nil hne, readLines_append]
    simp only [consume, hlines, dropLast_concat, getLastD_concat]
    rw [ih _ hlast]
    rfl

def event (data : Text) : Text := "data: ".toList ++ data ++ "\n\n".toList

theorem readText_line {line : Text} (hline : '\n' ∉ line) (t : Text) :
    readText js (line ++ '\n' :: t) = (readLine js line).andThen (readText js t) := by
  have hne : t.splitOn '\n' ≠ [] := splitOn_ne_nil _ _
  rw [readText, splitOn_append_cons_self_of_not_mem hline, dropLast_cons_of_ne_nil hne]
  rfl

theorem readText_event (hdata : '\n' ∉ data) (t : Text) :
    readText js (event data ++ t) = (readLine js ("data: ".toList ++ data)).andThen (readText js t) := by
  have hline : '\n' ∉ "data: ".toList ++ data := by
    rw [mem_append]
    exact fun h => h.elim (by decide) hdata
  have hbreaks : "\n\n".toList = ['\n', '\n'] := by decide
  have hevent : event data ++ t = ("data: ".toList ++ data) ++ '\n' :: ([] ++ '\n' :: t) := by
    unfold event
    simp [hbreaks]
  rw [hevent, readText_line js hline, readText_line js (not_mem_nil)]
  rfl

variable {js}

theorem readLine_data {v : Value} (hparse : js.parse data = some v) :
    readLine js ("data: ".toList ++ data) = ⟨[js.new v], false⟩ := by
  have hmark : trim data ≠ doneMarker := by
    intro h
    have hdone := js.parse_trim data v hparse
    rw [h, js.parse_done] at hdone
    cases hdone
  simp [readLine, if_neg hmark, js.parse_trim data v hparse]

theorem readText_events {text : α → Text} {value : α → Value} (hline : ∀ a, '\n' ∉ text a)
    (hparse : ∀ a, js.parse (text a) = some (value a)) (l : List α) (t : Text) :
    readText js (l.flatMap (fun a => event (text a)) ++ event doneMarker ++ t) = ⟨l.map fun a => js.new (value a), true⟩ := by
  induction l with
  | nil =>
    rw [flatMap_nil, nil_append, readText_event js (by decide)]
    rfl
  | cons a l ih =>
    rw [flatMap_cons, append_assoc, append_assoc, readText_event js (hline a), readLine_data (hparse a),
      ← append_assoc, ih]
    rfl

structure Encoding (m : MessageCodec Req Resp) (errorJson : Text → Bytes) (js : Script Value Out) where
  text : Resp ⊕ Text → Text
  value : Resp ⊕ Text → Value
  encode : ∀ resp bytes, m.sonicEncode resp = .ok bytes → trimNewline bytes = encodeText (text (.inl resp))
  encodeError : ∀ err, errorJson err = encodeText (text (.inr err))
  oneLine : ∀ data, '\n' ∉ text data
  parse : ∀ data, js.parse (text data) = some (value data)

def Reliable (w : Writer) : Prop := ∀ written chunk, w.fails written chunk = none

def extend (w : Writer) (b : Bytes) : Writer := { w with written := w.written ++ b }

theorem extend_extend (w : Writer) (b c : Bytes) : extend (extend w b) c = extend w (b ++ c) := by
  simp [extend]

theorem Reliable.extend (hw : Reliable w) (b : Bytes) : Reliable (extend w b) := hw

theorem Reliable.writeAll (hw : Reliable w) (chunks : List Bytes) :
    w.writeAll chunks = (none, Sse.extend w chunks.flatten) := by
  induction chunks generalizing w with
  | nil => simp [Writer.writeAll, Sse.extend]
  | cons chunk chunks ih =>
    have hrest := ih (hw.extend chunk)
    rw [extend_extend] at hrest
    rw [Writer.writeAll, hw w.written chunk]
    exact hrest

theorem encodeText_event (data : Text) :
    encodeText (event data) = utf8Bytes "data: " ++ encodeText data ++ utf8Bytes "\n\n" := by
  unfold event
  simp only [encodeText_append]
  simp [encodeText]

section
variable {m : MessageCodec Req Resp} {errorJson : Text → Bytes} (e : Encoding m errorJson js)

def Encoding.events (l : List (Resp ⊕ Text)) : Text := l.flatMap fun data => event (e.text data)

theorem run_written (handler : StreamProgram Req Resp) {s : SseStream} (hs : Reliable s.writer) :
    (handler.run (sseStream m) s).stream.writer =
      extend s.writer (encodeText (e.events ((sent m handler s).map .inl))) := by
  induction handler generalizing s with
  | done err => simp [StreamProgram.run, sent, Encoding.events, encodeText, utf8Bytes, extend]
  | recv next ih =>
    have hwriter : ((sseStream m).recv s).stream.writer = s.writer := by
      simp only [sseStream]
      split <;> rfl
    rw [StreamProgram.run, sent, ih _ (hwriter ▸ hs), hwriter]
  | send resp next ih =>
    simp only [StreamProgram.run, sent]
    cases hjson : m.sonicEncode resp with
    | error err =>
      have hsend : (sseStream m).send resp s = ⟨some err, [.encode .json], s⟩ := by simp only [sseStream, hjson]
      simp [hsend, ih _ hs]
    | ok bytes =>
      have hsend : (sseStream m).send resp s = ⟨none, [.encode .json],
          { s with writer := extend s.writer (encodeText (event (e.text (.inl resp)))) }⟩ := by
        simp [sseStream, hjson, hs.writeAll, encodeText_event, e.encode resp bytes hjson]
      have hnext := ih none (s := { s with writer := extend s.writer (encodeText (event (e.text (.inl resp)))) })
        (hs.extend _)
      simp only [hsend, hnext, extend_extend, ← encodeText_append]
      rfl

theorem serveSSE_written (handler : StreamProgram Req Resp) (body : Bytes) {w : Writer} (hw : Reliable w) :
    serveSSE m errorJson handler body w = extend w (encodeText
      (e.events (outcome m handler (newStream body w)) ++ event doneMarker)) := by
  have hrun : (handler.run (sseStream m) (newStream body w)).stream.writer =
      extend w (encodeText (e.events ((sent m handler (newStream body w)).map .inl))) := run_written e handler hw
  have hdone : utf8Bytes "data: [DONE]\n\n" = encodeText (event doneMarker) := rfl
  have herror (err : Text) : utf8Bytes "data: " ++ errorJson err ++ utf8Bytes "\n\n" =
      encodeText (event (e.text (.inr err))) := by rw [encodeText_event, e.encodeError]
  simp only [serveSSE, outcome, hrun, hdone, herror]
  cases (handler.run (sseStream m) (newStream body w)).result with
  | none =>
    dsimp only
    rw [(hw.extend _).writeAll, flatten_singleton, extend_extend, ← encodeText_append]
    simp
  | some err =>
    dsimp only
    rw [(hw.extend _).writeAll, ((hw.extend _).extend _).writeAll, flatten_singleton, flatten_singleton,
      extend_extend, extend_extend, ← encodeText_append, ← encodeText_append]
    simp [Encoding.events]

theorem client_serveSSE (handler : StreamProgram Req Resp) (body : Bytes) {w : Writer} (hw : Reliable w)
    (hwritten : w.written = []) {chunks : List Bytes}
    (hchunks : chunks.flatten = (serveSSE m errorJson handler body w).written) (hdec : dec.Incremental chunks) :
    client js dec 200 (some chunks) =
      ((outcome m handler (newStream body w)).map fun data => js.new (e.value data), none) := by
  rw [serveSSE_written e handler body hw, extend, hwritten, nil_append] at hchunks
  have hread := readText_events e.oneLine e.parse (outcome m handler (newStream body w)) []
  rw [append_nil] at hread
  simp only [client, consume_eq js dec dec.start not_mem_nil, nil_append, hdec _ hchunks]
  exact congrArg (fun r => (r.yields, none)) hread
end

namespace Sample

def messageJson : Text := "\x7b\"n\":1\x7d".toList

def failureJson : Text := "\x7b\"error\":\"no\"\x7d".toList

def codec : MessageCodec Unit Unit where
  sonicUnmarshal _ := .ok ()
  jsonUnmarshal _ := .ok ()
  unmarshal _ := .ok ()
  unmarshalFlatBuffers _ := .ok ()
  sonicEncode _ := .ok (encodeText (messageJson ++ ['\n']))
  jsonMarshal _ := .ok (encodeText messageJson)
  marshal _ := .ok []
  marshalFlatBuffers _ := []

def script : Script Text Text where
  parse t := if t = messageJson ∨ t = failureJson then some t else none
  new v := v
  parse_trim t v h := by
    split_ifs at h with ht
    rcases ht with rfl | rfl <;> exact h
  parse_done := by decide

def encoding : Encoding codec (fun _ => encodeText failureJson) script where
  text := Sum.elim (fun _ => messageJson) fun _ => failureJson
  value := Sum.elim (fun _ => messageJson) fun _ => failureJson
  encode _ _ h := by
    cases h
    exact (by decide : trimNewline (encodeText (messageJson ++ ['\n'])) = encodeText messageJson)
  encodeError _ := rfl
  oneLine := Sum.rec (fun _ => (by decide : '\n' ∉ messageJson)) fun _ => (by decide : '\n' ∉ failureJson)
  parse := Sum.rec (fun _ => (by decide : script.parse messageJson = some messageJson))
    fun _ => (by decide : script.parse failureJson = some failureJson)

def decoder : TextDecoder Unit := ⟨(), fun _ value => (value.map fun b => Char.ofNat b.toNat, ())⟩

def writer : Writer := ⟨[], fun _ _ => none⟩

def handler (err : Option Text) : StreamProgram Unit Unit := .send () fun _ => .done err

def chunks (err : Option Text) : List Bytes :=
  (serveSSE codec (fun _ => encodeText failureJson) (handler err) [] writer).written.map fun b => [b]

theorem decoder_incremental {chunks : List Bytes}
    (h : chunks.flatten = encodeText (decoder.text () chunks)) : decoder.Incremental chunks := by
  intro t ht
  rw [← encodeText_inj, ← ht, h]

end Sample

section
variable {m : MessageCodec Req Resp} {errorJson : Text → Bytes} (e : Encoding m errorJson js)

/-- The client yields the parsed messages that the handler has sent, in their order, and
ends, however the response is cut. -/
theorem sse_independent_of_chunks (handler : StreamProgram Req Resp) (body : Bytes) (w : Writer) (hw : Reliable w)
    (hwritten : w.written = []) (hok : (handler.run (sseStream m) (newStream body w)).result = none)
    (chunks : List Bytes) (hchunks : chunks.flatten = (serveSSE m errorJson handler body w).written)
    (hdec : dec.Incremental chunks) : client js dec 200 (some chunks) =
      ((sent m handler (newStream body w)).map fun resp => js.new (e.value (.inl resp)), none) := by
  rw [client_serveSSE dec e handler body hw hwritten hchunks hdec, outcome, hok]
  simp

theorem sse_independent_of_chunks_bytes :
    client Sample.script Sample.decoder 200 (some (Sample.chunks none)) = ([Sample.messageJson], none) :=
  sse_independent_of_chunks Sample.decoder Sample.encoding (Sample.handler none) [] Sample.writer (fun _ _ => rfl) rfl
    rfl (Sample.chunks none) (by decide) (Sample.decoder_incremental (by decide))

/-- If the handler returns an error, the client yields the messages that have been
sent and then the object with the error, and ends without an error. -/
theorem sse_error_yielded (handler : StreamProgram Req Resp) (body : Bytes) (w : Writer) (hw : Reliable w)
    (hwritten : w.written = []) {err : Text} (herr : (handler.run (sseStream m) (newStream body w)).result = some err)
    (chunks : List Bytes) (hchunks : chunks.flatten = (serveSSE m errorJson handler body w).written)
    (hdec : dec.Incremental chunks) : client js dec 200 (some chunks) =
      ((sent m handler (newStream body w)).map (fun resp => js.new (e.value (.inl resp))) ++
        [js.new (e.value (.inr err))], none) := by
  rw [client_serveSSE dec e handler body hw hwritten hchunks hdec, outcome, herr]
  simp

theorem sse_error_yielded_last : client Sample.script Sample.decoder 200 (some (Sample.chunks (some ['n', 'o']))) =
      ([Sample.messageJson, Sample.failureJson], none) :=
  sse_error_yielded Sample.decoder Sample.encoding (Sample.handler (some ['n', 'o'])) [] Sample.writer (fun _ _ => rfl)
    rfl rfl (Sample.chunks (some ['n', 'o'])) (by decide) (Sample.decoder_incremental (by decide))

theorem error_event_taken_for_message :
    outcome Sample.codec (Sample.handler (some ['n', 'o'])) (newStream [] Sample.writer) = [.inl (), .inr ['n', 'o']] ∧
    client Sample.script Sample.decoder 200 (some (Sample.chunks (some ['n', 'o']))) =
      ([Sample.messageJson, Sample.failureJson], none) := by decide
end

end HelixRpc.Runtime.Sse
