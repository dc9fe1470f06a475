import HelixRpc.Runtime.SseStream

/-!
# Tool calls of the agentic streams

Model of `AgenticStream` of the Node runtime (`runtimes/node/src/agent.ts`) and of the Python runtime
(`runtimes/python/helix_rt/agent.py`).
-/

namespace HelixRpc.Runtime.Agents

open Foundation Runtime.Go Runtime.Sse List

structure Frame (V : Type) where
  isResponse : Bool
  id : Option Nat
  result : Option V

/-- The frame of a line, none if it is no JSON object; `lossy` is the decoding of bytes that are no
UTF-8, `empty` the object without members, and `limit` the one of the `StreamReader`. -/
structure Library (V : Type) where
  parse : Text → Option (Frame V)
  lossy : Bytes → Text
  truthy : V → Bool
  empty : V
  limit : Nat

variable {V : Type} (lib : Library V)

structure NodeStream (V : Type) where
  callId : Nat := 0
  buffer : Text := []
  pendingResolvers : List Nat := []
  results : List (Nat × V) := []

def Library.toText (chunk : Bytes) : Text :=
  match decodeUtf8 chunk with
  | some s => s.toList
  | none => lib.lossy chunk

def Library.orEmpty : Option V → V
  | some v => if lib.truthy v then v else lib.empty
  | none => lib.empty

namespace NodeStream

variable (st : NodeStream V)

def callTool : NodeStream V :=
  { st with callId := st.callId + 1, pendingResolvers := st.pendingResolvers ++ [st.callId + 1] }

def handleLine (line : Text) : NodeStream V :=
  match lib.parse line with
  | some ⟨true, some id, result⟩ =>
    if id ∈ st.pendingResolvers then
      { st with
        pendingResolvers := st.pendingResolvers.filter (· ≠ id)
        results := st.results ++ [(id, lib.orEmpty result)] }
    else st
  | _ => st

def data (chunk : Bytes) : NodeStream V :=
  let lines := (st.buffer ++ lib.toText chunk).splitOn '\n'
  { lines.dropLast.foldl (handleLine lib) st with buffer := lines.getLastD [] }

end NodeStream

structure PythonStream (V : Type) where
  callId : Nat := 0
  lines : List Bytes := []
  part : Bytes := []
  waiter : Option Nat := none
  results : List (Nat × Option V) := []

/-- The loop of `call_tool` over the lines that have come, none if it waits for more; `readline` raises a
`ValueError` for a line that is longer than the limit, outside the `try`. -/
def findResponse (id : Nat) : List Bytes → Option (Option V × List Bytes)
  | [] => none
  | line :: lines =>
    if lib.limit < line.length then some (none, lines)
    else
      match (decodeUtf8 line).bind fun s => lib.parse s.toList with
      | some ⟨true, some id', result⟩ =>
        if id' = id then some (some (result.getD lib.empty), lines) else findResponse id lines
      | _ => findResponse id lines

namespace PythonStream

variable (st : PythonStream V)

def resume : PythonStream V :=
  match st.waiter with
  | none => st
  | some id =>
    match findResponse lib id st.lines with
    | some (v, lines) => { st with lines, waiter := none, results := st.results ++ [(id, v)] }
    | none =>
      -- a line that is not at its end can be too long as well, and is dropped
      if lib.limit < st.part.length then
        { st with lines := [], part := [], waiter := none, results := st.results ++ [(id, none)] }
      else { st with lines := [] }

def callTool : PythonStream V :=
  match st.waiter with
  | some _ => { st with callId := st.callId + 1, results := st.results ++ [(st.callId + 1, none)] }
  | none => resume lib { st with callId := st.callId + 1, waiter := some (st.callId + 1) }

def feedData (chunk : Bytes) : PythonStream V :=
  let lines := (st.part ++ chunk).splitOn 10
  resume lib { st with lines := st.lines ++ lines.dropLast, part := lines.getLastD [] }

end PythonStream

structure Answer where
  line : Text
  id : Nat
  value : V
  noNewline : 10 ∉ encodeText line
  parsed : lib.parse line = some ⟨true, some id, some value⟩

variable {lib}

def frames (answers : List (Answer lib)) : Text := answers.flatMap fun a => a.line ++ ['\n']

theorem encodeText_newline : encodeText ['\n'] = [10] := by decide

theorem Answer.newline_notMem (a : Answer lib) : '\n' ∉ a.line := by
  intro h
  obtain ⟨before, after, hline⟩ := append_of_mem h
  refine a.noNewline ?_
  rw [hline, ← singleton_append, encodeText_append, encodeText_append, encodeText_newline]
  exact mem_append_right _ (mem_append_left _ (mem_singleton_self _))

theorem splitOn_lines {α : Type} [BEq α] [LawfulBEq α] (x : α) {lines : List (List α)} (h : ∀ line ∈ lines, x ∉ line)
    {part : List α} (hpart : x ∉ part) : (lines.flatMap (· ++ [x]) ++ part).splitOn x = lines ++ [part] := by
  induction lines with
  | nil => exact splitOn_eq_singleton hpart
  | cons line lines ih =>
    rw [flatMap_cons, append_assoc, append_assoc, singleton_append,
      splitOn_append_cons_self_of_not_mem (h line mem_cons_self), ih fun l hl => h l (mem_cons_of_mem _ hl)]
    rfl

theorem splitOn_frames {answers : List (Answer lib)} {part : Text} (hpart : '\n' ∉ part) :
    (frames answers ++ part).splitOn '\n' = answers.map (·.line) ++ [part] := by
  have hframes : frames answers = (answers.map (·.line)).flatMap (· ++ ['\n']) := by rw [flatMap_map]; rfl
  rw [hframes, splitOn_lines '\n' ?_ hpart]
  intro line hline
  obtain ⟨a, -, rfl⟩ := mem_map.1 hline
  exact a.newline_notMem

theorem splitOn_encoded {answers : List (Answer lib)} {part : Bytes} (hpart : 10 ∉ part) :
    (encodeText (frames answers) ++ part).splitOn 10 = answers.map (fun a => encodeText a.line) ++ [part] := by
  have hframes : encodeText (frames answers) = (answers.map fun a => encodeText a.line).flatMap (· ++ [10]) := by
    induction answers with
    | nil => rfl
    | cons a answers ih =>
      rw [frames, flatMap_cons, encodeText_append, encodeText_append, encodeText_newline, map_cons, flatMap_cons, ← ih]
      rfl
  rw [hframes, splitOn_lines 10 ?_ hpart]
  intro line hline
  obtain ⟨a, -, rfl⟩ := mem_map.1 hline
  exact a.noNewline

theorem toText_encodeText (t : Text) : lib.toText (encodeText t) = t := by
  rw [Library.toText, encodeText, decodeUtf8_utf8Bytes]
  exact String.toList_ofList

/-- Histories of a Node stream: calls, and chunks that end between characters, in which `answers` have come and
`part` of another line. -/
inductive NodeRun : List (Answer lib) → Text → NodeStream V → Prop where
  | start : NodeRun [] [] {}
  | call {answers part st} (h : NodeRun answers part st) : NodeRun answers part st.callTool
  | data {answers part st} (h : NodeRun answers part st) {t : Text} {new : List (Answer lib)} {part' : Text}
      (htext : part ++ t = frames new ++ part') (hpart : '\n' ∉ part')
      (hcalled : ∀ a ∈ new, 1 ≤ a.id ∧ a.id ≤ st.callId) (honce : ((answers ++ new).map (·.id)).Nodup) :
      NodeRun (answers ++ new) part' (st.data lib (encodeText t))

/-- Histories of a Python stream in which no call overlaps another and no line is longer than the limit. -/
inductive PythonRun : List (Answer lib) → Bytes → PythonStream V → Prop where
  | start : PythonRun [] [] {}
  | call {answers part st} (h : PythonRun answers part st) (hwaiter : st.waiter = none) :
      PythonRun answers part (st.callTool lib)
  | silent {answers part st} (h : PythonRun answers part st) {chunk : Bytes} (hpart : 10 ∉ part ++ chunk)
      (hshort : (part ++ chunk).length ≤ lib.limit) :
      PythonRun answers (part ++ chunk) (st.feedData lib chunk)
  | answer {answers part st} (h : PythonRun answers part st) {chunk : Bytes} {a : Answer lib} {part' : Bytes}
      (hbytes : part ++ chunk = encodeText (frames [a]) ++ part') (hpart : 10 ∉ part')
      (hshort : part'.length ≤ lib.limit) (hline : (encodeText a.line).length ≤ lib.limit)
      (hwaiter : st.waiter = some a.id) : PythonRun (answers ++ [a]) part' (st.feedData lib chunk)

section
variable {answers new : List (Answer lib)} {st : NodeStream V}

structure NodeInv (answers : List (Answer lib)) (st : NodeStream V) : Prop where
  results : st.results = answers.map fun a => (a.id, lib.orEmpty (some a.value))
  pending : ∀ id, id ∈ st.pendingResolvers ↔ (1 ≤ id ∧ id ≤ st.callId) ∧ id ∉ answers.map (·.id)
  called : ∀ a ∈ answers, a.id ≤ st.callId

theorem NodeInv.callTool (h : NodeInv answers st) : NodeInv answers st.callTool := by
  refine ⟨h.results, fun id => ?_, fun a ha => Nat.le_succ_of_le (h.called a ha)⟩
  have hnew : st.callId + 1 ∉ answers.map (·.id) := by
    intro hmem
    obtain ⟨a, ha, hid⟩ := mem_map.1 hmem
    have := h.called a ha
    omega
  show id ∈ st.pendingResolvers ++ [st.callId + 1] ↔ (1 ≤ id ∧ id ≤ st.callId + 1) ∧ _
  rw [mem_append, h.pending, mem_singleton]
  constructor
  · rintro (⟨hid, hanswered⟩ | rfl)
    · exact ⟨⟨hid.1, Nat.le_succ_of_le hid.2⟩, hanswered⟩
    · exact ⟨⟨Nat.le_add_left 1 _, Nat.le_refl _⟩, hnew⟩
  · rintro ⟨hid, hanswered⟩
    by_cases hlast : id = st.callId + 1
    · exact .inr hlast
    · exact .inl ⟨⟨hid.1, by omega⟩, hanswered⟩

theorem NodeInv.handleLine (h : NodeInv answers st) {a : Answer lib} (hcalled : 1 ≤ a.id ∧ a.id ≤ st.callId)
    (hfresh : a.id ∉ answers.map (·.id)) :
    NodeInv (answers ++ [a]) (st.handleLine lib a.line) ∧ (st.handleLine lib a.line).callId = st.callId := by
  have hpending : a.id ∈ st.pendingResolvers := (h.pending a.id).2 ⟨hcalled, hfresh⟩
  unfold NodeStream.handleLine
  simp only [a.parsed, if_pos hpending]
  refine ⟨⟨?_, fun id => ?_, fun b hb => ?_⟩, trivial⟩
  · rw [h.results, map_append]
    rfl
  · rw [mem_filter, h.pending, decide_eq_true_eq, map_append, mem_append, map_singleton, mem_singleton, not_or, and_assoc]
  · rcases mem_append.1 hb with hb | hb
    · exact h.called b hb
    · obtain rfl := mem_singleton.1 hb
      exact hcalled.2

theorem NodeInv.handleLines (h : NodeInv answers st) (hcalled : ∀ a ∈ new, 1 ≤ a.id ∧ a.id ≤ st.callId)
    (honce : ((answers ++ new).map (·.id)).Nodup) :
    NodeInv (answers ++ new) ((new.map (·.line)).foldl (NodeStream.handleLine lib) st) := by
  induction new generalizing answers st with
  | nil => rwa [append_nil]
  | cons a new ih =>
    have hfresh : a.id ∉ answers.map (·.id) := by
      rw [map_append, map_cons, nodup_append] at honce
      exact fun hmem => honce.2.2 a.id hmem a.id mem_cons_self rfl
    obtain ⟨hinv, hcallId⟩ := h.handleLine (hcalled a mem_cons_self) hfresh
    rw [← singleton_append, ← append_assoc] at honce ⊢
    exact ih hinv (fun b hb => hcallId ▸ hcalled b (mem_cons_of_mem _ hb)) honce

theorem NodeRun.inv {part : Text} (h : NodeRun answers part st) : NodeInv answers st ∧ st.buffer = part := by
  induction h with
  | start => exact ⟨⟨rfl, fun id => ⟨nofun, fun hid => absurd hid.1 (by simp only; omega)⟩, nofun⟩, rfl⟩
  | call _ ih => exact ⟨ih.1.callTool, ih.2⟩
  | @data answers part st _ t new part' htext hpart hcalled honce ih =>
    have hlines : (st.buffer ++ lib.toText (encodeText t)).splitOn '\n' = new.map (·.line) ++ [part'] := by
      rw [ih.2, toText_encodeText, htext, splitOn_frames hpart]
    have hinv := ih.1.handleLines hcalled honce
    simp only [NodeStream.data, hlines, dropLast_concat, getLastD_concat]
    exact ⟨⟨hinv.results, hinv.pending, hinv.called⟩, trivial⟩
end

section
variable {answers : List (Answer lib)} {st : PythonStream V}

structure PythonInv (answers : List (Answer lib)) (part : Bytes) (st : PythonStream V) : Prop where
  results : st.results = answers.map fun a => (a.id, some a.value)
  lines : st.lines = []
  part : st.part = part
  short : st.part.length ≤ lib.limit

theorem PythonInv.resume {part : Bytes} (h : PythonInv answers part st) : PythonInv answers part (st.resume lib) := by
  unfold PythonStream.resume
  split
  · exact h
  · simp only [h.lines, findResponse, if_neg (Nat.not_lt.2 h.short)]
    exact ⟨h.results, rfl, h.part, h.short⟩

theorem findResponse_answer (a : Answer lib) (hline : (encodeText a.line).length ≤ lib.limit)
    (lines : List Bytes) : findResponse lib a.id (encodeText a.line :: lines) = some (some a.value, lines) := by
  have hdecode : decodeUtf8 (encodeText a.line) = some (String.ofList a.line) := decodeUtf8_utf8Bytes _
  simp [findResponse, Nat.not_lt.2 hline, hdecode, a.parsed]

theorem PythonRun.inv {part : Bytes} (h : PythonRun answers part st) : PythonInv answers part st := by
  induction h with
  | start => exact ⟨rfl, rfl, rfl, Nat.zero_le _⟩
  | call _ hwaiter ih =>
    rw [PythonStream.callTool, hwaiter]
    exact PythonInv.resume ⟨ih.results, ih.lines, ih.part, ih.short⟩
  | @silent answers part st _ chunk hpart hshort ih =>
    simp only [PythonStream.feedData, ih.part, splitOn_eq_singleton hpart]
    exact PythonInv.resume ⟨ih.results, by rw [ih.lines]; rfl, rfl, hshort⟩
  | @answer answers part st _ chunk a part' hbytes hpart hshort hline hwaiter ih =>
    have hlines : (st.part ++ chunk).splitOn 10 = [encodeText a.line] ++ [part'] := by
      rw [ih.part, hbytes, splitOn_encoded hpart]
      rfl
    simp only [PythonStream.feedData, hlines, dropLast_concat, getLastD_concat, PythonStream.resume, hwaiter, ih.lines,
      nil_append, findResponse_answer a hline]
    refine ⟨?_, rfl, rfl, hshort⟩
    rw [ih.results, map_append]
    rfl
end

/-- Each call gets the value of the frame with its id: on a Node stream, if no chunk cuts
a character and the values are truthy, and on a Python stream, if calls do not overlap and no line is longer
than the limit of its reader. -/
theorem tool_calls_answered (lib : Library V) (nodeAnswers pythonAnswers : List (Answer lib)) (text : Text)
    (bytes : Bytes) (node : NodeStream V) (python : PythonStream V) (hnode : NodeRun nodeAnswers text node)
    (htruthy : ∀ a ∈ nodeAnswers, lib.truthy a.value = true) (hpython : PythonRun pythonAnswers bytes python) :
    node.results = nodeAnswers.map (fun a => (a.id, a.value)) ∧
      python.results = pythonAnswers.map fun a => (a.id, some a.value) := by
  refine ⟨?_, hpython.inv.results⟩
  rw [hnode.inv.1.results]
  exact map_congr_left fun a ha => by rw [Library.orEmpty, htruthy a ha, if_pos rfl]

def digits : Library Nat where
  parse line :=
    if line = ['a'] then some ⟨true, some 1, some 0⟩ else if line = ['b'] then some ⟨true, some 2, some 5⟩ else none
  lossy _ := []
  truthy v := v ≠ 0
  empty := 100
  limit := 65536

def answerB : Answer digits := ⟨['b'], 2, 5, by decide, rfl⟩

def answerA : Answer digits := ⟨['a'], 1, 0, by decide, rfl⟩

theorem tool_calls_answered_digits :
    (({} : NodeStream Nat).callTool.callTool.data digits (encodeText ['b', '\n'])).results = [(2, 5)] ∧
      ((({} : PythonStream Nat).callTool digits).feedData digits (encodeText ['a', '\n'])).results = [(1, some 0)] := by
  have hnode : NodeRun [answerB] [] (({} : NodeStream Nat).callTool.callTool.data digits (encodeText ['b', '\n'])) := by
    have htext : [] ++ ['b', '\n'] = frames [answerB] ++ [] := rfl
    refine NodeRun.start.call.call.data htext nofun (fun a ha => ?_) (by decide)
    obtain rfl := mem_singleton.1 ha
    decide
  refine tool_calls_answered digits [answerB] [answerA] [] [] _ _ hnode (fun a ha => ?_) ?_
  · obtain rfl := mem_singleton.1 ha
    rfl
  · exact (PythonRun.start.call rfl).answer (a := answerA) rfl nofun (by decide) (by decide) rfl

theorem tool_calls_misanswered : (({} : NodeStream Nat).callTool.data digits (encodeText ['a', '\n'])).results =
    [(1, digits.empty)] ∧ ((({} : PythonStream Nat).callTool digits).callTool digits).results = [(2, none)] := by
  refine ⟨?_, rfl⟩
  have hrun : NodeRun [answerA] [] (({} : NodeStream Nat).callTool.data digits (encodeText ['a', '\n'])) := by
    have htext : [] ++ ['a', '\n'] = frames [answerA] ++ [] := rfl
    refine NodeRun.start.call.data htext nofun (fun a ha => ?_) (by decide)
    obtain rfl := mem_singleton.1 ha
    decide
  exact hrun.inv.1.results

end HelixRpc.Runtime.Agents
