import HelixRpc.Codegen.Go.Struct
import HelixRpc.Compiler.ThriftParser
import HelixRpc.Runtime.Go.ThriftConnection

/-!
# Thrift processors of the generated Go code

Model of `Read` and `Write` of a struct and of `Process` of a service as `GenerateGo` writes them, and of the loop of
`HandleThriftConnection` (`runtimes/go/thrift_handler.go`).
-/

namespace HelixRpc.Codegen.Go

open Compiler Foundation Runtime.Go List
universe u

def mapThriftTypeConst : Kind → TType
  | .int32 => .i32
  | .int64 => .i64
  | .string | .binary => .string
  | .bool => .bool
  | .struct => .struct
  | .double | .void | .map | .list | .enum => .stop

def IdsFit (s : StructNode) : Prop :=
  ∀ f ∈ s.fields, -2 ^ 15 ≤ f.id.toInt ∧ f.id.toInt < 2 ^ 15

instance (s : StructNode) : Decidable (IdsFit s) :=
  inferInstanceAs (Decidable (∀ f ∈ s.fields, -2 ^ 15 ≤ f.id.toInt ∧ f.id.toInt < 2 ^ 15))

/-- A struct whose functions `Read` and `Write` compile: `Write` has no statement for fields of other kinds, and the
ids are cases of a switch over an `int16`. -/
structure ThriftStruct where
  node : StructNode
  codable : AllCodable node
  distinct : DistinctIds node
  fit : IdsFit node

def readThrift : (k : Kind) → ThriftValue → Option (GoVal k)
  | .int32, .i32 v => some v
  | .int64, .i64 v => some v
  | .string, .string v => some v
  | _, _ => none

def readField (s : StructNode) (x : GoStruct s) (field : BitVec 16 × ThriftValue) : GoStruct s :=
  match caseOf s (field.1.signExtend 32) with
  | some i =>
    match readThrift (kindAt s i) field.2 with
    | some v => Function.update x i v
    | none => x
  | none => x

def writeThrift : (k : Kind) → Codable k → GoVal k → ThriftValue
  | .int32, _, v => .i32 v
  | .int64, _, v => .i64 v
  | .string, _, v => .string v

namespace ThriftStruct

variable (s : ThriftStruct)

def read (fields : ThriftFields) : GoStruct s.node :=
  fields.foldl (readField s.node) (GoStruct.zero s.node)

def writeField (x : GoStruct s.node) (i : Fin s.node.fields.length) : BitVec 16 × ThriftValue :=
  ((s.node.fields.get i).id.setWidth 16, writeThrift (kindAt s.node i) (allCodable_at s.codable i) (x i))

def write (x : GoStruct s.node) : ThriftFields :=
  (finRange s.node.fields.length).map (s.writeField x)

end ThriftStruct

theorem type_writeThrift {k : Kind} (h : Codable k) (v : GoVal k) :
    (writeThrift k h v).type = mapThriftTypeConst k := by
  cases k with
  | int32 => rfl
  | int64 => rfl
  | string => rfl
  | _ => exact h.elim

namespace ThriftStruct

variable {s : ThriftStruct}

theorem readField_struct (x : GoStruct s.node) (id : BitVec 16) (fields : ThriftFields) :
    readField s.node x (id, .struct fields) = x := by
  unfold readField
  split
  · rename_i i _
    have hnone : readThrift (kindAt s.node i) (.struct fields) = none := by
      cases kindAt s.node i with
      | _ => rfl
    simp only [hnone]
  · rfl

theorem write_ne_resultStruct (x : GoStruct s.node) (fields : ThriftFields) : s.write x ≠ resultStruct fields := by
  intro heq
  have hmem : ((0 : BitVec 16), ThriftValue.struct fields) ∈ s.write x := by
    rw [heq]
    exact mem_cons_self
  obtain ⟨i, -, hi⟩ := mem_map.1 hmem
  have hstruct : (writeThrift (kindAt s.node i) (allCodable_at s.codable i) (x i)).type = .struct := by
    have hvalue : writeThrift (kindAt s.node i) (allCodable_at s.codable i) (x i) = .struct fields :=
      congrArg Prod.snd hi
    rw [hvalue]
    rfl
  -- the type of a field is never that of a struct, because such a field is not codable
  rw [type_writeThrift] at hstruct
  have hcodable := allCodable_at s.codable i
  generalize kindAt s.node i = k at hstruct hcodable
  cases k with
  | struct => exact hcodable
  | _ => cases hstruct

end ThriftStruct

structure ThriftMethod where
  name : String
  input : ThriftStruct
  output : ThriftStruct

structure ThriftService where
  methods : List ThriftMethod
  distinct : (methods.map ThriftMethod.name).Nodup

def ThriftService.method? (srv : ThriftService) (name : String) : Option ThriftMethod :=
  srv.methods.find? fun m => decide (m.name = name)

theorem ThriftService.method?_name (srv : ThriftService) {m : ThriftMethod} (hm : m ∈ srv.methods) :
    srv.method? m.name = some m := by
  cases hfind : srv.method? m.name with
  | none =>
    have hnone := find?_eq_none.1 hfind m hm
    simp at hnone
  | some m' =>
    have hname : m'.name = m.name := by simpa using find?_some hfind
    have hmem := mem_of_find?_eq_some hfind
    rw [inj_on_of_nodup_map srv.distinct hmem hm hname]

def thriftStruct (a : AST) (name : String) : Option ThriftStruct :=
  match a.structs.find? fun s => decide (s.name = name) with
  | some s =>
    if h : AllCodable s ∧ DistinctIds s ∧ IdsFit s then some ⟨s, h.1, h.2.1, h.2.2⟩ else none
  | none => none

def thriftMethod (a : AST) (m : MethodNode) : Option ThriftMethod := do
  let input ← thriftStruct a m.inputType
  let output ← thriftStruct a m.outputType
  pure ⟨m.name, input, output⟩

def thriftService (a : AST) (srv : ServiceNode) : Option ThriftService :=
  match srv.methods.mapM (thriftMethod a) with
  | some methods =>
    if h : (methods.map ThriftMethod.name).Nodup then some ⟨methods, h⟩ else none
  | none => none

abbrev Handler (σ : Type u) :=
  σ → (m : ThriftMethod) → GoStruct m.input.node → Except Slice (GoStruct m.output.node) × σ

inductive ProcessError where
  | unreadable
  | unknownMethod (name : String)
  | handler (err : Slice)

/-- What `Process` has done: the call of the handler, the messages that were written, and the values
that it returns. -/
structure Processed (σ : Type u) where
  state : σ
  called : Option ((m : ThriftMethod) × GoStruct m.input.node)
  written : List Message
  ok : Bool
  err : Option ProcessError

section
variable {σ : Type u} (exceptionBody : Slice → ThriftFields) (srv : ThriftService)
  (handler : Handler σ)
variable (s : σ)

/-- `Process`. -/
def process : Option Message → Processed σ
  | none => ⟨s, none, [], false, some .unreadable⟩
  | some msg =>
    match srv.method? msg.name with
    | none => ⟨s, none, [], false, some (.unknownMethod msg.name)⟩
    | some m =>
      let args := m.input.read msg.body
      match handler s m args with
      | (.error err, s) => ⟨s, some ⟨m, args⟩,
          [⟨m.name, .exception, msg.seqId, exceptionBody err⟩], true, some (.handler err)⟩
      | (.ok res, s) => ⟨s, some ⟨m, args⟩, [⟨m.name, .reply, msg.seqId, m.output.write res⟩], true, none⟩

/-- A call is processed as a Thrift client expects it: the handler is called with the argument, and its
result is the result of the reply. -/
structure Interoperates (s : σ) (call : Message) (m : ThriftMethod) (v : GoStruct m.input.node)
    (out : GoStruct m.output.node) : Prop where
  called : (process exceptionBody srv handler s (some call)).called = some ⟨m, v⟩
  reply : (process exceptionBody srv handler s (some call)).written =
    [⟨m.name, .reply, call.seqId, resultStruct (m.output.write out)⟩]

theorem read_argumentStruct (t : ThriftStruct) (fields : ThriftFields) :
    t.read (argumentStruct fields) = GoStruct.zero t.node :=
  ThriftStruct.readField_struct _ 1 fields

/-- A call whose body is the argument struct of a client calls the handler with the
zero value, whatever the argument is, and a reply never has the result struct as its body. -/
theorem standard_call_misread {s : σ} {call : Message} {m : ThriftMethod} (hm : m ∈ srv.methods)
    (hname : call.name = m.name) {fields : ThriftFields}
    (hbody : call.body = argumentStruct fields) :
    (process exceptionBody srv handler s (some call)).called = some ⟨m, GoStruct.zero m.input.node⟩ ∧
      (∀ answer ∈ (process exceptionBody srv handler s (some call)).written,
        answer.type = .reply → ∀ out, answer.body ≠ resultStruct out) ∧
      ∀ out, ¬ Interoperates exceptionBody srv handler s call m (m.input.read fields) out := by
  have hmethod : srv.method? call.name = some m := by rw [hname, srv.method?_name hm]
  have hargs : m.input.read call.body = GoStruct.zero m.input.node := by rw [hbody, read_argumentStruct]
  have hreplies : ∀ answer ∈ (process exceptionBody srv handler s (some call)).written,
      answer.type = .reply → ∀ out, answer.body ≠ resultStruct out := by
    -- an answer is an exception or has the output struct itself as its body
    intro answer hanswer htype out
    simp only [process, hmethod] at hanswer
    split at hanswer
    · rw [mem_singleton.1 hanswer] at htype
      cases htype
    · rw [mem_singleton.1 hanswer]
      exact ThriftStruct.write_ne_resultStruct _ _
  refine ⟨?_, hreplies, fun out h => ?_⟩
  · simp only [process, hmethod, hargs]
    split
    all_goals rfl
  · have hmem : ⟨m.name, .reply, call.seqId, resultStruct (m.output.write out)⟩ ∈
        (process exceptionBody srv handler s (some call)).written := by
      rw [h.reply]
      exact mem_cons_self
    exact hreplies _ hmem rfl _ rfl

def processStep (msg : Option Message) : Handled σ Message :=
  let r := process exceptionBody srv handler s msg
  ⟨r.state, r.written, r.err.isNone && r.ok⟩

/-- `HandleThriftConnection`: the messages that are written for the messages of a connection, which
ends behind them. -/
def handleThriftConnection (msgs : List Message) : List Message :=
  serveLoop (processStep exceptionBody srv handler) s (msgs.map some ++ [none])

/-- The calls name methods of the service, and the handler returns no error for any but the last. -/
def Answerable : σ → List Message → Prop
  | _, [] => True
  | s, call :: calls => (srv.method? call.name).isSome = true ∧
      (calls = [] ∨ ((process exceptionBody srv handler s (some call)).err.isNone = true ∧
        Answerable (process exceptionBody srv handler s (some call)).state calls))

theorem written_processStep (call : Message) : ((processStep exceptionBody srv handler s (some call)).written = [] ∧
    srv.method? call.name = none) ∨ ∃ answer, (processStep exceptionBody srv handler s (some call)).written = [answer] ∧
    Answers call answer ∧ (srv.method? call.name).isSome = true := by
  cases hmethod : srv.method? call.name with
  | none => exact .inl ⟨by simp only [processStep, process, hmethod], rfl⟩
  | some m =>
    refine .inr ?_
    simp only [processStep, process, hmethod]
    split
    · exact ⟨_, rfl, ⟨.inr rfl, rfl⟩, rfl⟩
    · exact ⟨_, rfl, ⟨.inl rfl, rfl⟩, rfl⟩

theorem goOn_processStep (call : Message) : (processStep exceptionBody srv handler s (some call)).goOn =
      (process exceptionBody srv handler s (some call)).err.isNone := by
  simp only [processStep, process]
  split
  · rfl
  · split
    all_goals rfl

theorem answersAll_iff (calls : List Message) :
    AnswersAll (fun s call => processStep exceptionBody srv handler s (some call)) s calls ↔
      Answerable exceptionBody srv handler s calls := by
  induction calls generalizing s with
  | nil => exact Iff.rfl
  | cons call calls ih =>
    have hwritten : (processStep exceptionBody srv handler s (some call)).written ≠ [] ↔
        (srv.method? call.name).isSome = true := by
      rcases written_processStep exceptionBody srv handler s call with
        ⟨hnone, hmethod⟩ | ⟨answer, hanswer, -, hmethod⟩
      · simp [hnone, hmethod]
      · simp [hanswer, hmethod]
    rw [AnswersAll, Answerable, hwritten, goOn_processStep, ih]
    rfl

/-- The calls of a connection are answered one by one, in order and with their sequence ids, exactly if they name
methods of the service and the handler returns no error for any call but the last. -/
theorem calls_answered_iff (s : σ) (calls : List Message) : Forall₂ Answers calls
    (handleThriftConnection exceptionBody srv handler s calls) ↔ Answerable exceptionBody srv handler s calls := by
  -- the attempt to read behind the last call writes nothing
  have hloop : handleThriftConnection exceptionBody srv handler s calls =
      serveLoop (fun s call => processStep exceptionBody srv handler s (some call)) s calls := by
    rw [handleThriftConnection, serveLoop_append_silent fun _ => rfl, serveLoop_map]
  rw [hloop, ← answersAll_iff]
  refine forall₂_serveLoop_iff ?_ ?_ s calls
  · intro s call
    rcases written_processStep exceptionBody srv handler s call with
      ⟨hnone, -⟩ | ⟨answer, hanswer, hanswers, -⟩
    · exact .inl hnone
    · exact .inr ⟨answer, hanswer, hanswers⟩
  · intro s call hgoOn hnone
    rcases written_processStep exceptionBody srv handler s call with
      ⟨-, hmethod⟩ | ⟨answer, hanswer, -⟩
    · simp [processStep, process, hmethod] at hgoOn
    · rw [hanswer] at hnone
      cases hnone
end

def echoText : List Char :=
  "struct Ping \x7b 1: i64 n \x7d struct Pong \x7b 1: i64 n \x7d ".toList ++
    "service Echo \x7b Pong echo(1: Ping req) \x7d".toList

def pingStruct : ThriftStruct where
  node := ⟨"Ping", [⟨"n", 1, ⟨.int64, "", none, none⟩, false⟩], false⟩
  codable := by decide
  distinct := by decide
  fit := by decide

def pongStruct : ThriftStruct where
  node := ⟨"Pong", [⟨"n", 1, ⟨.int64, "", none, none⟩, false⟩], false⟩
  codable := by decide
  distinct := by decide
  fit := by decide

def echoMethod : ThriftMethod := ⟨"echo", pingStruct, pongStruct⟩

def echoService : ThriftService := ⟨[echoMethod], nodup_singleton _⟩

def echoAst : AST :=
  { structs := [pingStruct.node, pongStruct.node]
    services := [⟨"Echo", [⟨"echo", "Ping", "Pong", false, false, "", ""⟩]⟩] }

/-- An implementation that answers with the zero value, or with an error when its state is `false`, in
which it is only once. -/
def zeroHandler : Handler Bool
  | true, m, _ => (.ok (GoStruct.zero m.output.node), true)
  | false, _, _ => (.error Slice.empty, true)

def echoCall (seqId : BitVec 32) (n : BitVec 64) : Message :=
  ⟨"echo", .call, seqId, argumentStruct [(1, .i64 n)]⟩

theorem echo_parsed : Thrift.parseThrift echoText = .ok echoAst ∧
    thriftService echoAst ⟨"Echo", [⟨"echo", "Ping", "Pong", false, false, "", ""⟩]⟩ = some echoService := ⟨rfl, rfl⟩

theorem standard_call_misread_echo : (process (fun _ => []) echoService zeroHandler true (some (echoCall 5 7))).called =
    some ⟨echoMethod, GoStruct.zero pingStruct.node⟩ :=
  have hm : echoMethod ∈ echoService.methods := mem_cons_self
  have hbody : (echoCall 5 7).body = argumentStruct [(1, .i64 7)] := rfl
  (standard_call_misread (fun _ => []) echoService zeroHandler hm rfl hbody).1

theorem echo_misread : Thrift.parseThrift echoText = .ok echoAst ∧ thriftService echoAst ⟨"Echo",
    [⟨"echo", "Ping", "Pong", false, false, "", ""⟩]⟩ = some echoService ∧ (process
    (fun _ => []) echoService zeroHandler true (some (echoCall 5 7))).called = some ⟨echoMethod,
    GoStruct.zero pingStruct.node⟩ ∧ pingStruct.read [(1, .i64 7)] ≠ GoStruct.zero pingStruct.node ∧ (process
    (fun _ => []) echoService zeroHandler true (some (echoCall 5 7))).written = [⟨"echo", .reply, 5,
    [(1, .i64 0)]⟩] := by
  refine ⟨echo_parsed.1, echo_parsed.2, rfl, fun heq => ?_, rfl⟩
  have hvalue : (7 : BitVec 64) = 0 := congrFun heq ⟨0, Nat.one_pos⟩
  exact absurd hvalue (by decide)

theorem echo_unanswered : handleThriftConnection (fun _ => []) echoService zeroHandler true [⟨"fetch", .call, 1, []⟩,
    echoCall 2 7] = [] ∧ handleThriftConnection (fun _ => []) echoService zeroHandler false [echoCall 1 7,
    echoCall 2 7] = [⟨"echo", .exception, 1, []⟩] := ⟨rfl, rfl⟩

end HelixRpc.Codegen.Go
