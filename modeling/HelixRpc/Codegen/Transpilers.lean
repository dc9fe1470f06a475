import HelixRpc.Codegen.CompactHeaders
import HelixRpc.Foundation.VarintReader
import Mathlib.Data.Int.Bitwise

/-!
# The transpilers of the generated Rust, C++, Node and Python code

The Rust, C++ and Node generators write one loop: read a key and a value, push the field header and the value.
-/

namespace HelixRpc.Codegen

open Foundation Compiler Codegen.Go

inductive Failure where
  | raised (text : String)
  | overflow
  | undefined
  | mixedTypes
  | decode
  | unpack
  | attribute
  | range
  | syntaxError
  deriving DecidableEq, Repr

def varintEOF : Failure := .raised "unexpected EOF reading varint"

def complexFields : Failure :=
  .raised "Transpilation is unsupported for structs with complex fields."

def caseOfNumber (s : StructNode) (num : Int) : Option (Fin s.fields.length) :=
  s.fields.findFinIdx? fun f => decide (f.id.toInt = num)

structure PushState where
  idx : Nat
  out : Bytes
  lastField : Int

structure PushTemplate where
  readVarint : Bytes → Nat → Outcome Failure (Nat × Nat)
  fieldNum : Nat → Int
  enter : Int → Int → Outcome Failure Unit
  header : Nat → Int → Int → Outcome Failure Bytes
  int32 : Nat → Outcome Failure Bytes
  int64 : Nat → Outcome Failure Bytes
  length : Nat → Bytes
  payload : Bytes → Nat → Nat → Outcome Failure (Bytes × Nat)
  skip : Nat → Nat → Outcome Failure Nat
  skipsOthers : Bool

namespace PushTemplate

variable (t : PushTemplate)

def intField (value : Nat → Outcome Failure Bytes) (code : Nat) (num last : Int) (input : Bytes)
    (idx : Nat) : Outcome Failure (Bytes × Nat) := do
  let (v, idx) ← t.readVarint input idx
  let header ← t.header code num last
  let bytes ← value v
  pure (header ++ bytes, idx)

def stringField (num last : Int) (input : Bytes) (idx : Nat) : Outcome Failure (Bytes × Nat) := do
  let (len, idx) ← t.readVarint input idx
  let header ← t.header 8 num last
  let (payload, idx) ← t.payload input idx len
  pure (header ++ t.length len ++ payload, idx)

def skipField (wireType : Nat) (input : Bytes) (idx : Nat) : Outcome Failure Nat :=
  if wireType = 0 then do
    let (_, idx) ← t.readVarint input idx
    pure idx
  else if wireType = 2 then do
    let (len, idx) ← t.readVarint input idx
    t.skip idx len
  else pure idx

def fieldCase (k : Kind) (num : Int) (wireType : Nat) (input : Bytes) (st : PushState) : Outcome Failure PushState :=
  match k with
  | .int32 => do
      let (bytes, idx) ← t.intField t.int32 5 num st.lastField input st.idx
      pure ⟨idx, st.out ++ bytes, num⟩
  | .int64 => do
      let (bytes, idx) ← t.intField t.int64 6 num st.lastField input st.idx
      pure ⟨idx, st.out ++ bytes, num⟩
  | .string => do
      let (bytes, idx) ← t.stringField num st.lastField input st.idx
      pure ⟨idx, st.out ++ bytes, num⟩
  | _ =>
    if t.skipsOthers then do
      let idx ← t.skipField wireType input st.idx
      pure { st with idx := idx }
    else pure st

def step (s : StructNode) (input : Bytes) (st : PushState) : Outcome Failure (Flow PushState Bytes) :=
  if st.idx < input.length then do
    let (tag, idx) ← t.readVarint input st.idx
    let fieldNum := t.fieldNum (tag >>> 3)
    let wireType := tag % 8
    t.enter fieldNum st.lastField
    match caseOfNumber s fieldNum with
    | some c => do
        let st ← t.fieldCase (kindAt s c) fieldNum wireType input { st with idx := idx }
        pure (.next st)
    | none => do
        let idx ← t.skipField wireType input idx
        pure (.next { st with idx := idx })
  else pure (.ret (st.out ++ [0]))

def Transpiles (s : StructNode) (input : Bytes) (r : Outcome Failure Bytes) : Prop :=
  if s.hasFallback then r = .error complexFields else Returns (t.step s input) ⟨0, [], 0⟩ r

end PushTemplate

/-- The loop of the Thrift varint writers of the languages with 64-bit words: a word is zero after
nine shifts. -/
def thriftVarintLoop : Nat → BitVec 64 → Bytes
  | 0, v => [UInt8.ofNat v.toNat]
  | k + 1, v =>
    if v &&& ~~~0x7f = 0 then [UInt8.ofNat v.toNat]
    else UInt8.ofNat (v &&& 0x7f ||| 0x80).toNat :: thriftVarintLoop k (v >>> 7)

/-- The Thrift varint of a word: `write_thrift_varint` of Rust, `WriteThriftVarint` of C++ and
`writeThriftVarint` of Java. -/
def thriftVarint (v : BitVec 64) : Bytes := thriftVarintLoop 9 v

namespace Rust

/-- One accumulation of `read_varint`, with a `u32` shift: a shift by 64 or more panics, or is taken
modulo 64 without overflow checks. -/
def accumulate (checks : Bool) (v : BitVec 64) (payload shift : Nat) : Outcome Failure (BitVec 64) :=
  if checks = true ∧ 64 ≤ shift then .error .overflow
  else .ok (v ||| BitVec.ofNat 64 payload <<< (shift % 64))

def readVarint (checks : Bool) (buf : Bytes) (idx : Nat) : Outcome Failure (BitVec 64 × Nat) :=
  varintLoop varintEOF (accumulate checks) (buf.drop idx) idx 0 0

def zigzag32 (v : BitVec 64) : BitVec 64 :=
  let n : BitVec 32 := v.setWidth 32
  -- an `i32` is converted to a `u64` by sign extension
  ((n <<< 1) ^^^ n.sshiftRight 31).signExtend 64

def zigzag64 (v : BitVec 64) : BitVec 64 := (v <<< 1) ^^^ (v >>> 63)

def addIndex (checks : Bool) (idx len : Nat) : Outcome Failure Nat :=
  if idx + len < 2 ^ 64 then .ok (idx + len)
  else if checks then .error .overflow
  else .ok ((idx + len) % 2 ^ 64)

def template (checks : Bool) : PushTemplate where
  readVarint buf idx := do
    let (v, idx) ← readVarint checks buf idx
    pure (v.toNat, idx)
  fieldNum n := (BitVec.ofNat 16 n).toInt
  enter _ _ := pure ()
  header code num last :=
    if checks = true ∧ (num - last < -2 ^ 15 ∨ 2 ^ 15 ≤ num - last) then .error .overflow
    else .ok (fieldHeader code (BitVec.ofInt 16 num) (BitVec.ofInt 16 last))
  int32 v := .ok (thriftVarint (zigzag32 (BitVec.ofNat 64 v)))
  int64 v := .ok (thriftVarint (zigzag64 (BitVec.ofNat 64 v)))
  length len := thriftVarint (BitVec.ofNat 64 len)
  payload input idx len := do
    let stop ← addIndex checks idx len
    if idx ≤ stop ∧ stop ≤ input.length then pure ((input.take stop).drop idx, stop)
    else .fault .slice
  skip idx len := addIndex checks idx len
  skipsOthers := false

end Rust

namespace Cpp

def accumulate (v : BitVec 64) (payload shift : Nat) : Outcome Failure (BitVec 64) :=
  if shift < 64 then .ok (v ||| BitVec.ofNat 64 payload <<< shift) else .error .undefined

def readVarint (buf : Bytes) (idx : Nat) : Outcome Failure (BitVec 64 × Nat) :=
  varintLoop varintEOF accumulate (buf.drop idx) idx 0 0

def zigzag32 (val : BitVec 64) : BitVec 64 := (val <<< 1) ^^^ (val >>> 31)

def zigzag64 (val : BitVec 64) : BitVec 64 := (val <<< 1) ^^^ (val >>> 63)

def template : PushTemplate where
  readVarint buf idx := do
    let (v, idx) ← readVarint buf idx
    pure (v.toNat, idx)
  fieldNum n := (BitVec.ofNat 32 n).toInt
  -- `delta` is computed in front of the switch, and a signed overflow is undefined
  enter num last :=
    if -2 ^ 31 ≤ num - last ∧ num - last < 2 ^ 31 then .ok () else .error .undefined
  header code num last := .ok (fieldHeader code (BitVec.ofInt 32 num) (BitVec.ofInt 32 last))
  int32 v := .ok (thriftVarint (zigzag32 (BitVec.ofNat 64 v)))
  int64 v := .ok (thriftVarint (zigzag64 (BitVec.ofNat 64 v)))
  length len := thriftVarint (BitVec.ofNat 64 len)
  payload input idx len :=
    if idx + len ≤ input.length then .ok ((input.drop idx).take len, idx + len)
    else .error .undefined
  skip idx len := .ok ((idx + len) % 2 ^ 64)
  skipsOthers := false

end Cpp

namespace Node

def readVarint (buf : Bytes) (idx : Nat) : Outcome Failure (Nat × Nat) :=
  varintLoop varintEOF (fun v payload shift => .ok (v ||| payload <<< shift)) (buf.drop idx) idx 0 0

/-- The zigzag expression of an `int64` field. -/
def zigzag64 (rawVal : Nat) : Nat := (rawVal <<< 1) ^^^ (rawVal >>> 63)

/-- `transpileProtobufToThriftCompact`. -/
def template : PushTemplate where
  readVarint := readVarint
  fieldNum n := n
  enter _ _ := pure ()
  header code num last := .ok (fieldHeader code num last)
  -- the expression shifts a `bigint` by a number
  int32 _ := .error .mixedTypes
  int64 v := .ok (natVarint (zigzag64 v))
  length len := natVarint len
  payload input idx len := .ok ((input.drop idx).take len, idx + len)
  skip idx len := .ok (idx + len)
  skipsOthers := true

end Node

namespace Python

inductive PyVal where
  | none
  | int (n : Int)
  | text (s : String)
  | bytes (b : Bytes)
  | bool (b : Bool)
  | float (raw : Bytes)
  deriving DecidableEq

def readVarint (buf : Bytes) (idx : Nat) : Outcome Failure (Nat × Nat) :=
  varintLoop varintEOF (fun v payload shift => .ok (v ||| payload <<< shift)) (buf.drop idx) idx 0 0

def writeThriftVarint (v : Int) : Bytes := natVarint v.toNat

/-- The kinds for which the scanner has a body; a case of another kind is empty, and a module with
an empty case does not parse. -/
def Scanned : Kind → Bool
  | .int32 | .int64 | .string | .binary | .bool | .double => true
  | _ => false

def default : Kind → PyVal
  | .string | .binary => .none
  | .bool => .bool false
  | .double => .float (List.replicate 8 0)
  | _ => .int 0

def slice (raw : Bytes) (idx len : Nat) : Bytes := (raw.drop idx).take len

def scanCase (k : Kind) (raw : Bytes) (idx : Nat) : Outcome Failure (PyVal × Nat) :=
  match k with
  | .int32 | .int64 => do
      let (v, idx) ← readVarint raw idx
      pure (.int v, idx)
  | .string => do
      let (len, idx) ← readVarint raw idx
      match decodeUtf8 (slice raw idx len) with
      | some text => pure (.text text, idx + len)
      | none => .error .decode
  | .binary => do
      let (len, idx) ← readVarint raw idx
      pure (.bytes (slice raw idx len), idx + len)
  | .bool => do
      let (v, idx) ← readVarint raw idx
      pure (.bool (v ≠ 0), idx)
  | .double =>
    if (slice raw idx 8).length = 8 then .ok (.float (slice raw idx 8), idx + 8)
    else .error .unpack
  | _ => .error .syntaxError

def scanUnknown (wireType : Nat) (raw : Bytes) (idx : Nat) : Outcome Failure Nat :=
  if wireType = 0 then do
    let (_, idx) ← readVarint raw idx
    pure idx
  else if wireType = 2 then do
    let (len, idx) ← readVarint raw idx
    pure (idx + len)
  else if wireType = 5 then pure (idx + 4)
  else if wireType = 1 then pure (idx + 8)
  else pure idx

def positionOf (s : StructNode) (fieldNum : Nat) : Option (Fin s.fields.length) :=
  if h : 1 ≤ fieldNum ∧ fieldNum ≤ s.fields.length then some ⟨fieldNum - 1, by omega⟩ else none

def zigzag (shift : Nat) (f : Int) : Int :=
  if f < 0 then Int.xor (f <<< (1 : Nat)) (f >>> shift) else f <<< (1 : Nat)

def emitField (k : Kind) (num : Nat) (v : PyVal) (prevField : Nat) : Bytes × Nat :=
  match k, v with
  | .int32, .int n =>
    (fieldHeader 5 num prevField ++ writeThriftVarint (zigzag 31 n), num)
  | .int64, .int n =>
    (fieldHeader 6 num prevField ++ writeThriftVarint (zigzag 63 n), num)
  | .string, .text text =>
    (fieldHeader 8 num prevField ++ writeThriftVarint (utf8Bytes text).length ++ utf8Bytes text, num)
  | .binary, .bytes b =>
    (fieldHeader 8 num prevField ++ writeThriftVarint b.length ++ b, num)
  | .bool, .bool b => (fieldHeader (if b then 1 else 2) num prevField, num)
  | .double, .float raw => (fieldHeader 7 num prevField ++ raw, num)
  -- a string or binary that is `None` is not written
  | _, _ => ([], prevField)

def emitFields (s : StructNode) (values : Fin s.fields.length → PyVal) : List (Fin s.fields.length) → Nat → Bytes
  | [], _ => [0]
  | i :: is, prevField =>
    let (bytes, prevField) := emitField (kindAt s i) (i + 1) (values i) prevField
    bytes ++ emitFields s values is prevField

structure ScanState (s : StructNode) where
  idx : Nat
  values : Fin s.fields.length → PyVal

def step (s : StructNode) (raw : Bytes) (st : ScanState s) : Outcome Failure (Flow (ScanState s) Bytes) :=
  if st.idx < raw.length then do
    let (tag, idx) ← readVarint raw st.idx
    match positionOf s (tag >>> 3) with
    | some i => do
        let (v, idx) ← scanCase (kindAt s i) raw idx
        pure (.next ⟨idx, Function.update st.values i v⟩)
    | none => do
        let idx ← scanUnknown (tag % 8) raw idx
        pure (.next { st with idx := idx })
  else pure (.ret (emitFields s st.values (List.finRange s.fields.length) 0))

/-- `transpile_protobuf_to_thrift_compact` returns the outcome `r`. -/
def Transpiles (s : StructNode) (raw : Bytes) (r : Outcome Failure Bytes) : Prop :=
  if s.hasFallback then r = .error complexFields
  else if s.fields = [] ∨ ¬ s.fields.all (fun f => Scanned f.kind) then r = .error .syntaxError
  else Returns (step s raw) ⟨0, fun i => default (kindAt s i)⟩ r

end Python

end HelixRpc.Codegen
