import HelixRpc.Codegen.Go.TranspileOutput
import HelixRpc.Codegen.ZigzagValues

/-!
# `transpileProtobufToThriftCompact` of the generated Java code

Model of the transpiler that `GenerateJava` writes for a struct without complex fields, with the helpers of
`HelixHelpers`.
-/

namespace HelixRpc.Codegen.Java

open Foundation Compiler Codegen.Go List Outcome

inductive Exception where
  | bufferUnderflow
  | bufferOverflow
  | illegalArgument
  | negativeArraySize
  | unsupportedOperation (text : String)
  deriving DecidableEq, Repr

abbrev JavaOutcome := Outcome Exception

structure ByteBuffer where
  bytes : Bytes
  position : Nat
  position_le : position ≤ bytes.length
  limit_lt : bytes.length < 2 ^ 31

def ByteBuffer.remaining (b : ByteBuffer) : Bytes := b.bytes.drop b.position

def accumulate (v : BitVec 64) (payload shift : Nat) : JavaOutcome (BitVec 64) :=
  .ok (v ||| BitVec.ofNat 64 payload <<< (shift % 64))

def readVarint (buf : Bytes) (position : Nat) : JavaOutcome (BitVec 64 × Nat) :=
  varintLoop .bufferUnderflow accumulate (buf.drop position) position 0 0

def put (out : Bytes) (position : Nat) : Bytes → JavaOutcome (Bytes × Nat)
  | [] => pure (out, position)
  | b :: bs =>
    if position < out.length then put (out.set position b) (position + 1) bs
    else .error .bufferOverflow

structure TranspileState where
  inPos : Nat
  out : Bytes
  outPos : Nat
  lastField : BitVec 32

def transpileInt (code shift : Nat) (fieldNum : BitVec 32) (input : Bytes) (st : TranspileState) :
    JavaOutcome TranspileState := do
  let (val, inPos) ← readVarint input st.inPos
  let (out, outPos) ← put st.out st.outPos (fieldHeader code fieldNum st.lastField)
  let (out, outPos) ← put out outPos (thriftVarint ((val <<< 1) ^^^ val.sshiftRight shift))
  pure ⟨inPos, out, outPos, fieldNum⟩

def transpileString (fieldNum : BitVec 32) (input : Bytes) (st : TranspileState) : JavaOutcome TranspileState := do
  let (len, inPos) ← readVarint input st.inPos
  let (out, outPos) ← put st.out st.outPos (fieldHeader 8 fieldNum st.lastField)
  let (out, outPos) ← put out outPos (thriftVarint len)
  let size := (len.setWidth 32).toInt
  if size < 0 then .error .negativeArraySize
  else if input.length < inPos + size.toNat then .error .bufferUnderflow
  else do
    let (out, outPos) ← put out outPos ((input.drop inPos).take size.toNat)
    pure ⟨inPos + size.toNat, out, outPos, fieldNum⟩

def transpileCase (k : Kind) (fieldNum : BitVec 32) (input : Bytes) (st : TranspileState) :
    JavaOutcome TranspileState :=
  match k with
  | .int64 => transpileInt 6 63 fieldNum input st
  | .int32 => transpileInt 5 31 fieldNum input st
  | .string => transpileString fieldNum input st
  | _ => pure st

def skipField (wireType : Nat) (input : Bytes) (inPos : Nat) : JavaOutcome Nat :=
  if wireType = 0 then do
    let (_, inPos) ← readVarint input inPos
    pure inPos
  else if wireType = 2 then do
    let (len, inPos) ← readVarint input inPos
    -- a sum of two `int`s wraps around
    let position := (BitVec.ofNat 32 inPos + len.setWidth 32).toInt
    if 0 ≤ position ∧ position ≤ input.length then pure position.toNat
    else .error .illegalArgument
  else pure inPos

/-- One iteration of the loop `while (in.hasRemaining())`, or the STOP byte and `flip` behind the
loop: the returned buffer starts at 0 and ends at the last position. -/
def transpileStep (s : StructNode) (input : Bytes) (st : TranspileState) : JavaOutcome (Flow TranspileState Bytes) :=
  if st.inPos < input.length then do
    let (tag, inPos) ← readVarint input st.inPos
    let fieldNum := (tag >>> 3).setWidth 32
    let wireType := (tag &&& 7).toNat
    match caseOf s fieldNum with
    | some c => do
        let st ← transpileCase (kindAt s c) fieldNum input { st with inPos := inPos }
        pure (.next st)
    | none => do
        let inPos ← skipField wireType input inPos
        pure (.next { st with inPos := inPos })
  else do
    let (out, outPos) ← put st.out st.outPos [0]
    pure (.ret (out.take outPos))

/-- `transpileProtobufToThriftCompact(input, output)` returns the outcome `r`: an exception, or a
buffer with these bytes between its position and its limit. -/
def Transpiles (s : StructNode) (input output : ByteBuffer) (r : JavaOutcome Bytes) : Prop :=
  if s.hasFallback then
    r = .error (.unsupportedOperation "Transpilation is unsupported for structs with complex fields.")
  else Returns (transpileStep s input.bytes) ⟨input.position, output.bytes, output.position, 0⟩ r

theorem readVarint_varint (pre post : Bytes) (raw : Varint) : readVarint (pre ++ (raw.bytes ++ post)) pre.length =
      .ok (raw.value, pre.length + raw.bytes.length) := by
  rw [readVarint, drop_left]
  apply varintLoop_word
  intro acc p s hs
  rw [accumulate, Nat.mod_eq_of_lt hs]

theorem writes_put (bs : Bytes) : Writes (put · · bs) bs := by
  induction bs with
  | nil => exact Writes.nil
  | cons b bs ih =>
    intro out position hroom
    have hfits : position < out.length := by
      rw [length_cons] at hroom
      omega
    show put out position (b :: bs) = _
    rw [put, if_pos hfits, set_eq_overwrite b hfits]
    exact ((writes_store b).two ih hroom).2

theorem fieldHeader_short {code : Nat} (hcode : code < 16) {num last : Nat} (hnum : num ≤ 15) (hlast : last < num) :
    fieldHeader code (BitVec.ofNat 32 num) (BitVec.ofNat 32 last) = [UInt8.ofNat (16 * (num - last) + code)] := by
  have hdelta : (BitVec.ofNat 32 num - BitVec.ofNat 32 last).toNat = num - last := by
    rw [BitVec.toNat_sub, BitVec.toNat_ofNat, BitVec.toNat_ofNat]
    omega
  have hint : (BitVec.ofNat 32 num - BitVec.ofNat 32 last).toInt = (num - last : Nat) := by
    rw [BitVec.toInt_eq_toNat_of_lt (by omega), hdelta]
  rw [fieldHeader, compactHeader, if_pos (by omega), hint, Int.toNat_natCast, shift_or_code _ hcode]

theorem sshiftRight_31 (n : BitVec 32) : (n.signExtend 64).sshiftRight 31 = (n.signExtend 64).sshiftRight 63 := by
  have hlow := BitVec.le_two_mul_toInt (x := n)
  have hhigh := BitVec.two_mul_toInt_lt (x := n)
  apply BitVec.eq_of_toInt_eq
  rw [BitVec.toInt_sshiftRight, BitVec.toInt_sshiftRight, BitVec.toInt_signExtend_of_le (by decide),
    Int.shiftRight_eq_div_pow, Int.shiftRight_eq_div_pow]
  omega

section
variable {pre post out header : Bytes} {o : Nat} {fieldNum last : BitVec 32}

theorem transpileInt_varint {code shift : Nat} (hheader : fieldHeader code fieldNum last = header)
    (raw : Varint) (hsign : raw.value.sshiftRight shift = raw.value.sshiftRight 63)
    (hroom : o + (header ++ encodeVarint (zigzagWord raw.value)).length ≤ out.length) :
    transpileInt code shift fieldNum (pre ++ (raw.bytes ++ post)) ⟨pre.length, out, o, last⟩ =
      .ok ⟨pre.length + raw.bytes.length, overwrite out o (header ++ encodeVarint (zigzagWord raw.value)),
        o + (header ++ encodeVarint (zigzagWord raw.value)).length, fieldNum⟩ := by
  obtain ⟨hput, hput'⟩ := (writes_put header).two (writes_put _) hroom
  have hvalue : thriftVarint ((raw.value <<< 1) ^^^ raw.value.sshiftRight shift) =
      encodeVarint (zigzagWord raw.value) := by
    rw [hsign, thriftVarint, thriftVarintLoop_eq]
    rfl
  unfold transpileInt
  simp only [readVarint_varint, ok_bind, hheader, hput, hvalue, hput']
  rfl

theorem transpileString_delimited (hheader : fieldHeader 8 fieldNum last = header) {len : Varint}
    {payload : Slice} (size : len.value.toNat = payload.bytes.length)
    (hsize : payload.bytes.length < 2 ^ 31)
    (hroom : o + (header ++ (encodeVarint len.value ++ payload.bytes)).length ≤ out.length) :
    transpileString fieldNum (pre ++ (len.bytes ++ payload.bytes ++ post))
        ⟨pre.length, out, o, last⟩ = .ok ⟨pre.length + (len.bytes ++ payload.bytes).length,
        overwrite out o (header ++ (encodeVarint len.value ++ payload.bytes)),
        o + (header ++ (encodeVarint len.value ++ payload.bytes)).length, fieldNum⟩ := by
  rw [← append_assoc header] at hroom ⊢
  obtain ⟨-, hput''⟩ := ((writes_put header).append (writes_put (encodeVarint len.value))).two
    (writes_put payload.bytes) hroom
  rw [length_append] at hroom
  obtain ⟨hput, hput'⟩ := (writes_put header).two (writes_put (encodeVarint len.value))
    (show o + (header ++ encodeVarint len.value).length ≤ out.length by omega)
  have hvalue : thriftVarint len.value = encodeVarint len.value := thriftVarintLoop_eq 9 len.value
  have hint : (len.value.setWidth 32).toInt = payload.bytes.length := by
    have hnat : (len.value.setWidth 32).toNat = payload.bytes.length := by
      rw [BitVec.toNat_setWidth, size, Nat.mod_eq_of_lt (by omega)]
    rw [BitVec.toInt_eq_toNat_of_lt (by omega), hnat]
  have hread := readVarint_varint pre (payload.bytes ++ post) len
  rw [← append_assoc len.bytes] at hread
  have hsrc : ((pre ++ (len.bytes ++ payload.bytes ++ post)).drop
      (pre.length + len.bytes.length)).take payload.bytes.length = payload.bytes := by
    rw [← length_append, ← append_assoc, ← append_assoc, append_assoc, drop_left, take_left]
  unfold transpileString
  simp only [hread, ok_bind, hheader, hput, hvalue, hput', hint]
  rw [if_neg (by omega), if_neg (by simp only [length_append]; omega), Int.toNat_natCast, hsrc, hput'']
  simp only [length_append, Nat.add_assoc]
  rfl

theorem transpileCase_body {k : Kind} {body : Body} (hk : EncodesKind k body)
    (hheader : fieldHeader (compactType k).code fieldNum last = header)
    (hlimit : (pre ++ (body.bytes ++ post)).length < 2 ^ 31)
    (hroom : o + (header ++ valueBytes body).length ≤ out.length) :
    transpileCase k fieldNum (pre ++ (body.bytes ++ post)) ⟨pre.length, out, o, last⟩ =
      .ok ⟨pre.length + body.bytes.length, overwrite out o (header ++ valueBytes body),
        o + (header ++ valueBytes body).length, fieldNum⟩ := by
  cases hk with
  | int32 n raw hraw =>
    refine transpileInt_varint hheader raw ?_ hroom
    rw [hraw]
    exact sshiftRight_31 n
  | int64 raw => exact transpileInt_varint hheader raw rfl hroom
  | string len payload size =>
    refine transpileString_delimited hheader size ?_ hroom
    simp only [Body.bytes, length_append] at hlimit
    omega
end

theorem skipField_body (pre post : Bytes) {body : Body} (hwt : body.wireType = 0 ∨ body.wireType = 2)
    (hlimit : (pre ++ (body.bytes ++ post)).length < 2 ^ 31) :
    skipField body.wireType (pre ++ (body.bytes ++ post)) pre.length = .ok (pre.length + body.bytes.length) := by
  cases body with
  | varint raw =>
    show skipField 0 (pre ++ (raw.bytes ++ post)) pre.length = _
    rw [skipField, if_pos rfl]
    simp only [readVarint_varint, ok_bind]
    rfl
  | fixed64 raw size =>
    rcases hwt with h | h
    · exact absurd h (show (1 : Nat) ≠ 0 by decide)
    · exact absurd h (show (1 : Nat) ≠ 2 by decide)
  | delimited len payload size =>
    simp only [Body.bytes, length_append] at hlimit
    have hread := readVarint_varint pre (payload.bytes ++ post) len
    rw [← append_assoc len.bytes] at hread
    have hint : (BitVec.ofNat 32 (pre.length + len.bytes.length) + len.value.setWidth 32).toInt =
        (pre.length + (len.bytes.length + payload.bytes.length) : Nat) := by
      have hnat : (BitVec.ofNat 32 (pre.length + len.bytes.length) + len.value.setWidth 32).toNat =
            pre.length + (len.bytes.length + payload.bytes.length) := by
        rw [BitVec.toNat_add, BitVec.toNat_ofNat, BitVec.toNat_setWidth, size]
        omega
      rw [BitVec.toInt_eq_toNat_of_lt (by omega), hnat]
    show skipField 2 (pre ++ (len.bytes ++ payload.bytes ++ post)) pre.length = _
    rw [skipField, if_neg (by decide), if_pos rfl]
    simp only [hread, ok_bind, hint]
    rw [if_pos (by simp only [length_append]; omega), Int.toNat_natCast]
    simp only [Body.bytes, length_append]
    rfl

/-- The records encode a value of the struct, with unknown fields in between; the known ids ascend. -/
structure EncodesMessage (s : StructNode) (rs : List Record) : Prop where
  known : ∀ r ∈ rs, ∀ c, fieldOf s r = some c → EncodesKind (kindAt s c) r.body
  unknown : ∀ r ∈ rs, fieldOf s r = none → r.body.wireType = 0 ∨ r.body.wireType = 2
  ascending : (rs.filter (Known s)).Pairwise fun r q => r.num < q.num

def nextLast (s : StructNode) (last : BitVec 16) (r : Record) : BitVec 16 :=
  if Known s r then BitVec.ofNat 16 r.num else last

def emittedAll (s : StructNode) : BitVec 16 → List Record → Bytes := emittedWith s (nextLast s)

def Below (s : StructNode) (last : BitVec 16) (rs : List Record) : Prop :=
  ∀ r ∈ rs, Known s r = true → last.toNat < r.num

variable {s : StructNode} {rs : List Record}

theorem EncodesMessage.tail {r : Record} (h : EncodesMessage s (r :: rs)) : EncodesMessage s rs := by
  refine ⟨fun q hq => h.known q (mem_cons_of_mem r hq), fun q hq => h.unknown q (mem_cons_of_mem r hq), ?_⟩
  have hasc := h.ascending
  rw [filter_cons] at hasc
  split at hasc
  · exact (pairwise_cons.1 hasc).2
  · exact hasc

theorem EncodesMessage.below_next {r : Record} (h : EncodesMessage s (r :: rs)) {last : BitVec 16}
    (hlast : Below s last (r :: rs)) : Below s (nextLast s last r) rs := by
  intro q hq hknown
  unfold nextLast
  split
  · rename_i hr
    have hasc := h.ascending
    rw [filter_cons_of_pos hr] at hasc
    rw [BitVec.toNat_ofNat]
    exact Nat.lt_of_le_of_lt (Nat.mod_le _ _) ((pairwise_cons.1 hasc).1 q (mem_filter.2 ⟨hq, hknown⟩))
  · exact hlast q (mem_cons_of_mem r hq) hknown

section
variable {s : StructNode} {pre post out : Bytes} {o : Nat} {last : BitVec 16}

theorem transpileStep_known (hids : IdsUpTo 15 s) {r : Record} {c : Fin s.fields.length}
    (hc : fieldOf s r = some c) (hk : EncodesKind (kindAt s c) r.body) (hlast : last.toNat < r.num)
    (hlimit : (pre ++ (r.bytes ++ post)).length < 2 ^ 31)
    (hroom : o + (emitted s last r).length ≤ out.length) :
    Steps (transpileStep s (pre ++ (r.bytes ++ post))) ⟨pre.length, out, o, last.setWidth 32⟩
      ⟨(pre ++ r.bytes).length, overwrite out o (emitted s last r), o + (emitted s last r).length,
        (BitVec.ofNat 16 r.num).setWidth 32⟩ := by
  have hnum := num_of_fieldOf hc
  have hid := idsUpTo_at hids c
  have hcode := (compactType (kindAt s c)).code_bounds
  have hpos := r.key.length_pos
  have hlastWord : last.setWidth 32 = BitVec.ofNat 32 last.toNat := by
    apply BitVec.eq_of_toNat_eq
    rw [BitVec.toNat_setWidth, BitVec.toNat_ofNat]
  have hnumWord : (BitVec.ofNat 16 r.num).setWidth 32 = BitVec.ofNat 32 r.num := by
    apply BitVec.eq_of_toNat_eq
    rw [BitVec.toNat_setWidth, BitVec.toNat_ofNat, BitVec.toNat_ofNat]
    omega
  have hheader := fieldHeader_short (show (compactType (kindAt s c)).code < 16 by omega)
    (show r.num ≤ 15 by omega) hlast
  have hemit : emitted s last r = [UInt8.ofNat (16 * (r.num - last.toNat) + (compactType (kindAt s c)).code)] ++
        valueBytes r.body := by simp [emitted, hc]
  have hinput : pre ++ (r.bytes ++ post) = (pre ++ r.key.bytes) ++ (r.body.bytes ++ post) := by
    simp [Record.bytes]
  rw [hemit] at hroom ⊢
  rw [hinput] at hlimit
  have hcase := transpileCase_body hk hheader hlimit hroom
  have hread := readVarint_varint pre (r.body.bytes ++ post) r.key
  rw [← append_assoc, ← length_append] at hread
  rw [Steps, hinput, transpileStep, if_pos (by simp only [length_append]; omega)]
  simp only [hread, ok_bind, r.key_num]
  have hsel : caseOf s (BitVec.ofNat 32 r.num) = some c := hc
  simp only [hsel, hlastWord, hcase, hnumWord]
  simp only [Record.bytes, length_append, Nat.add_assoc]
  rfl

theorem transpileStep_unknown {r : Record} (hc : fieldOf s r = none) (hwt : r.body.wireType = 0 ∨ r.body.wireType = 2)
    (hlimit : (pre ++ (r.bytes ++ post)).length < 2 ^ 31) (lastField : BitVec 32) :
    Steps (transpileStep s (pre ++ (r.bytes ++ post))) ⟨pre.length, out, o, lastField⟩
      ⟨(pre ++ r.bytes).length, out, o, lastField⟩ := by
  have hpos := r.key.length_pos
  have hinput : pre ++ (r.bytes ++ post) = (pre ++ r.key.bytes) ++ (r.body.bytes ++ post) := by
    simp [Record.bytes]
  rw [hinput] at hlimit
  have hskip := skipField_body (pre ++ r.key.bytes) post hwt hlimit
  have hread := readVarint_varint pre (r.body.bytes ++ post) r.key
  rw [← append_assoc, ← length_append] at hread
  have hsel : caseOf s (BitVec.ofNat 32 r.num) = none := hc
  rw [Steps, hinput, transpileStep, if_pos (by simp only [length_append]; omega)]
  simp only [hread, ok_bind, r.key_num, hsel, r.key_wireType, hskip]
  simp only [Record.bytes, length_append, Nat.add_assoc]
  rfl

theorem transpileStep_ready (hids : IdsUpTo 15 s) {r : Record} {rs : List Record} (hrs : EncodesMessage s (r :: rs))
    (hlast : Below s last (r :: rs)) (hlimit : (pre ++ (r.bytes ++ post)).length < 2 ^ 31)
    (hroom : o + (emitted s last r).length ≤ out.length) :
    Steps (transpileStep s (pre ++ (r.bytes ++ post))) ⟨pre.length, out, o, last.setWidth 32⟩
      ⟨(pre ++ r.bytes).length, overwrite out o (emitted s last r), o + (emitted s last r).length,
        (nextLast s last r).setWidth 32⟩ := by
  cases hc : fieldOf s r with
  | some c =>
    have hknown : Known s r = true := by simp [Known, hc]
    rw [nextLast, if_pos hknown]
    exact transpileStep_known hids hc (hrs.known r (by simp) c hc) (hlast r (by simp) hknown) hlimit hroom
  | none =>
    have hunknown : ¬ Known s r = true := by simp [Known, hc]
    have hemit : emitted s last r = [] := by simp only [emitted, hc]
    rw [nextLast, if_neg hunknown, hemit, overwrite_nil, length_nil, Nat.add_zero]
    exact transpileStep_unknown hc (hrs.unknown r (by simp) hc) hlimit (last.setWidth 32)
end

theorem transpile_records (hfb : s.hasFallback = false) (hids : IdsUpTo 15 s) (hrs : EncodesMessage s rs)
    {input output : ByteBuffer} (hinput : input.remaining = encodeRecords rs) (hstart : output.position = 0)
    (hroom : (emittedAll s 0 rs).length < output.bytes.length) :
    Transpiles s input output (.ok (emittedAll s 0 rs ++ [0])) := by
  have hsplit : input.bytes = input.bytes.take input.position ++ (encodeRecords rs ++ []) := by
    rw [append_nil, ← hinput, ByteBuffer.remaining, take_append_drop]
  have hpos : (input.bytes.take input.position).length = input.position := by
    rw [length_take, Nat.min_eq_left input.position_le]
  have hlimit := input.limit_lt
  obtain ⟨last, hreach⟩ := reaches_emitted (transpileStep s input.bytes) (fun i out o last => ⟨i, out, o,
    last.setWidth 32⟩) (nextLast s) (fun last rs => EncodesMessage s rs ∧ Below s last rs)
    (fun pre r rs post out o last hready hbytes hfits => ⟨⟨hready.1.tail, hready.1.below_next hready.2⟩, by
      rw [hbytes] at hlimit ⊢
      exact transpileStep_ready hids hready.1 hready.2 hlimit hfits⟩)
    (input.bytes.take input.position) [] output.bytes 0 0 ⟨hrs, fun r _ _ => r.num_pos⟩ hsplit
    (by rw [Nat.zero_add]; exact hroom.le)
  rw [hpos] at hreach
  obtain ⟨-, hstop⟩ := (writes_put (emittedAll s 0 rs)).two (writes_put [0])
    (show 0 + _ ≤ output.bytes.length by rw [length_append, length_singleton]; omega)
  have hend : transpileStep s input.bytes ⟨(input.bytes.take input.position ++ encodeRecords rs).length,
    overwrite output.bytes 0 (emittedAll s 0 rs), 0 + (emittedAll s 0 rs).length, last.setWidth 32⟩ = .ok (.ret
    (emittedAll s 0 rs ++ [0])) := by
    have hall : (input.bytes.take input.position ++ encodeRecords rs).length = input.bytes.length := by
      nth_rewrite 2 [hsplit]
      rw [append_nil]
    rw [hall, transpileStep, if_neg (Nat.lt_irrefl _)]
    simp only
    rw [hstop, ok_bind]
    dsimp only
    rw [Nat.zero_add, take_overwrite]
    rfl
  rw [Transpiles, hfb, hstart]
  exact (returns_reaches_iff hreach _).2 (returns_of_ret hend)

/-- A field of the output shows a record: its number, and the value that the record has for its
field. -/
def ShowsRecord (s : StructNode) (r : Record) (f : CompactField) : Prop := f.1 = BitVec.ofNat 16 r.num ∧ ShowsBody s r f

theorem readFields_emittedAll (hids : IdsUpTo 15 s) (hrs : EncodesMessage s rs) (last : BitVec 16)
    (hlast : Below s last rs) (fuel : Nat) (hfuel : (rs.filter (Known s)).length < fuel) :
    ∃ fields, readFields fuel last (emittedAll s last rs ++ [0]) = some (fields, []) ∧
      Forall₂ (ShowsRecord s) (rs.filter (Known s)) fields := by
  induction rs generalizing last fuel with
  | nil =>
    obtain ⟨fuel, rfl⟩ := Nat.exists_eq_add_one_of_ne_zero (Nat.ne_of_gt hfuel)
    exact ⟨[], readFields_stop fuel last [], Forall₂.nil⟩
  | cons r rs ih =>
    have hbelow := hrs.below_next hlast
    cases hc : fieldOf s r with
    | none =>
      have hunknown : ¬ Known s r = true := by simp [Known, hc]
      rw [filter_cons_of_neg hunknown] at hfuel ⊢
      rw [nextLast, if_neg hunknown] at hbelow
      have hsame : emittedAll s last (r :: rs) = emittedAll s last rs := by
        simp [emittedAll, emittedWith, emitted, hc, nextLast, if_neg hunknown]
      rw [hsame]
      exact ih hrs.tail last hbelow fuel hfuel
    | some c =>
      have hknown : Known s r = true := by simp [Known, hc]
      rw [filter_cons_of_pos hknown, length_cons] at hfuel
      rw [filter_cons_of_pos hknown]
      obtain ⟨fuel, rfl⟩ := Nat.exists_eq_add_one_of_ne_zero (Nat.ne_of_gt (Nat.zero_lt_of_lt hfuel))
      rw [nextLast, if_pos hknown] at hbelow
      obtain ⟨fields, hfields, hshow⟩ := ih hrs.tail (BitVec.ofNat 16 r.num) hbelow fuel (by omega)
      obtain ⟨v, hv, hread⟩ := readFields_emitted hids hc (hrs.known r (by simp) c hc) (hlast r (by simp) hknown)
        (add_difference (hlast r (by simp) hknown)) hfields
      have hbytes : emittedAll s last (r :: rs) = emitted s last r ++ emittedAll s (BitVec.ofNat 16 r.num) rs := by
        rw [emittedAll, emittedWith, nextLast, if_pos hknown]
      rw [hbytes, append_assoc]
      exact ⟨_, hread, Forall₂.cons ⟨rfl, hv⟩ hshow⟩

/-- On a message whose known fields come in the order of their ids, with unknown fields anywhere, the Java transpiler
returns a buffer that a Compact reader takes apart into exactly the known fields. -/
theorem transpile_read {s : StructNode} (hfb : s.hasFallback = false) (hids : IdsUpTo 15 s) {rs : List Record}
    (hrs : EncodesMessage s rs) {input output : ByteBuffer} (hinput : input.remaining = encodeRecords rs)
    (hstart : output.position = 0) (hroom : (emittedAll s 0 rs).length < output.bytes.length) : ∃ result fields,
    Transpiles s input output (.ok result) ∧ readStruct result = some (fields, []) ∧ Forall₂ (ShowsRecord s)
    (rs.filter (Known s)) fields := by
  obtain ⟨fields, hread, hshow⟩ := readFields_emittedAll hids hrs 0 (fun r _ _ => r.num_pos)
    (emittedAll s 0 rs ++ [0]).length (length_known_lt _ rs 0)
  exact ⟨_, fields, transpile_records hfb hids hrs hinput hstart hroom, hread, hshow⟩

def sensor : StructNode where
  name := "Sensor"
  fields := [⟨"id", 1, ⟨.int64, "", none, none⟩, false⟩, ⟨"label", 3, ⟨.string, "", none, none⟩, false⟩,
    ⟨"value", 4, ⟨.int32, "", none, none⟩, false⟩]

def sensorRecords : List Record :=
  [.ofIndex 0 (Record.wordBody (-5)), .ofIndex 6 (Record.sliceBody ⟨[1, 2], by decide⟩),
    .ofIndex 2 (Record.sliceBody ⟨[0x74], by decide⟩), .ofIndex 15 (Record.wordBody 300),
    .ofIndex 3 (Record.wordBody ((-7 : BitVec 32).signExtend 64))]

theorem encodesMessage_sensor : EncodesMessage sensor sensorRecords := by
  refine ⟨?_, by decide, by decide⟩
  intro r hr c hc
  simp only [sensorRecords, mem_cons, not_mem_nil, or_false] at hr
  rcases hr with rfl | rfl | rfl | rfl | rfl
  · obtain rfl := Option.some.inj ((rfl : fieldOf sensor _ = some ⟨0, by decide⟩).symm.trans hc)
    exact .int64 _
  · cases hc
  · obtain rfl := Option.some.inj ((rfl : fieldOf sensor _ = some ⟨1, by decide⟩).symm.trans hc)
    exact .string _ _ _
  · cases hc
  · obtain rfl := Option.some.inj ((rfl : fieldOf sensor _ = some ⟨2, by decide⟩).symm.trans hc)
    exact .int32 (-7) _ (Varint.value_encode _)

def sensorInput : ByteBuffer := ⟨encodeRecords sensorRecords, 0, Nat.zero_le _, by decide⟩

def sensorOutput : ByteBuffer := ⟨replicate 16 0, 0, Nat.zero_le _, by decide⟩

theorem transpile_read_sensor : EncodesMessage sensor sensorRecords ∧
      ∃ result fields, Transpiles sensor sensorInput sensorOutput (.ok result) ∧ readStruct result = some (fields, []) ∧
        Forall₂ (ShowsRecord sensor) (sensorRecords.filter (Known sensor)) fields :=
  ⟨encodesMessage_sensor, transpile_read rfl (by decide) encodesMessage_sensor rfl rfl (by decide)⟩

end HelixRpc.Codegen.Java
