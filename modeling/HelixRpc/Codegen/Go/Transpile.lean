import HelixRpc.Codegen.Go.Messages
import HelixRpc.Foundation.ThriftCompact

/-!
# `TranspileProtobufToThriftCompact` of the generated Go code

Model of the transpiler that `GenerateGo` writes for a struct without complex fields.
-/

namespace HelixRpc.Codegen.Go

open Foundation Compiler List Outcome

def writeThriftVarintLoop : Nat → Bytes → Nat → BitVec 64 → GoOutcome (Bytes × Nat)
  | 0, buf, offset, v => do
      let buf ← store buf offset (UInt8.ofNat v.toNat)
      pure (buf, offset + 1)
  | k + 1, buf, offset, v =>
    if v &&& ~~~0x7f = 0 then do
      let buf ← store buf offset (UInt8.ofNat v.toNat)
      pure (buf, offset + 1)
    else do
      let buf ← store buf offset (UInt8.ofNat (v &&& 0x7f ||| 0x80).toNat)
      writeThriftVarintLoop k buf (offset + 1) (v >>> 7)

def writeThriftVarint (buf : Bytes) (offset : Nat) (v : BitVec 64) : GoOutcome (Bytes × Nat) :=
  writeThriftVarintLoop 9 buf offset v

def byteLiteral (n : Int) : GoOutcome UInt8 :=
  if 0 ≤ n ∧ n ≤ 255 then .ok (UInt8.ofNat n.toNat) else .fault .constant

def fieldHeader (code : Nat) (id : BitVec 32) (lastFieldID : BitVec 16) : GoOutcome Bytes := do
  let high ← byteLiteral (id.sshiftRight 8).toInt
  let low ← byteLiteral id.toInt
  let delta := id.setWidth 16 - lastFieldID
  if 0 < delta.toInt ∧ delta.toInt ≤ 15 then
    pure [UInt8.ofNat (delta <<< 4 ||| BitVec.ofNat 16 code).toNat]
  else pure [UInt8.ofNat code, high, low]

def storeAll (out : Bytes) (outIdx : Nat) : Bytes → GoOutcome (Bytes × Nat)
  | [] => pure (out, outIdx)
  | b :: bs => do
      let out ← store out outIdx b
      storeAll out (outIdx + 1) bs

def reslice (inp : Slice) (spare : Bytes) (lo hi : Int) : GoOutcome Bytes :=
  if 0 ≤ lo ∧ lo ≤ hi ∧ hi ≤ inp.len + spare.length then
    .ok (((inp.bytes ++ spare).take hi.toNat).drop lo.toNat)
  else .fault .slice

structure TranspileState where
  iNdEx : Int
  out : Bytes
  outIdx : Nat
  lastFieldID : BitVec 16

def transpileInt (code : Nat) (id : BitVec 32) (inp : Slice) (st : TranspileState) : GoOutcome TranspileState := do
  let (rawVal, iNdEx) ← readVarint inp st.iNdEx
  let header ← fieldHeader code id st.lastFieldID
  let (out, outIdx) ← storeAll st.out st.outIdx header
  -- an `int32` is also written as the zigzag of the whole 64-bit word
  let zz := (rawVal <<< 1) ^^^ rawVal.sshiftRight 63
  let (out, outIdx) ← writeThriftVarint out outIdx zz
  pure ⟨iNdEx, out, outIdx, id.setWidth 16⟩

def transpileString (id : BitVec 32) (inp : Slice) (spare : Bytes) (st : TranspileState) :
    GoOutcome TranspileState := do
  let (stringLen, iNdEx) ← readVarint inp st.iNdEx
  let header ← fieldHeader 8 id st.lastFieldID
  let (out, outIdx) ← storeAll st.out st.outIdx header
  let (out, outIdx) ← writeThriftVarint out outIdx stringLen
  if out.length < outIdx then .fault .slice
  else do
    let postIndex := wrapInt (iNdEx + stringLen.toInt)
    -- a slice that exists has the length `int(stringLen)`, by which both offsets advance
    let src ← reslice inp spare iNdEx postIndex
    -- `copy` stops at the end of `out`; `lastFieldID` is not assigned in this case
    pure ⟨postIndex, overwrite out outIdx (src.take (out.length - outIdx)), outIdx + src.length, st.lastFieldID⟩

def transpileCase (k : Kind) (id : BitVec 32) (inp : Slice) (spare : Bytes) (st : TranspileState) :
    GoOutcome TranspileState :=
  match k with
  | .int32 => transpileInt 5 id inp st
  | .int64 => transpileInt 6 id inp st
  | .string => transpileString id inp spare st
  | _ => pure st

def transpileDefault (inp : Slice) (wireType : Nat) (st : TranspileState) : GoOutcome TranspileState := do
  let (v, iNdEx) ← readVarint inp st.iNdEx
  if wireType = 2 then pure { st with iNdEx := wrapInt (iNdEx + v.toInt) }
  else pure { st with iNdEx := iNdEx }

def transpileSwitch (s : StructNode) (inp : Slice) (spare : Bytes)
    (selected : Option (Fin s.fields.length)) (wireType : Nat) (st : TranspileState) :
    GoOutcome TranspileState :=
  match selected with
  | some c => transpileCase (kindAt s c) (s.fields.get c).id inp spare st
  | none => transpileDefault inp wireType st

/-- One iteration of the loop `for iNdEx < l`, or the STOP byte behind the loop. -/
def transpileStep (s : StructNode) (inp : Slice) (spare : Bytes) (st : TranspileState) :
    GoOutcome (Flow TranspileState (Bytes × Nat)) :=
  if st.iNdEx < inp.len then do
    let (i, iNdEx) ← readVarint inp st.iNdEx
    let fieldNum := (i >>> 3).setWidth 16
    let wireType := (i &&& 7).toNat
    let st ← transpileSwitch s inp spare (caseOf s (fieldNum.signExtend 32)) wireType
      { st with iNdEx := iNdEx }
    pure (.next st)
  else do
    let out ← store st.out st.outIdx 0
    pure (.ret (out, st.outIdx + 1))

/-- `TranspileProtobufToThriftCompact(in, out)` returns the outcome `r`: the buffer `out` and the number of bytes
written. -/
def Transpiles (s : StructNode) (inp : Slice) (spare out : Bytes) (r : GoOutcome (Bytes × Nat)) : Prop :=
  if s.hasFallback then r = .error .transpileUnsupported
  else Returns (transpileStep s inp spare) ⟨0, out, 0, 0⟩ r

theorem and_not_7f_eq_zero_iff (v : BitVec 64) : v &&& ~~~0x7f = 0 ↔ v.toNat < 128 := by
  have hlow := word_low_toNat v
  constructor
  · intro h
    have hv : v &&& 0x7f = v := by
      have hsplit : (v &&& 0x7f) ||| (v &&& ~~~0x7f) = v := by
        have hones : (0x7f : BitVec 64) ||| ~~~0x7f = BitVec.allOnes 64 := by decide
        rw [← BitVec.and_or_distrib_left, hones, BitVec.and_allOnes]
      rw [h] at hsplit
      simpa using hsplit
    rw [hv] at hlow
    omega
  · intro h
    have hv : v &&& 0x7f = v := BitVec.eq_of_toNat_eq (by rw [hlow]; omega)
    rw [← hv, BitVec.and_assoc]
    simp

theorem writeThriftVarintLoop_eq (k : Nat) (buf : Bytes) (offset : Nat) (v : BitVec 64) :
    writeThriftVarintLoop k buf offset v = writeVarintLoop k buf offset v := by
  induction k generalizing buf offset v with
  | zero => rfl
  | succ k ih =>
    unfold writeThriftVarintLoop writeVarintLoop
    by_cases h : v.toNat < 128
    · rw [if_pos ((and_not_7f_eq_zero_iff v).2 h), if_neg (by omega)]
    · rw [if_neg (fun hz => h ((and_not_7f_eq_zero_iff v).1 hz)), if_pos (by omega)]
      simp only [ih]

theorem writes_writeThriftVarint (v : BitVec 64) : Writes (writeThriftVarint · · v) (encodeVarint v) :=
  fun buf offset hroom => (writeThriftVarintLoop_eq 9 buf offset v).trans (writes_writeVarint v buf offset hroom)

theorem writes_storeAll (bs : Bytes) : Writes (storeAll · · bs) bs := by
  induction bs with
  | nil => exact Writes.nil
  | cons b bs ih => exact ih.cons b

theorem toInt_high (id : BitVec 32) (hid : id.toNat < 2 ^ 31) : (id.sshiftRight 8).toInt = (id.toNat / 256 : Nat) := by
  have hmsb : id.msb = false := BitVec.msb_eq_false_iff_two_mul_lt.2 (by omega)
  have hnat : (id >>> 8).toNat = id.toNat / 256 := by rw [BitVec.toNat_ushiftRight, Nat.shiftRight_eq_div_pow]
  rw [BitVec.sshiftRight_eq_of_msb_false hmsb, BitVec.toInt_eq_toNat_of_lt (by omega), hnat]

theorem toNat_short {delta : BitVec 16} {code : Nat} (hdelta : delta.toNat ≤ 15) (hcode : code < 16) :
    (delta <<< 4 ||| BitVec.ofNat 16 code).toNat = 16 * delta.toNat + code := by
  have hshift : delta.toNat <<< 4 < 2 ^ 16 := by
    rw [Nat.shiftLeft_eq]
    omega
  rw [BitVec.toNat_or, BitVec.toNat_shiftLeft, BitVec.toNat_ofNat, Nat.mod_eq_of_lt hshift,
    Nat.mod_eq_of_lt (by omega), shift_or_code _ hcode]

theorem fieldHeader_short {code : Nat} (hcode : code < 16) (id : BitVec 32) (last : BitVec 16)
    (hid : id.toNat ≤ 15) (hlast : last.toNat < id.toNat) :
    fieldHeader code id last = .ok [UInt8.ofNat (16 * (id.toNat - last.toNat) + code)] := by
  have hint : id.toInt = id.toNat := BitVec.toInt_eq_toNat_of_lt (by omega)
  have hhigh := toInt_high id (by omega)
  have hdelta : (id.setWidth 16 - last).toNat = id.toNat - last.toNat := by
    rw [BitVec.toNat_sub, BitVec.toNat_setWidth]
    omega
  have hdint : (id.setWidth 16 - last).toInt = (id.toNat - last.toNat : Nat) := by
    rw [BitVec.toInt_eq_toNat_of_lt (by omega), hdelta]
  rw [fieldHeader, byteLiteral, if_pos (by omega), ok_bind, byteLiteral, if_pos (by omega), ok_bind]
  dsimp only
  rw [if_pos (by omega), toNat_short (by omega) hcode, hdelta]
  rfl

def valueBytes : Body → Bytes
  | .varint raw => encodeVarint (zigzagWord raw.value)
  | .fixed64 _ _ => []
  | .delimited len payload _ => encodeVarint len.value ++ payload.bytes

def lastAfter (k : Kind) (id last : BitVec 16) : BitVec 16 := if k = .string then last else id

def compactType : Kind → CompactType
  | .int32 => .i32
  | .int64 => .i64
  | _ => .binary

theorem reslice_append {inp : Slice} (spare pre mid post : Bytes) (h : inp.bytes = pre ++ (mid ++ post)) :
    reslice inp spare pre.length (pre.length + mid.length) = .ok mid := by
  have hlen : inp.len = pre.length + (mid.length + post.length) := by simp [Slice.len, h]
  have hlo : ((pre.length : Int)).toNat = pre.length := by omega
  have hhi : ((pre.length : Int) + mid.length).toNat = (pre ++ mid).length := by
    rw [length_append]
    omega
  have hall : inp.bytes ++ spare = (pre ++ mid) ++ (post ++ spare) := by
    rw [h]
    simp
  rw [reslice, if_pos (by omega), hlo, hhi, hall, take_left, drop_left]

theorem overwrite_two (out : Bytes) (o : Nat) (a b : Bytes) (hroom : o + (a ++ b).length ≤ out.length) : overwrite
    (overwrite out o a) (o + a.length) b = overwrite out o (a ++ b) ∧ (overwrite out o a).length = out.length := by
  rw [length_append] at hroom
  exact ⟨overwrite_overwrite (by omega), length_overwrite out o a (by omega)⟩

section
variable {inp : Slice} {pre post out header : Bytes} {o : Nat} {id : BitVec 32} {last : BitVec 16}

theorem transpileInt_varint {code : Nat} (hheader : fieldHeader code id last = .ok header)
    (raw : Varint) (h : inp.bytes = pre ++ (raw.bytes ++ post))
    (hroom : o + (header ++ encodeVarint (zigzagWord raw.value)).length ≤ out.length) :
    transpileInt code id inp ⟨pre.length, out, o, last⟩ = .ok ⟨pre.length + raw.bytes.length,
        overwrite out o (header ++ encodeVarint (zigzagWord raw.value)),
        o + (header ++ encodeVarint (zigzagWord raw.value)).length, id.setWidth 16⟩ := by
  obtain ⟨hstore, hvarint⟩ := (writes_storeAll header).two (writes_writeThriftVarint _) hroom
  unfold transpileInt
  simp only [readVarint_varint raw h, ok_bind, hheader, hstore]
  exact (congrArg (· >>= _) hvarint).trans rfl

theorem transpileString_delimited (spare : Bytes) (hheader : fieldHeader 8 id last = .ok header)
    {len : Varint} {payload : Slice} (size : len.value.toNat = payload.bytes.length)
    (h : inp.bytes = pre ++ (len.bytes ++ payload.bytes ++ post))
    (hroom : o + (header ++ (encodeVarint len.value ++ payload.bytes)).length ≤ out.length) :
    transpileString id inp spare ⟨pre.length, out, o, last⟩ = .ok ⟨pre.length + (len.bytes ++ payload.bytes).length,
        overwrite out o (header ++ (encodeVarint len.value ++ payload.bytes)),
        o + (header ++ (encodeVarint len.value ++ payload.bytes)).length, last⟩ := by
  have hread := readVarint_len len payload.bytes h
  have hpost := wrapInt_payload size (length_lt_of_append h)
  have hsrc : reslice inp spare ((pre.length : Int) + len.bytes.length)
      (pre.length + (len.bytes ++ payload.bytes).length) = .ok payload.bytes := by
    have hinner := reslice_append spare (pre ++ len.bytes) payload.bytes post (by rw [h]; simp only [append_assoc])
    simp only [length_append, Nat.cast_add, Int.add_assoc] at hinner ⊢
    exact hinner
  rw [← append_assoc] at hroom ⊢
  obtain ⟨hcat, hlen⟩ := overwrite_two _ _ _ _ hroom
  rw [length_append] at hroom
  obtain ⟨hstore, hvarint⟩ := (writes_storeAll header).two (writes_writeThriftVarint len.value)
    (show o + (header ++ encodeVarint len.value).length ≤ out.length by omega)
  unfold transpileString
  simp only [hread, ok_bind, hheader, hstore, hvarint, hpost, hsrc]
  rw [if_neg (by omega), take_of_length_le (by omega), hcat]
  simp only [length_append, Nat.add_assoc]
  rfl

theorem transpileCase_body (spare : Bytes) {k : Kind} (hk : Codable k)
    (hheader : fieldHeader (compactType k).code id last = .ok header) (body : Body)
    (hwt : body.wireType = wireTypeOf k) (h : inp.bytes = pre ++ (body.bytes ++ post))
    (hroom : o + (header ++ valueBytes body).length ≤ out.length) :
    transpileCase k id inp spare ⟨pre.length, out, o, last⟩ =
      .ok ⟨pre.length + body.bytes.length, overwrite out o (header ++ valueBytes body),
        o + (header ++ valueBytes body).length, lastAfter k (id.setWidth 16) last⟩ := by
  cases kindBody_of_wireType hk hwt with
  | int32 raw => exact transpileInt_varint hheader raw h hroom
  | int64 raw => exact transpileInt_varint hheader raw h hroom
  | string len payload size => exact transpileString_delimited spare hheader size h hroom
end

inductive EncodesKind : Kind → Body → Prop where
  | int32 (n : BitVec 32) (raw : Varint) (hraw : raw.value = n.signExtend 64) : EncodesKind .int32 (.varint raw)
  | int64 (raw : Varint) : EncodesKind .int64 (.varint raw)
  | string (len : Varint) (payload : Slice) (size : len.value.toNat = payload.bytes.length) :
      EncodesKind .string (.delimited len payload size)

/-- The records encode a value of the struct: each belongs to a field and encodes a value of the
field's kind, and the ids ascend. -/
structure EncodesValue (s : StructNode) (rs : List Record) : Prop where
  fields : ∀ r ∈ rs, ∃ c, fieldOf s r = some c ∧ EncodesKind (kindAt s c) r.body
  ascending : rs.Pairwise fun r q => r.num < q.num

theorem EncodesKind.codable {k : Kind} {body : Body} (h : EncodesKind k body) : Codable k := by
  cases h <;> trivial

theorem EncodesKind.wireType {k : Kind} {body : Body} (h : EncodesKind k body) : body.wireType = wireTypeOf k := by
  cases h <;> rfl

variable {s : StructNode} {r : Record} {rs : List Record}

theorem readable_of_encodesKind {c : Fin s.fields.length} (hc : fieldOf s r = some c)
    (hk : EncodesKind (kindAt s c) r.body) : Readable s r := by
  constructor
  · simp only [Declared, hc]
    exact hk.wireType
  · intro c' hc'
    obtain rfl := Option.some.inj (hc.symm.trans hc')
    exact hk.codable

def emitted (s : StructNode) (last : BitVec 16) (r : Record) : Bytes :=
  match fieldOf s r with
  | some c =>
    UInt8.ofNat (16 * (r.num - last.toNat) + (compactType (kindAt s c)).code) :: valueBytes r.body
  | none => []

def nextLast (s : StructNode) (last : BitVec 16) (r : Record) : BitVec 16 :=
  match fieldOf s r with
  | some c => lastAfter (kindAt s c) (BitVec.ofNat 16 r.num) last
  | none => last

/-- The bytes for the records, if the last id that the writer knows goes on by `next`. -/
def emittedWith (s : StructNode) (next : BitVec 16 → Record → BitVec 16) : BitVec 16 → List Record → Bytes
  | _, [] => []
  | last, r :: rs => emitted s last r ++ emittedWith s next (next last r) rs

def emittedAll (s : StructNode) : BitVec 16 → List Record → Bytes := emittedWith s (nextLast s)

def Known (s : StructNode) (r : Record) : Bool := (fieldOf s r).isSome

theorem length_known_lt (next : BitVec 16 → Record → BitVec 16) (rs : List Record) (last : BitVec 16) :
    (rs.filter (Known s)).length < (emittedWith s next last rs ++ [0]).length := by
  induction rs generalizing last with
  | nil => simp [emittedWith]
  | cons r rs ih =>
    have hrest := ih (next last r)
    simp only [length_append, length_singleton] at hrest
    cases hc : fieldOf s r with
    | none =>
      have hunknown : ¬ Known s r = true := by simp [Known, hc]
      simp only [filter_cons_of_neg hunknown, emittedWith, length_append, length_singleton]
      omega
    | some c =>
      have hknown : Known s r = true := by simp [Known, hc]
      simp only [filter_cons_of_pos hknown, emittedWith, emitted, hc, length_append, length_cons, length_nil]
      omega

/-- A loop that emits each record in one step emits them all. The record at the position `pre.length` of the input
is read in the state `state`, and `Ready` holds before the records that are left. -/
theorem reaches_emitted {σ ρ ε : Type} (step : σ → Outcome ε (Flow σ ρ)) (state : Nat → Bytes → Nat → BitVec 16 → σ)
    (next : BitVec 16 → Record → BitVec 16) (Ready : BitVec 16 → List Record → Prop) {input : Bytes}
    (hstep : ∀ pre r rs post out o last, Ready last (r :: rs) → input = pre ++ (r.bytes ++ post) →
      o + (emitted s last r).length ≤ out.length → Ready (next last r) rs ∧ Steps step (state pre.length out o last)
        (state (pre ++ r.bytes).length (overwrite out o (emitted s last r)) (o + (emitted s last r).length)
          (next last r)))
    (pre post out : Bytes) (o : Nat) (last : BitVec 16) {rs : List Record} (hready : Ready last rs)
    (h : input = pre ++ (encodeRecords rs ++ post)) (hroom : o + (emittedWith s next last rs).length ≤ out.length) :
    ∃ last', Reaches step (state pre.length out o last) (state (pre ++ encodeRecords rs).length
      (overwrite out o (emittedWith s next last rs)) (o + (emittedWith s next last rs).length) last') := by
  induction rs generalizing pre out o last with
  | nil =>
    refine ⟨last, ?_⟩
    simp only [encodeRecords_nil, append_nil, emittedWith, overwrite_nil, length_nil, Nat.add_zero]
    exact Relation.ReflTransGen.refl
  | cons r rs ih =>
    rw [encodeRecords_cons, append_assoc] at h
    obtain ⟨hcat, hlen⟩ := overwrite_two _ _ _ _ hroom
    rw [emittedWith, length_append] at hroom
    obtain ⟨hnext, hfirst⟩ := hstep pre r rs _ out o last hready h (by omega)
    obtain ⟨last', hrest⟩ := ih (pre ++ r.bytes) (overwrite out o (emitted s last r)) (o + (emitted s last r).length)
      _ hnext (by rw [h, append_assoc]) (by omega)
    refine ⟨last', Relation.ReflTransGen.head hfirst ?_⟩
    rw [hcat, append_assoc, Nat.add_assoc, ← length_append] at hrest
    exact hrest

theorem nextLast_cases (s : StructNode) (last : BitVec 16) (r : Record) :
    nextLast s last r = last ∨ nextLast s last r = BitVec.ofNat 16 r.num := by
  unfold nextLast lastAfter
  split
  · split
    · exact Or.inl rfl
    · exact Or.inr rfl
  · exact Or.inl rfl

theorem EncodesValue.tail (h : EncodesValue s (r :: rs)) : EncodesValue s rs :=
  ⟨fun q hq => h.fields q (mem_cons_of_mem r hq), (pairwise_cons.1 h.ascending).2⟩

theorem EncodesValue.nextLast_lt (h : EncodesValue s (r :: rs)) {last : BitVec 16}
    (hlast : ∀ q ∈ r :: rs, last.toNat < q.num) : ∀ q ∈ rs, (nextLast s last r).toNat < q.num := by
  intro q hq
  -- it is the old one or the number of `r`, and both are below the rest
  rcases nextLast_cases s last r with hold | hnew
  · rw [hold]
    exact hlast q (mem_cons_of_mem r hq)
  · rw [hnew, BitVec.toNat_ofNat]
    exact Nat.lt_of_le_of_lt (Nat.mod_le _ _) ((pairwise_cons.1 h.ascending).1 q hq)

theorem key_num16 (hnum : r.num < 2 ^ 15) :
    ((r.key.value >>> 3).setWidth 16).signExtend 32 = BitVec.ofNat 32 r.num := by
  have hw := r.body.wireType_lt
  have hval : ((r.key.value >>> 3).setWidth 16).toNat = r.num := by
    rw [BitVec.toNat_setWidth, BitVec.toNat_ushiftRight, Nat.shiftRight_eq_div_pow, r.key_value]
    omega
  have hmsb : ((r.key.value >>> 3).setWidth 16).msb = false := BitVec.msb_eq_false_iff_two_mul_lt.2 (by omega)
  rw [BitVec.signExtend_eq_setWidth_of_msb_false hmsb]
  apply BitVec.eq_of_toNat_eq
  rw [BitVec.toNat_setWidth, hval, toNat_ofNat_num]
  omega

section
variable {s : StructNode} (hids : IdsUpTo 15 s) {inp : Slice} (spare : Bytes) {pre post out : Bytes}
  {o : Nat} {last : BitVec 16}
include hids

/-- An iteration on the record of a field above `lastFieldID` appends the bytes of the
record. -/
theorem transpileStep_record {r : Record} {c : Fin s.fields.length} (hc : fieldOf s r = some c)
    (hk : EncodesKind (kindAt s c) r.body) (hlast : last.toNat < r.num) (h : inp.bytes = pre ++ (r.bytes ++ post))
    (hroom : o + (emitted s last r).length ≤ out.length) : Steps (transpileStep s inp spare) ⟨pre.length, out, o, last⟩
    ⟨(pre ++ r.bytes).length, overwrite out o (emitted s last r), o + (emitted s last r).length,
    nextLast s last r⟩ := by
  have hnum := num_of_fieldOf hc
  have hid := idsUpTo_at hids c
  have hcode := (compactType (kindAt s c)).code_bounds
  have hkey : inp.bytes = pre ++ (r.key.bytes ++ (r.body.bytes ++ post)) := by rw [h, Record.bytes, append_assoc]
  have hbody : inp.bytes = (pre ++ r.key.bytes) ++ (r.body.bytes ++ post) := by rw [hkey, append_assoc]
  have hheader := fieldHeader_short (show (compactType (kindAt s c)).code < 16 by omega)
    (s.fields.get c).id last (by omega) (by omega)
  have hemit : emitted s last r = [UInt8.ofNat (16 * ((s.fields.get c).id.toNat - last.toNat) +
        (compactType (kindAt s c)).code)] ++ valueBytes r.body := by simp [emitted, hc, hnum]
  have hlastAfter : nextLast s last r = lastAfter (kindAt s c) ((s.fields.get c).id.setWidth 16) last := by
    have hword : (s.fields.get c).id.setWidth 16 = BitVec.ofNat 16 r.num := by
      apply BitVec.eq_of_toNat_eq
      rw [BitVec.toNat_setWidth, BitVec.toNat_ofNat, hnum]
    simp only [nextLast, hc, hword]
  rw [hemit] at hroom ⊢
  rw [hlastAfter]
  have hcase := transpileCase_body spare hk.codable hheader r.body hk.wireType hbody hroom
  have hpos := r.key.length_pos
  have hlen : inp.len = pre.length + (r.key.bytes.length + (r.body.bytes.length + post.length)) := by
    simp [Slice.len, hkey]
  -- ids up to 15 survive the conversion to `int16`, so the switch selects the field
  have hsel : caseOf s (((r.key.value >>> 3).setWidth 16).signExtend 32) = some c := by
    rw [key_num16 (by omega)]
    exact hc
  have hend : ((pre ++ r.key.bytes).length : Int) + r.body.bytes.length = (pre ++ r.bytes).length := by
    simp only [Record.bytes, length_append]
    omega
  have hread : readVarint inp pre.length = .ok (r.key.value, ((pre ++ r.key.bytes).length : Int)) := by
    rw [readVarint_varint r.key hkey, length_append, Nat.cast_add]
  rw [hend] at hcase
  rw [Steps, transpileStep, if_pos (show (pre.length : Int) < inp.len by omega)]
  simp only [hread, ok_bind, hsel, transpileSwitch, hcase]
  rfl
end

theorem transpile_records (hfb : s.hasFallback = false) (hids : IdsUpTo 15 s) {inp : Slice} (spare : Bytes)
    (hrs : EncodesValue s rs) (h : inp.bytes = encodeRecords rs) {out : Bytes}
    (hroom : (emittedAll s 0 rs).length < out.length) : Transpiles s inp spare out
      (.ok (overwrite out 0 (emittedAll s 0 rs ++ [0]), (emittedAll s 0 rs ++ [0]).length)) := by
  obtain ⟨last', hreach⟩ := reaches_emitted (transpileStep s inp spare) (fun i out o last => ⟨i, out, o, last⟩)
    (nextLast s) (fun last rs => EncodesValue s rs ∧ ∀ r ∈ rs, last.toNat < r.num)
    (fun pre r rs post out o last hready hinput hfits => by
      obtain ⟨c, hc, hk⟩ := hready.1.fields r (by simp)
      exact ⟨⟨hready.1.tail, hready.1.nextLast_lt hready.2⟩,
        transpileStep_record hids spare hc hk (hready.2 r (by simp)) hinput hfits⟩)
    [] [] out 0 0 ⟨hrs, fun r _ => r.num_pos⟩ (by simpa using h) (by rw [Nat.zero_add]; exact hroom.le)
  obtain ⟨hcat, hlen⟩ := overwrite_two out 0 (emittedAll s 0 rs) [0] (by rw [length_append, length_singleton]; omega)
  have hend : transpileStep s inp spare ⟨(encodeRecords rs).length,
      overwrite out 0 (emittedAll s 0 rs), 0 + (emittedAll s 0 rs).length, last'⟩ =
      .ok (.ret (overwrite out 0 (emittedAll s 0 rs ++ [0]), (emittedAll s 0 rs ++ [0]).length)) := by
    rw [transpileStep, if_neg (by simp [Slice.len, h])]
    simp only
    rw [store_eq_overwrite _ (by omega), hcat, length_append, Nat.zero_add]
    rfl
  rw [Transpiles, hfb]
  exact (returns_reaches_iff hreach _).2 (returns_of_ret hend)

end HelixRpc.Codegen.Go
