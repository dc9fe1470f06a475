import HelixRpc.Codegen.Go.Unmarshal

/-!
# `Marshal` of the generated Go code

Model of `ProtoSize`, `MarshalTo` and `Marshal` as `GenerateGo` writes them.
-/

namespace HelixRpc.Codegen.Go

open Foundation Compiler List Outcome Option

def marshalWireType (k : Kind) : Nat := if k = .string ∨ k = .binary then 2 else 0

def tagVal (f : FieldNode) : BitVec 32 := (f.id <<< 3) ||| BitVec.ofNat 32 (marshalWireType f.kind)

def keyLiteral (f : FieldNode) : GoOutcome UInt8 :=
  if 0 ≤ (tagVal f).toInt ∧ (tagVal f).toInt ≤ 255 then .ok (UInt8.ofNat (tagVal f).toNat)
  else .fault .constant

def copyAt (dAtA : Bytes) (i : Nat) (src : Bytes) : GoOutcome (Bytes × Nat) :=
  if i ≤ dAtA.length then
    let n := min (dAtA.length - i) src.length
    .ok (overwrite dAtA i (src.take n), i + n)
  else .fault .slice

def marshalVarint (key : UInt8) (v : BitVec 64) (dAtA : Bytes) (i : Nat) : GoOutcome (Bytes × Nat) := do
  let dAtA ← store dAtA i key
  writeVarint dAtA (i + 1) v

def marshalBytes (key : UInt8) (v : Slice) (dAtA : Bytes) (i : Nat) : GoOutcome (Bytes × Nat) := do
  let dAtA ← store dAtA i key
  let (dAtA, i) ← writeVarint dAtA (i + 1) (BitVec.ofNat 64 v.bytes.length)
  copyAt dAtA i v.bytes

def marshalCase : (k : Kind) → GoVal k → GoOutcome UInt8 → Bytes → Nat → GoOutcome (Bytes × Nat)
  | .int32, (v : BitVec 32), literal, dAtA, i => do
      let key ← literal
      if v ≠ 0 then marshalVarint key (v.signExtend 64) dAtA i else pure (dAtA, i)
  | .int64, (v : BitVec 64), literal, dAtA, i => do
      let key ← literal
      if v ≠ 0 then marshalVarint key v dAtA i else pure (dAtA, i)
  | .string, (v : Slice), literal, dAtA, i => do
      let key ← literal
      if 0 < v.bytes.length then marshalBytes key v dAtA i else pure (dAtA, i)
  -- the generator writes nothing for other kinds, not even a key
  | _, _, _, dAtA, i => pure (dAtA, i)

def marshalField (f : FieldNode) (v : GoVal f.kind) (dAtA : Bytes) (i : Nat) :
    GoOutcome (Bytes × Nat) := marshalCase f.kind v (keyLiteral f) dAtA i

def protoSizeField : (k : Kind) → GoVal k → Nat
  | .int32, (v : BitVec 32) => if v ≠ 0 then 1 + sizeOfVarint (v.signExtend 64) else 0
  | .int64, (v : BitVec 64) => if v ≠ 0 then 1 + sizeOfVarint v else 0
  | .string, (v : Slice) =>
    if 0 < v.bytes.length then
      1 + sizeOfVarint (BitVec.ofNat 64 v.bytes.length) + v.bytes.length
    else 0
  | _, _ => 0

def marshalTo (s : StructNode) (x : GoStruct s) (dAtA : Bytes) : GoOutcome (Bytes × Nat) :=
  (finRange s.fields.length).foldlM
    (fun st c => marshalField (s.fields.get c) (x c) st.1 st.2) (dAtA, 0)

def protoSize (s : StructNode) (x : GoStruct s) : Nat :=
  ((finRange s.fields.length).map fun c => protoSizeField (kindAt s c) (x c)).sum

def marshal (s : StructNode) (x : GoStruct s) : GoOutcome Bytes := do
  let (buf, _) ← marshalTo s x (replicate (protoSize s x) 0)
  pure buf

def fieldBody : (k : Kind) → GoVal k → Option Body
  | .int32, (v : BitVec 32) => if v ≠ 0 then some (Record.wordBody (v.signExtend 64)) else none
  | .int64, (v : BitVec 64) => if v ≠ 0 then some (Record.wordBody v) else none
  | .string, (v : Slice) => if 0 < v.bytes.length then some (Record.sliceBody v) else none
  | _, _ => none

def fieldBytes (key : UInt8) (body : Option Body) : Bytes :=
  match body with
  | some b => key :: b.bytes
  | none => []

inductive Encoded : (k : Kind) → GoVal k → Body → Prop where
  | int32 (v : BitVec 32) (hv : v ≠ 0) : Encoded .int32 v (Record.wordBody (v.signExtend 64))
  | int64 (v : BitVec 64) (hv : v ≠ 0) : Encoded .int64 v (Record.wordBody v)
  | string (v : Slice) (hv : 0 < v.bytes.length) : Encoded .string v (Record.sliceBody v)

inductive Omitted : (k : Kind) → GoVal k → Prop where
  | int32 : Omitted .int32 (0 : BitVec 32)
  | int64 : Omitted .int64 (0 : BitVec 64)
  | string : Omitted .string Slice.empty
  | other {k : Kind} (hk : ¬ Codable k) (v : GoVal k) : Omitted k v

variable {k : Kind} {v : GoVal k} {f : FieldNode} {body : Body} {s : StructNode} {dAtA : Bytes} {r : Record}

theorem encoded_or_omitted (v : GoVal k) : (∃ body, Encoded k v body) ∨ Omitted k v := by
  cases k with
  | int32 =>
    change BitVec 32 at v
    by_cases hv : v = 0
    · exact Or.inr (hv ▸ .int32)
    · exact Or.inl ⟨_, .int32 v hv⟩
  | int64 =>
    change BitVec 64 at v
    by_cases hv : v = 0
    · exact Or.inr (hv ▸ .int64)
    · exact Or.inl ⟨_, .int64 v hv⟩
  | string =>
    change Slice at v
    by_cases hv : 0 < v.bytes.length
    · exact Or.inl ⟨_, .string v hv⟩
    · have hempty : v = Slice.empty := (Slice.eq_empty_iff v).2 (length_eq_zero_iff.1 (by omega))
      exact Or.inr (hempty ▸ .string)
  | _ => exact Or.inr (.other id v)

theorem fieldBody_of_encoded (h : Encoded k v body) : fieldBody k v = some body := by
  cases h with
  | int32 v hv => exact if_pos hv
  | int64 v hv => exact if_pos hv
  | string v hv => exact if_pos hv

theorem fieldBody_of_omitted (h : Omitted k v) : fieldBody k v = none := by
  cases h with
  | int32 => rfl
  | int64 => rfl
  | string => rfl
  | other hk v =>
    cases k with
    | int32 => exact absurd trivial hk
    | int64 => exact absurd trivial hk
    | string => exact absurd trivial hk
    | _ => rfl

theorem encoded_of_fieldBody (h : fieldBody k v = some body) : Encoded k v body := by
  rcases encoded_or_omitted v with ⟨body', henc⟩ | homit
  · rw [fieldBody_of_encoded henc] at h
    exact some.inj h ▸ henc
  · rw [fieldBody_of_omitted homit] at h
    cases h

theorem eq_zero_of_fieldBody (hk : Codable k) (h : fieldBody k v = none) : v = GoVal.zero k := by
  rcases encoded_or_omitted v with ⟨body, henc⟩ | homit
  · rw [fieldBody_of_encoded henc] at h
    cases h
  · cases homit with
    | int32 => rfl
    | int64 => rfl
    | string => rfl
    | other hno v => exact absurd hk hno

theorem writes_marshalVarint (key : UInt8) (v : BitVec 64) : Writes (marshalVarint key v) (key :: encodeVarint v) :=
  (writes_writeVarint v).cons key

theorem writes_copyAt (src : Bytes) : Writes (copyAt · · src) src := by
  intro dAtA i hroom
  have hmin : min (dAtA.length - i) src.length = src.length := by omega
  show copyAt dAtA i src = _
  rw [copyAt, if_pos (by omega)]
  simp [hmin]

theorem writes_marshalBytes (key : UInt8) (v : Slice) :
    Writes (marshalBytes key v) (key :: (Record.sliceBody v).bytes) :=
  ((writes_writeVarint _).append (writes_copyAt v.bytes)).cons key

theorem marshalCase_of_omitted (h : Omitted k v) (key : UInt8) (dAtA : Bytes) (i : Nat) :
    marshalCase k v (.ok key) dAtA i = .ok (dAtA, i) := by
  cases h with
  | int32 => rfl
  | int64 => rfl
  | string => rfl
  | other hk v =>
    cases k with
    | int32 => exact absurd trivial hk
    | int64 => exact absurd trivial hk
    | string => exact absurd trivial hk
    | _ => rfl

theorem writes_marshalCase (v : GoVal k) (key : UInt8) :
    Writes (marshalCase k v (.ok key)) (fieldBytes key (fieldBody k v)) := by
  intro dAtA i
  rcases encoded_or_omitted v with ⟨body, henc⟩ | homit
  · rw [fieldBody_of_encoded henc]
    cases henc with
    | int32 v hv => exact fun hroom => (if_pos hv).trans (writes_marshalVarint _ _ _ _ hroom)
    | int64 v hv => exact fun hroom => (if_pos hv).trans (writes_marshalVarint _ _ _ _ hroom)
    | string v hv => exact fun hroom => (if_pos hv).trans (writes_marshalBytes _ _ _ _ hroom)
  · rw [marshalCase_of_omitted homit, fieldBody_of_omitted homit]
    exact Writes.nil dAtA i

theorem protoSizeField_eq (v : GoVal k) (key : UInt8) :
    protoSizeField k v = (fieldBytes key (fieldBody k v)).length := by
  rcases encoded_or_omitted v with ⟨body, henc⟩ | homit
  · rw [fieldBody_of_encoded henc, fieldBytes, length_cons]
    cases henc with
    | int32 v hv =>
      refine (if_pos hv).trans ?_
      rw [sizeOfVarint_eq, Nat.add_comm]
      rfl
    | int64 v hv =>
      refine (if_pos hv).trans ?_
      rw [sizeOfVarint_eq, Nat.add_comm]
      rfl
    | string v hv =>
      refine (if_pos hv).trans ?_
      rw [sizeOfVarint_eq]
      simp only [Record.sliceBody, Body.bytes, Varint.bytes_encode, length_append]
      omega
  · rw [fieldBody_of_omitted homit]
    cases homit with
    | int32 => rfl
    | int64 => rfl
    | string => rfl
    | other hk v =>
      cases k with
      | int32 => exact absurd trivial hk
      | int64 => exact absurd trivial hk
      | string => exact absurd trivial hk
      | _ => rfl

theorem marshalWireType_eq (hk : Codable k) : marshalWireType k = wireTypeOf k := by
  cases k with
  | int32 => rfl
  | int64 => rfl
  | string => rfl
  | _ => exact hk.elim

theorem marshalWireType_lt (k : Kind) : marshalWireType k < 8 := by
  unfold marshalWireType
  split <;> omega

theorem tagVal_toNat (hid : f.id.toNat < 2 ^ 29) : (tagVal f).toNat = 8 * f.id.toNat + marshalWireType f.kind := by
  have hwt := marshalWireType_lt f.kind
  have hor := Nat.two_pow_add_eq_or_of_lt (i := 3) (b := marshalWireType f.kind) hwt f.id.toNat
  rw [tagVal, BitVec.toNat_or, BitVec.toNat_shiftLeft, Nat.shiftLeft_eq, BitVec.toNat_ofNat,
    Nat.mod_eq_of_lt (by omega), Nat.mod_eq_of_lt (by omega), Nat.mul_comm]
  exact hor.symm

theorem keyLiteral_eq (hid : f.id.toNat ≤ 15) :
    keyLiteral f = .ok (UInt8.ofNat (8 * f.id.toNat + marshalWireType f.kind)) := by
  have hwt := marshalWireType_lt f.kind
  have hn := tagVal_toNat (f := f) (by omega)
  have hi : (tagVal f).toInt = (tagVal f).toNat := BitVec.toInt_eq_toNat_of_lt (by omega)
  rw [keyLiteral, if_pos (by omega), hn]

theorem encodeVarint_keyWord {num wireType : Nat} (hnum : num ≤ 15) (hwt : wireType < 8) :
    encodeVarint (Record.keyWord num wireType) = [UInt8.ofNat (8 * num + wireType)] := by
  have hn : (Record.keyWord num wireType).toNat = _ := Record.keyWord_toNat (by omega) hwt
  rw [encodeVarint_of_lt (by omega), hn]

theorem codable_of_encoded (h : Encoded k v body) : Codable k := by
  cases h <;> trivial

theorem wireType_of_encoded (h : Encoded k v body) : body.wireType = wireTypeOf k := by
  cases h <;> rfl

theorem bodyValue_of_encoded (h : Encoded k v body) : bodyValue k body = v := by
  cases h with
  | int32 v hv =>
    show ((Varint.encode (v.signExtend 64)).value).setWidth 32 = v
    rw [Varint.value_encode, setWidth_signExtend]
  | int64 v hv => exact Varint.value_encode v
  | string v hv => rfl

def fieldRecord (f : FieldNode) (v : GoVal f.kind) : Option Record :=
  if h : 1 ≤ f.id.toNat ∧ f.id.toNat < 2 ^ 29 then
    (fieldBody f.kind v).map (Record.ofBody f.id.toNat h.1 h.2)
  else none

def recordsOf (s : StructNode) (x : GoStruct s) (cs : List (Fin s.fields.length)) : List Record :=
  cs.filterMap fun c => fieldRecord (s.fields.get c) (x c)

def structRecords (s : StructNode) (x : GoStruct s) : List Record := recordsOf s x (finRange s.fields.length)

theorem encodeRecords_recordsOf_cons (x : GoStruct s) (c : Fin s.fields.length) (cs : List (Fin s.fields.length)) :
    encodeRecords (recordsOf s x (c :: cs)) = encodeRecords (fieldRecord (s.fields.get c) (x c)).toList ++
        encodeRecords (recordsOf s x cs) := by
  rw [← encodeRecords_append, recordsOf, filterMap_cons]
  cases fieldRecord (s.fields.get c) (x c) <;> rfl

theorem fieldRecord_eq_some {v : GoVal f.kind} (h : fieldRecord f v = some r) :
    r.num = f.id.toNat ∧ Encoded f.kind v r.body := by
  unfold fieldRecord at h
  split at h
  · obtain ⟨body, hb, rfl⟩ := map_eq_some_iff.1 h
    exact ⟨rfl, encoded_of_fieldBody hb⟩
  · cases h

theorem fieldBody_of_fieldRecord_none {v : GoVal f.kind} (hid : 1 ≤ f.id.toNat ∧ f.id.toNat < 2 ^ 29)
    (h : fieldRecord f v = none) : fieldBody f.kind v = none := by
  rw [fieldRecord, dif_pos hid] at h
  exact map_eq_none_iff.1 h

theorem mem_structRecords {x : GoStruct s} :
    r ∈ structRecords s x ↔ ∃ c, fieldRecord (s.fields.get c) (x c) = some r := by simp [structRecords, recordsOf]

theorem fieldBytes_eq_record (hk : Codable f.kind) (hid : 1 ≤ f.id.toNat ∧ f.id.toNat ≤ 15) (v : GoVal f.kind) :
    fieldBytes (UInt8.ofNat (8 * f.id.toNat + marshalWireType f.kind)) (fieldBody f.kind v) =
      encodeRecords (fieldRecord f v).toList := by
  rw [fieldRecord, dif_pos ⟨hid.1, by omega⟩]
  cases hb : fieldBody f.kind v with
  | none => rfl
  | some body =>
    have hwt := wireType_of_encoded (encoded_of_fieldBody hb)
    have hkey := encodeVarint_keyWord hid.2 body.wireType_lt
    simp only [map_some, toList_some, encodeRecords_cons, encodeRecords_nil,
      append_nil, Record.bytes, Record.ofBody, Varint.bytes_encode, hkey, fieldBytes]
    rw [marshalWireType_eq hk, hwt]
    rfl

theorem writes_marshalField (hk : Codable f.kind) (hid : 1 ≤ f.id.toNat ∧ f.id.toNat ≤ 15) (v : GoVal f.kind) :
    Writes (marshalField f v) (encodeRecords (fieldRecord f v).toList) := by
  intro dAtA i
  rw [← fieldBytes_eq_record hk hid v, marshalField, keyLiteral_eq hid.2]
  exact writes_marshalCase v _ dAtA i

section
variable {s : StructNode} (hcod : AllCodable s) (hids : IdsUpTo 15 s) (x : GoStruct s)
include hcod hids

theorem writes_fields (cs : List (Fin s.fields.length)) :
    Writes (fun dAtA i => cs.foldlM (fun st c => marshalField (s.fields.get c) (x c) st.1 st.2) (dAtA, i))
      (encodeRecords (recordsOf s x cs)) := by
  induction cs with
  | nil => exact Writes.nil
  | cons c cs ih =>
    rw [encodeRecords_recordsOf_cons]
    exact (writes_marshalField (allCodable_at hcod c) (idsUpTo_at hids c) (x c)).append ih

theorem protoSize_eq : protoSize s x = (encodeRecords (structRecords s x)).length := by
  have key : ∀ cs : List (Fin s.fields.length),
      (cs.map fun c => protoSizeField (kindAt s c) (x c)).sum = (encodeRecords (recordsOf s x cs)).length := by
    intro cs
    induction cs with
    | nil => rfl
    | cons c cs ih =>
      rw [map_cons, sum_cons, ih, encodeRecords_recordsOf_cons, length_append,
        ← fieldBytes_eq_record (allCodable_at hcod c) (idsUpTo_at hids c) (x c), ← protoSizeField_eq (x c)]
  exact key _

theorem marshalTo_eq : marshalTo s x (replicate (protoSize s x) 0) =
      .ok (encodeRecords (structRecords s x), protoSize s x) := by
  have hsize := protoSize_eq hcod hids x
  have h : marshalTo s x (replicate (protoSize s x) 0) = _ := writes_fields hcod hids x (finRange s.fields.length)
    (replicate (protoSize s x) 0) 0 (by rw [length_replicate, hsize, Nat.zero_add]; rfl)
  rw [h, Nat.zero_add, overwrite_all (by rw [length_replicate, hsize]; rfl), hsize]
  rfl
end

theorem lastRecord_structRecords (hids : DistinctIds s) (x : GoStruct s) (c : Fin s.fields.length) :
    lastRecord (structRecords s x) (s.fields.get c).id = fieldRecord (s.fields.get c) (x c) := by
  -- with distinct ids, no other field has a record of this number
  have honly : ∀ r ∈ structRecords s x, r.num = (s.fields.get c).id.toNat →
      fieldRecord (s.fields.get c) (x c) = some r := by
    intro r hr hnum
    obtain ⟨j, hj⟩ := mem_structRecords.1 hr
    have hid : (s.fields.get j).id = (s.fields.get c).id :=
      BitVec.eq_of_toNat_eq (by rw [← (fieldRecord_eq_some hj).1, hnum])
    rw [← eq_of_id_eq hids hid]
    exact hj
  cases hf : fieldRecord (s.fields.get c) (x c) with
  | none =>
    apply lastRecord_eq_none
    intro r hr hnum
    have := honly r hr hnum
    rw [hf] at this
    cases this
  | some r =>
    refine lastRecord_eq_some (mem_structRecords.2 ⟨c, hf⟩) (fieldRecord_eq_some hf).1 ?_
    intro q hq hnum
    have := honly q hq hnum
    rw [hf] at this
    exact (some.inj this).symm

theorem declared_structRecords (hdist : DistinctIds s) {x : GoStruct s} (hr : r ∈ structRecords s x) :
    Declared s r := by
  obtain ⟨c, hc⟩ := mem_structRecords.1 hr
  obtain ⟨hnum, henc⟩ := fieldRecord_eq_some hc
  have hf : fieldOf s r = some c := (fieldOf_eq_some_iff hdist r c).2 hnum
  simp only [Declared, hf]
  exact wireType_of_encoded henc

theorem lastValue_structRecords (hcod : AllCodable s) (hdist : DistinctIds s) (hids : IdsUpTo 15 s) (x : GoStruct s) :
    lastValue s (structRecords s x) = x := by
  funext c
  rw [lastValue, lastRecord_structRecords hdist x c]
  have hid := idsUpTo_at hids c
  cases hf : fieldRecord (s.fields.get c) (x c) with
  | none =>
    have hb := fieldBody_of_fieldRecord_none ⟨hid.1, by omega⟩ hf
    exact (eq_zero_of_fieldBody (allCodable_at hcod c) hb).symm
  | some r => exact bodyValue_of_encoded (fieldRecord_eq_some hf).2

/-- `MarshalTo` fills the buffer that `Marshal` allocates, and `Unmarshal` reads the
value back. -/
theorem marshalTo_roundTrip {s : StructNode} (hcod : AllCodable s) (hdist : DistinctIds s) (hids : IdsUpTo 15 s)
    (x : GoStruct s) : ∃ buf, marshalTo s x (replicate (protoSize s x) 0) = .ok (buf, protoSize s x) ∧ buf.length =
    protoSize s x ∧ marshal s x = .ok buf ∧ ∀ dAtA : Slice, dAtA.bytes = buf → Unmarshals s dAtA (.ok x) := by
  have hto := marshalTo_eq hcod hids x
  refine ⟨encodeRecords (structRecords s x), hto, (protoSize_eq hcod hids x).symm, ?_, ?_⟩
  · rw [marshal, hto]
    rfl
  · intro dAtA h
    have hrun := unmarshal_records (fun r hr => readable_of_allCodable hcod (declared_structRecords hdist hr)) h
    rwa [foldl_applyRecord hdist, lastValue_structRecords hcod hdist hids] at hrun

def guestProfile : GoStruct userProfile
  | ⟨0, _⟩ => (-5 : BitVec 64)
  | ⟨1, _⟩ => (⟨[0x61, 0x62], by decide⟩ : Slice)
  | ⟨2, _⟩ => Slice.empty

theorem marshalTo_roundTrip_guest : ∃ buf, marshalTo userProfile guestProfile
    (replicate (protoSize userProfile guestProfile) 0) = .ok (buf, protoSize userProfile guestProfile) ∧ buf.length =
    protoSize userProfile guestProfile ∧ marshal userProfile guestProfile = .ok buf ∧ ∀ dAtA : Slice, dAtA.bytes = buf →
    Unmarshals userProfile dAtA (.ok guestProfile) :=
  marshalTo_roundTrip (by decide) (by decide) (by decide) guestProfile

/-- What becomes of a value when another one is read after it. -/
def GoStruct.merge {s : StructNode} (x y : GoStruct s) : GoStruct s := fun c =>
  if y c = GoVal.zero _ then x c else y c

theorem fieldBody_zero (k : Kind) : fieldBody k (GoVal.zero k) = none := by cases k <;> rfl

section
variable {s : StructNode} (hcod : AllCodable s) (hids : IdsUpTo 15 s) (hdist : DistinctIds s)
include hcod hids

theorem marshal_eq (x : GoStruct s) : marshal s x = .ok (encodeRecords (structRecords s x)) := by
  rw [marshal, marshalTo_eq hcod hids x]
  rfl

include hdist

theorem lastValue_append (rs : List Record) (y : GoStruct s) :
    lastValue s (rs ++ structRecords s y) = GoStruct.merge (lastValue s rs) y := by
  funext c
  have hlast : lastRecord (rs ++ structRecords s y) (s.fields.get c).id =
      (fieldRecord (s.fields.get c) (y c)).or (lastRecord rs (s.fields.get c).id) := by
    rw [← lastRecord_structRecords hdist y c, lastRecord, reverse_append, find?_append]
    rfl
  rw [lastValue, hlast, GoStruct.merge]
  cases hf : fieldRecord (s.fields.get c) (y c) with
  | none =>
    have hid := idsUpTo_at hids c
    have hb := fieldBody_of_fieldRecord_none ⟨hid.1, by omega⟩ hf
    rw [if_pos (eq_zero_of_fieldBody (allCodable_at hcod c) hb)]
    rfl
  | some r =>
    rw [if_neg]
    · exact bodyValue_of_encoded (fieldRecord_eq_some hf).2
    · intro hzero
      rw [fieldRecord, hzero, fieldBody_zero] at hf
      simp at hf

theorem lastValue_flatMap (xs : List (GoStruct s)) :
    lastValue s (xs.flatMap (structRecords s)) = xs.foldl GoStruct.merge (GoStruct.zero s) := by
  induction xs using reverseRecOn with
  | nil => rfl
  | append_singleton xs x ih =>
    rw [flatMap_append, flatMap_singleton, lastValue_append hcod hids hdist, ih, foldl_append]
    rfl
end

/-- Messages that stand behind each other are read as one: each field has its value of the last message in which it is
not zero. -/
theorem unmarshal_merges {s : StructNode} (hcod : AllCodable s) (hdist : DistinctIds s) (hids : IdsUpTo 15 s)
    (xs : List (GoStruct s)) (wire : GoStruct s → Bytes) (hwire : ∀ x ∈ xs, marshal s x = .ok (wire x)) {dAtA : Slice}
    (h : dAtA.bytes = xs.flatMap wire) : Unmarshals s dAtA (.ok (xs.foldl GoStruct.merge (GoStruct.zero s))) := by
  have hbytes : dAtA.bytes = encodeRecords (xs.flatMap (structRecords s)) := by
    rw [h, encodeRecords, flatMap_assoc]
    refine flatMap_congr fun x hx => ?_
    exact Outcome.ok.inj ((hwire x hx).symm.trans (marshal_eq hcod hids x))
  rw [← lastValue_flatMap hcod hids hdist, ← foldl_applyRecord hdist]
  refine unmarshal_records (fun r hr => ?_) hbytes
  obtain ⟨x, -, hr⟩ := mem_flatMap.1 hr
  exact readable_of_allCodable hcod (declared_structRecords hdist hr)

theorem unmarshal_merges_guest : ∃ wire, marshal userProfile guestProfile = .ok wire ∧ ∀ dAtA : Slice,
    dAtA.bytes = wire ++ wire → Unmarshals userProfile dAtA
      (.ok ([guestProfile, guestProfile].foldl GoStruct.merge (GoStruct.zero userProfile))) := by
  refine ⟨_, marshal_eq (by decide) (by decide) _, fun dAtA h => ?_⟩
  refine unmarshal_merges (by decide) (by decide) (by decide) _ _ (fun x _ => marshal_eq (by decide) (by decide) x) ?_
  rw [h, flatMap_cons, flatMap_singleton]

def keyBytes (f : FieldNode) : Bytes := encodeVarint (Record.keyWord f.id.toNat (wireTypeOf f.kind))

structure KeyCorrect (f : FieldNode) (v : GoVal f.kind) (body : Body) : Prop where
  written : ∀ (dAtA : Bytes) (i : Nat), i + (keyBytes f ++ body.bytes).length ≤ dAtA.length →
    ∃ out, marshalField f v dAtA i = .ok (out, i + (keyBytes f ++ body.bytes).length) ∧
      out = overwrite dAtA i (keyBytes f ++ body.bytes) ∧
      ∀ buf : Slice, buf.bytes = out → ∃ w, readVarint buf i = .ok (w, i + (keyBytes f).length) ∧
        (w >>> 3).setWidth 32 = f.id ∧ (w &&& 7).toNat = wireTypeOf f.kind
  counted : protoSizeField f.kind v = (keyBytes f).length + body.bytes.length

theorem readVarint_keyBytes (hid : 1 ≤ f.id.toNat ∧ f.id.toNat < 2 ^ 29) (hwt : body.wireType = wireTypeOf f.kind)
    {buf : Slice} {pre post : Bytes} (h : buf.bytes = pre ++ (keyBytes f ++ post)) : ∃ w, readVarint buf pre.length =
    .ok (w, pre.length + (keyBytes f).length) ∧ (w >>> 3).setWidth 32 = f.id ∧ (w &&& 7).toNat = wireTypeOf f.kind := by
  have hkey : (Record.ofBody f.id.toNat hid.1 hid.2 body).key.bytes = keyBytes f := by
    rw [keyBytes, ← hwt]
    rfl
  rw [← hkey] at h ⊢
  refine ⟨_, readVarint_varint _ h, ?_, ?_⟩
  · rw [Record.key_num]
    exact (BitVec.ofNat_toNat 32 f.id).trans (BitVec.setWidth_eq f.id)
  · rw [Record.key_wireType]
    exact hwt

/-- The key that `MarshalTo` writes and `ProtoSize` counts is right exactly up to id 15. -/
theorem keyCorrect_iff {f : FieldNode} (hk : Codable f.kind) (hid : 1 ≤ f.id.toNat ∧ f.id.toNat < 2 ^ 29)
    {v : GoVal f.kind} {body : Body} (hv : fieldBody f.kind v = some body) : KeyCorrect f v body ↔ f.id.toNat ≤ 15 := by
  have hwt := wireType_of_encoded (encoded_of_fieldBody hv)
  have hlt := body.wireType_lt
  have hword := Record.keyWord_toNat hid.2 hlt
  constructor
  · -- one byte is counted, and the key has one byte only below 128
    intro h
    have hcount := h.counted
    rw [protoSizeField_eq v 0, hv, fieldBytes, length_cons] at hcount
    have hone : (keyBytes f).length = 1 := by omega
    rw [keyBytes, length_encodeVarint_eq_one_iff, ← hwt] at hone
    omega
  · intro h15
    have hkey : keyBytes f = [UInt8.ofNat (8 * f.id.toNat + marshalWireType f.kind)] := by
      rw [keyBytes, ← hwt, encodeVarint_keyWord h15 hlt, marshalWireType_eq hk, hwt]
    have hbytes : fieldBytes (UInt8.ofNat (8 * f.id.toNat + marshalWireType f.kind))
        (fieldBody f.kind v) = keyBytes f ++ body.bytes := by
      rw [hv, hkey]
      rfl
    constructor
    · intro dAtA i hroom
      refine ⟨_, ?_, rfl, ?_⟩
      · rw [marshalField, keyLiteral_eq h15, ← hbytes]
        exact writes_marshalCase v _ dAtA i (by rw [hbytes]; exact hroom)
      · intro buf hbuf
        have htake : (dAtA.take i).length = i := by
          rw [length_take]
          rw [length_append] at hroom
          omega
        have hpre : buf.bytes = dAtA.take i ++ (keyBytes f ++
            (body.bytes ++ dAtA.drop (i + (keyBytes f ++ body.bytes).length))) := by
          rw [hbuf, overwrite]
          simp
        have hread := readVarint_keyBytes hid hwt hpre
        rwa [htake] at hread
    · rw [protoSizeField_eq v, hbytes, length_append]

def scoreField : FieldNode := ⟨"score", 16, ⟨.int32, "", none, none⟩, false⟩

theorem keyCorrect_iff_userId : KeyCorrect ⟨"user_id", 1, ⟨.int64, "", none, none⟩, false⟩ (7 : BitVec 64)
      (Record.wordBody 7) :=
  (keyCorrect_iff (f := ⟨"user_id", 1, ⟨.int64, "", none, none⟩, false⟩) trivial (by decide)
    (v := (7 : BitVec 64)) rfl).2 (by decide)

theorem score_key_wrong : marshalField scoreField (5 : BitVec 32) [0, 0, 0] 0 = .ok ([0x80, 5, 0], 2) ∧
      readVarint ⟨[0x80, 5, 0], by decide⟩ 0 = .ok (640, 2) ∧ ((640 : BitVec 64) >>> 3).setWidth 32 ≠ scoreField.id ∧
      ¬ KeyCorrect scoreField (5 : BitVec 32) (Record.wordBody 5) := by
  refine ⟨rfl, rfl, by decide, ?_⟩
  intro h
  have hcount := h.counted
  exact absurd hcount (by decide)

end HelixRpc.Codegen.Go
