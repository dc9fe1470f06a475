import HelixRpc.Codegen.Go.Struct
import HelixRpc.Compiler.Linter
import Mathlib.Data.List.Induction

/-!
# `Unmarshal` of the generated Go code

Model of the `Unmarshal` method that `GenerateGo` writes for every struct.
-/

namespace HelixRpc.Codegen.Go

open Foundation Compiler List Outcome Function

def capName (field : String) : String := String.ofList (Linter.toCamelCase field.toList)

def unsafeString (b : Slice) : Slice := if b.bytes.length = 0 then Slice.empty else b

@[simp] theorem unsafeString_eq (b : Slice) : unsafeString b = b := by
  unfold unsafeString
  split
  · rename_i h
    exact ((Slice.eq_empty_iff b).2 (length_eq_zero_iff.1 h)).symm
  · rfl

def unmarshalInt {α : Type} (convert : BitVec 64 → α) (field : String) (dAtA : Slice)
    (iNdEx : Int) (wireType : Nat) : GoOutcome (Option α × Int) :=
  if wireType ≠ 0 then .error (.wrongWireType wireType (capName field))
  else do
    let (v, iNdEx) ← readVarint dAtA iNdEx
    pure (some (convert v), iNdEx)

/-- Read a length and cut that many bytes out of the buffer, after a bound check of their end. -/
def cutPayload (dAtA : Slice) (iNdEx : Int) : GoOutcome (Slice × Int) := do
  let (length, iNdEx) ← readVarint dAtA iNdEx
  let postIndex := wrapInt (iNdEx + length.toInt)
  -- a sum that has wrapped around to `0 ≤ postIndex < iNdEx` passes this test
  if postIndex < 0 ∨ dAtA.len < postIndex then .error .unexpectedEOF
  else do
    let b ← dAtA.extract iNdEx postIndex
    pure (b, postIndex)

def unmarshalString (field : String) (dAtA : Slice) (iNdEx : Int) (wireType : Nat) : GoOutcome (Option Slice × Int) :=
  if wireType ≠ 2 then .error (.wrongWireType wireType (capName field))
  else do
    let (b, iNdEx) ← cutPayload dAtA iNdEx
    pure (some (unsafeString b), iNdEx)

def unmarshalCase : (k : Kind) → String → Slice → Int → Nat → GoOutcome (Option (GoVal k) × Int)
  | .int32, field, dAtA, iNdEx, wireType =>
    unmarshalInt (fun v => v.setWidth 32) field dAtA iNdEx wireType
  | .int64, field, dAtA, iNdEx, wireType => unmarshalInt (fun v => v) field dAtA iNdEx wireType
  | .string, field, dAtA, iNdEx, wireType => unmarshalString field dAtA iNdEx wireType
  -- the generator writes the case label of every other kind and no statement under it
  | _, _, _, iNdEx, _ => pure (none, iNdEx)

def unmarshalDefault (dAtA : Slice) (iNdEx : Int) (wireType : Nat) : GoOutcome Int := do
  let (v, iNdEx) ← readVarint dAtA iNdEx
  if wireType = 0 then pure iNdEx
  -- the sum is neither checked for overflow nor compared with the length of the buffer
  else if wireType = 2 then pure (wrapInt (iNdEx + v.toInt))
  else .error .unmarshalSkip

structure DecodeState (s : StructNode) where
  iNdEx : Int
  x : GoStruct s

def GoStruct.assign {s : StructNode} (x : GoStruct s) (i : Fin s.fields.length)
    (v : Option (GoVal (kindAt s i))) : GoStruct s :=
  match v with
  | some a => update x i a
  | none => x

def unmarshalSwitch (s : StructNode) (dAtA : Slice) (x : GoStruct s)
    (selected : Option (Fin s.fields.length)) (iNdEx : Int) (wireType : Nat) :
    GoOutcome (DecodeState s) :=
  match selected with
  | some c => do
      let (v, iNdEx) ← unmarshalCase (kindAt s c) (s.fields.get c).name dAtA iNdEx wireType
      pure ⟨iNdEx, x.assign c v⟩
  | none => do
      let iNdEx ← unmarshalDefault dAtA iNdEx wireType
      pure ⟨iNdEx, x⟩

def unmarshalStep (s : StructNode) (dAtA : Slice) (st : DecodeState s) :
    GoOutcome (Flow (DecodeState s) (GoStruct s)) :=
  if st.iNdEx < dAtA.len then do
    let (i, iNdEx) ← readVarint dAtA st.iNdEx
    let fieldNum := (i >>> 3).setWidth 32
    let wireType := (i &&& 7).toNat
    if wireType = 4 then .error (.endGroup s.name)
    else do
      let st ← unmarshalSwitch s dAtA st.x (caseOf s fieldNum) iNdEx wireType
      pure (.next st)
  else pure (.ret st.x)

def Unmarshals (s : StructNode) (dAtA : Slice) (r : GoOutcome (GoStruct s)) : Prop :=
  Returns (unmarshalStep s dAtA) ⟨0, GoStruct.zero s⟩ r

inductive CaseRead (dAtA : Slice) (p : Int) : (k : Kind) → Nat → GoVal k → Int → Prop where
  | int32 (v : BitVec 64) (q : Int) (hread : readVarint dAtA p = .ok (v, q)) :
      CaseRead dAtA p .int32 0 (v.setWidth 32) q
  | int64 (v : BitVec 64) (q : Int) (hread : readVarint dAtA p = .ok (v, q)) : CaseRead dAtA p .int64 0 v q
  | string (n : BitVec 64) (q : Int) (hread : readVarint dAtA p = .ok (n, q)) (b : Slice)
      (hcut : dAtA.extract (ε := CodecError) q (wrapInt (q + n.toInt)) = .ok b) :
      CaseRead dAtA p .string 2 b (wrapInt (q + n.toInt))

inductive DefaultRead (dAtA : Slice) (p : Int) : Nat → Int → Prop where
  | varint (v : BitVec 64) (q : Int) (hread : readVarint dAtA p = .ok (v, q)) : DefaultRead dAtA p 0 q
  | delimited (n : BitVec 64) (q : Int) (hread : readVarint dAtA p = .ok (n, q)) :
      DefaultRead dAtA p 2 (wrapInt (q + n.toInt))

variable {dAtA payload : Slice} {p o : Int} {pre post : Bytes} {s : StructNode} {wireType : Nat} {len : Varint}
  {r : Record}
variable {α β : Type} {field : String} {k : Kind} {q : Int} {fieldNum : BitVec 32}
  {body : BitVec 64 × Int → GoOutcome β} {done : GoOutcome β} {rs : List Record}

theorem unmarshalInt_eq_ok (convert : BitVec 64 → α) {r : Option α × Int} : unmarshalInt convert field dAtA p wireType =
    .ok r ↔ wireType = 0 ∧ ∃ v q, readVarint dAtA p = .ok (v, q) ∧ r = (some (convert v), q) := by
  unfold unmarshalInt
  by_cases hwt : wireType = 0
  · rw [if_neg (not_not.2 hwt), bind_eq_ok]
    constructor
    · rintro ⟨⟨v, q⟩, hread, hr⟩
      exact ⟨hwt, v, q, hread, (ok.inj hr).symm⟩
    · rintro ⟨-, v, q, hread, rfl⟩
      exact ⟨(v, q), hread, rfl⟩
  · rw [if_pos hwt]
    constructor
    · intro h
      cases h
    · rintro ⟨h, -⟩
      exact absurd h hwt

theorem cutPayload_eq_ok {r : Slice × Int} : cutPayload dAtA p = .ok r ↔ ∃ n q b, readVarint dAtA p = .ok (n, q) ∧
      dAtA.extract (ε := CodecError) q (wrapInt (q + n.toInt)) = .ok b ∧ r = (b, wrapInt (q + n.toInt)) := by
  unfold cutPayload
  rw [bind_eq_ok]
  constructor
  · rintro ⟨⟨n, q⟩, hread, hr⟩
    dsimp only at hr
    split at hr
    · cases hr
    · obtain ⟨b, hb, hr⟩ := bind_eq_ok.1 hr
      exact ⟨n, q, b, hread, hb, (ok.inj hr).symm⟩
  · rintro ⟨n, q, b, hread, hb, rfl⟩
    refine ⟨(n, q), hread, ?_⟩
    have hbounds := Slice.bounds_of_extract hb
    dsimp only
    rw [if_neg (by omega), hb]
    rfl

theorem cutPayload_fault (hp : 0 ≤ p) : (∃ f, cutPayload dAtA p = .fault f) ↔ ∃ n q, readVarint dAtA p = .ok (n, q) ∧
      0 ≤ wrapInt (q + n.toInt) ∧ wrapInt (q + n.toInt) < q := by
  cases hread : readVarint dAtA p with
  | ok r =>
    obtain ⟨n, q⟩ := r
    have hb := readVarint_bounds hread
    rw [cutPayload, hread, ok_bind]
    dsimp only
    constructor
    · rintro ⟨f, hf⟩
      split at hf
      · cases hf
      · refine ⟨n, q, rfl, by omega, ?_⟩
        by_contra hle
        rw [Slice.extract_eq_ok (by omega) (by omega) (by omega)] at hf
        cases hf
    · rintro ⟨n, q, hr, hlo, hhi⟩
      cases hr
      rw [if_neg (by omega), Slice.extract, if_neg (by omega)]
      exact ⟨_, rfl⟩
  | error e =>
    rw [cutPayload, hread]
    constructor
    · rintro ⟨f, hf⟩
      cases hf
    · rintro ⟨n, q, hr, -⟩
      cases hr
  | fault f => exact absurd hread (readVarint_ne_fault hp f)

theorem unmarshalString_eq_ok {r : Option Slice × Int} : unmarshalString field dAtA p wireType = .ok r ↔ wireType = 2 ∧
    ∃ b q, cutPayload dAtA p = .ok (b, q) ∧ r = (some b, q) := by
  unfold unmarshalString
  by_cases hwt : wireType = 2
  · rw [if_neg (not_not.2 hwt), bind_eq_ok]
    constructor
    · rintro ⟨⟨b, q⟩, hcut, hr⟩
      dsimp only at hr
      rw [unsafeString_eq] at hr
      exact ⟨hwt, b, q, hcut, (ok.inj hr).symm⟩
    · rintro ⟨-, b, q, hcut, rfl⟩
      exact ⟨(b, q), hcut, by simp⟩
  · rw [if_pos hwt]
    constructor
    · intro h
      cases h
    · rintro ⟨h, -⟩
      exact absurd h hwt

theorem unmarshalCase_eq_ok (hk : Codable k) (field : String) {r : Option (GoVal k) × Int} :
    unmarshalCase k field dAtA p wireType = .ok r ↔ ∃ v q, r = (some v, q) ∧ CaseRead dAtA p k wireType v q := by
  cases k with
  | int32 =>
    refine Iff.trans (unmarshalInt_eq_ok fun v => v.setWidth 32) ⟨?_, ?_⟩
    · rintro ⟨rfl, v, q, hread, rfl⟩
      exact ⟨_, _, rfl, .int32 v q hread⟩
    · rintro ⟨v, q, rfl, h⟩
      cases h with
      | int32 v q hread => exact ⟨rfl, v, q, hread, rfl⟩
  | int64 =>
    refine Iff.trans (unmarshalInt_eq_ok fun v => v) ⟨?_, ?_⟩
    · rintro ⟨rfl, v, q, hread, rfl⟩
      exact ⟨_, _, rfl, .int64 v q hread⟩
    · rintro ⟨v, q, rfl, h⟩
      cases h with
      | int64 v q hread => exact ⟨rfl, v, q, hread, rfl⟩
  | string =>
    refine Iff.trans unmarshalString_eq_ok ⟨?_, ?_⟩
    · rintro ⟨rfl, b, q, hcut, rfl⟩
      obtain ⟨n, q, b, hread, hb, hr⟩ := cutPayload_eq_ok.1 hcut
      cases hr
      exact ⟨_, _, rfl, .string n q hread b hb⟩
    · rintro ⟨v, q, rfl, h⟩
      cases h with
      | string n q hread _ hb =>
        exact ⟨rfl, v, _, cutPayload_eq_ok.2 ⟨n, q, v, hread, hb, rfl⟩, rfl⟩
  | _ => exact hk.elim

theorem unmarshalDefault_eq_ok : unmarshalDefault dAtA p wireType = .ok q ↔ DefaultRead dAtA p wireType q := by
  unfold unmarshalDefault
  rw [bind_eq_ok]
  constructor
  · rintro ⟨⟨v, q'⟩, hread, h⟩
    dsimp only at h
    split at h
    · rename_i hwt
      obtain rfl := ok.inj h
      exact hwt ▸ .varint v q' hread
    · split at h
      · rename_i hwt
        cases h
        exact hwt ▸ .delimited v q' hread
      · cases h
  · intro h
    cases h with
    | varint v q hread => exact ⟨(v, q), hread, rfl⟩
    | delimited n q hread => exact ⟨(n, q), hread, rfl⟩

theorem CaseRead.wireType_ne {v : GoVal k} (h : CaseRead dAtA p k wireType v q) : wireType ≠ 4 := by
  cases h <;> decide

theorem DefaultRead.wireType_ne (h : DefaultRead dAtA p wireType q) : wireType ≠ 4 := by
  cases h <;> decide

def KeyAt (dAtA : Slice) (o : Int) (fieldNum : BitVec 32) (wireType : Nat) (p : Int) : Prop :=
  ∃ i, readVarint dAtA o = .ok (i, p) ∧ (i >>> 3).setWidth 32 = fieldNum ∧ (i &&& 7).toNat = wireType

theorem KeyAt.bounds (h : KeyAt dAtA o fieldNum wireType p) : 0 ≤ o ∧ o < p ∧ p ≤ dAtA.len := by
  obtain ⟨i, hread, -, -⟩ := h
  exact readVarint_bounds hread

theorem keyAt_of_ok {r : β}
    (hdone : done ≠ .ok r) (h : (if o < dAtA.len then readVarint dAtA o >>= body else done) = .ok r) :
    o < dAtA.len ∧ ∃ fieldNum wireType p, KeyAt dAtA o fieldNum wireType p := by
  split at h
  · rename_i hlt
    obtain ⟨⟨i, p⟩, hread, -⟩ := bind_eq_ok.1 h
    exact ⟨hlt, _, _, p, i, hread, rfl, rfl⟩
  · exact absurd h hdone

theorem keyAt_of_fault (hpos : 0 ≤ o) {f : Fault}
    (hdone : done ≠ .fault f) (h : (if o < dAtA.len then readVarint dAtA o >>= body else done) = .fault f) :
    ∃ fieldNum wireType p, KeyAt dAtA o fieldNum wireType p := by
  split at h
  · rcases bind_eq_fault.1 h with hread | ⟨⟨i, p⟩, hread, -⟩
    · exact absurd hread (readVarint_ne_fault hpos f)
    · exact ⟨_, _, p, i, hread, rfl, rfl⟩
  · exact absurd h hdone

inductive Iteration (s : StructNode) (dAtA : Slice) : DecodeState s → DecodeState s → Prop where
  | known {o p q : Int} {x : GoStruct s} {fieldNum : BitVec 32} {wireType : Nat}
      {c : Fin s.fields.length} {v : GoVal (kindAt s c)} (hlt : o < dAtA.len)
      (hkey : KeyAt dAtA o fieldNum wireType p) (hc : caseOf s fieldNum = some c)
      (hread : CaseRead dAtA p (kindAt s c) wireType v q) :
      Iteration s dAtA ⟨o, x⟩ ⟨q, update x c v⟩
  | unknown {o p q : Int} {x : GoStruct s} {fieldNum : BitVec 32} {wireType : Nat}
      (hlt : o < dAtA.len) (hkey : KeyAt dAtA o fieldNum wireType p)
      (hc : caseOf s fieldNum = none) (hread : DefaultRead dAtA p wireType q) :
      Iteration s dAtA ⟨o, x⟩ ⟨q, x⟩

theorem unmarshalStep_of_key {x : GoStruct s} (hlt : o < dAtA.len) (hkey : KeyAt dAtA o fieldNum wireType p) :
    unmarshalStep s dAtA ⟨o, x⟩ = if wireType = 4 then .error (.endGroup s.name) else unmarshalSwitch s dAtA x
    (caseOf s fieldNum) p wireType >>= fun st => pure (.next st) := by
  obtain ⟨i, hread, rfl, rfl⟩ := hkey
  rw [unmarshalStep, if_pos hlt, hread]
  rfl

theorem steps_unmarshal_iff (hcod : AllCodable s) {st st' : DecodeState s} :
    Steps (unmarshalStep s dAtA) st st' ↔ Iteration s dAtA st st' := by
  obtain ⟨o, x⟩ := st
  constructor
  · intro h
    obtain ⟨hlt, fieldNum, wireType, p, hkey⟩ := keyAt_of_ok (by simp) h
    rw [Steps, unmarshalStep_of_key hlt hkey] at h
    split at h
    · cases h
    · obtain ⟨t, ht, h⟩ := bind_eq_ok.1 h
      obtain rfl := Flow.next.inj (ok.inj h)
      cases hc : caseOf s fieldNum with
      | some c =>
        rw [hc] at ht
        obtain ⟨r, hr, ht⟩ := bind_eq_ok.1 ht
        obtain ⟨v, q, rfl, hcase⟩ := (unmarshalCase_eq_ok (allCodable_at hcod c) _).1 hr
        cases ht
        exact .known hlt hkey hc hcase
      | none =>
        rw [hc] at ht
        obtain ⟨q, hq, ht⟩ := bind_eq_ok.1 ht
        cases ht
        exact .unknown hlt hkey hc (unmarshalDefault_eq_ok.1 hq)
  · intro h
    cases h with
    | known hlt hkey hc hread =>
      rename_i c v
      have hcase := (unmarshalCase_eq_ok (allCodable_at hcod c) (s.fields.get c).name).2 ⟨v, _, rfl, hread⟩
      rw [Steps, unmarshalStep_of_key hlt hkey, if_neg hread.wireType_ne, hc]
      simp only [unmarshalSwitch, hcase]
      rfl
    | unknown hlt hkey hc hread =>
      rw [Steps, unmarshalStep_of_key hlt hkey, if_neg hread.wireType_ne, hc]
      simp only [unmarshalSwitch, unmarshalDefault_eq_ok.2 hread]
      rfl

theorem wrapInt_payload {n : Nat} (size : len.value.toNat = payload.bytes.length)
    (hbound : n + (len.bytes ++ payload.bytes).length < 2 ^ 63) :
    wrapInt ((n : Int) + len.bytes.length + len.value.toInt) = n + (len.bytes ++ payload.bytes).length := by
  simp only [length_append] at hbound ⊢
  have hw := wrapInt_add_word (n + len.bytes.length) (by omega) len.value
  rw [if_pos (by omega), size] at hw
  push_cast at hw ⊢
  rw [hw]
  omega

theorem length_lt_of_append {a b c : Bytes} (h : dAtA.bytes = a ++ (b ++ c)) : a.length + b.length < 2 ^ 63 := by
  have hl := dAtA.len_lt
  rw [h, length_append, length_append] at hl
  omega

theorem readVarint_len (len : Varint) (payload : Bytes) (h : dAtA.bytes = pre ++ (len.bytes ++ payload ++ post)) :
    readVarint dAtA pre.length = .ok (len.value, pre.length + len.bytes.length) := by
  rw [append_assoc] at h
  exact readVarint_varint len h

theorem unmarshalInt_varint (convert : BitVec 64 → α) (field : String) (raw : Varint)
    (h : dAtA.bytes = pre ++ (raw.bytes ++ post)) : unmarshalInt convert field dAtA pre.length 0 =
      .ok (some (convert raw.value), pre.length + raw.bytes.length) := by
  rw [unmarshalInt, if_neg (fun hne => hne rfl), readVarint_varint raw h]
  rfl

theorem cutPayload_delimited (size : len.value.toNat = payload.bytes.length)
    (h : dAtA.bytes = pre ++ (len.bytes ++ payload.bytes ++ post)) : cutPayload dAtA pre.length =
      .ok (payload, pre.length + (len.bytes ++ payload.bytes).length) := by
  have hlen : dAtA.len = pre.length + (len.bytes ++ payload.bytes).length + post.length := by
    simp only [Slice.len, h, length_append]
    omega
  have hsub : dAtA.sub (pre.length + len.bytes.length)
      (pre.length + len.bytes.length + payload.bytes.length) = payload := by
    apply Slice.ext
    rw [← length_append]
    exact Slice.sub_append dAtA _ _ post (by rw [h]; simp only [append_assoc])
  have hlo : ((pre.length : Int) + len.bytes.length).toNat = pre.length + len.bytes.length := by omega
  have hhi : ((pre.length : Int) + (len.bytes ++ payload.bytes).length).toNat =
      pre.length + len.bytes.length + payload.bytes.length := by
    rw [length_append]
    omega
  -- a length that is really there does not overflow, so the cut is the payload
  refine cutPayload_eq_ok.2 ⟨len.value, _, payload, readVarint_len len payload.bytes h, ?_, ?_⟩
  · rw [wrapInt_payload size (length_lt_of_append h), Slice.extract_eq_ok (by omega)
      (by rw [length_append]; omega) (by omega), hlo, hhi, hsub]
  · rw [wrapInt_payload size (length_lt_of_append h)]

theorem unmarshalString_delimited (field : String) (size : len.value.toNat = payload.bytes.length)
    (h : dAtA.bytes = pre ++ (len.bytes ++ payload.bytes ++ post)) : unmarshalString field dAtA pre.length 2 =
      .ok (some payload, pre.length + (len.bytes ++ payload.bytes).length) :=
  unmarshalString_eq_ok.2 ⟨rfl, payload, _, cutPayload_delimited size h, rfl⟩

theorem unmarshalCase_body (hk : Codable k) (field : String) (body : Body) (hwt : body.wireType = wireTypeOf k)
    (h : dAtA.bytes = pre ++ (body.bytes ++ post)) : unmarshalCase k field dAtA pre.length body.wireType =
    .ok (some (bodyValue k body), (pre.length : Int) + body.bytes.length) := by
  cases kindBody_of_wireType hk hwt with
  | int32 raw => exact unmarshalInt_varint _ field raw h
  | int64 raw => exact unmarshalInt_varint (fun v => v) field raw h
  | string len payload size => exact unmarshalString_delimited field size h

theorem unmarshalDefault_body (body : Body) (hwt : body.wireType = 0 ∨ body.wireType = 2)
    (h : dAtA.bytes = pre ++ (body.bytes ++ post)) : unmarshalDefault dAtA pre.length body.wireType =
      .ok ((pre.length : Int) + body.bytes.length) := by
  cases body with
  | varint raw =>
    rw [unmarshalDefault, readVarint_varint raw h]
    rfl
  | fixed64 raw size => simp [Body.wireType] at hwt
  | delimited len payload size =>
    rw [unmarshalDefault, readVarint_len len payload.bytes h, ok_bind]
    show (if (2 : Nat) = 0 then _ else if (2 : Nat) = 2 then _ else _) = _
    rw [if_neg (by omega), if_pos rfl, wrapInt_payload size (length_lt_of_append h)]
    rfl

def applyRecord (s : StructNode) (x : GoStruct s) (r : Record) : GoStruct s :=
  match fieldOf s r with
  | some i => update x i (bodyValue (kindAt s i) r.body)
  | none => x

/-- A record that the loop reads completely: it has its declared wire type, and if it belongs to a
field, the field's kind is codable. -/
def Readable (s : StructNode) (r : Record) : Prop := Declared s r ∧ ∀ i, fieldOf s r = some i → Codable (kindAt s i)

theorem readable_of_allCodable (hcod : AllCodable s) (h : Declared s r) :
    Readable s r := ⟨h, fun i _ => allCodable_at hcod i⟩

theorem keyAt_record (r : Record) (h : dAtA.bytes = pre ++ (r.key.bytes ++ post)) :
    KeyAt dAtA pre.length (BitVec.ofNat 32 r.num) r.body.wireType (pre ++ r.key.bytes).length := by
  refine ⟨r.key.value, ?_, r.key_num, r.key_wireType⟩
  rw [readVarint_varint r.key h, length_append, Nat.cast_add]

theorem unmarshalStep_key (s : StructNode) (r : Record) (x : GoStruct s) (h : dAtA.bytes = pre ++ (r.key.bytes ++ post))
    :
    unmarshalStep s dAtA ⟨pre.length, x⟩ =
      (unmarshalSwitch s dAtA x (fieldOf s r) (pre ++ r.key.bytes).length r.body.wireType >>=
        fun st => pure (.next st)) := by
  have hkey := keyAt_record r h
  have hb := hkey.bounds
  have hwt := r.body.wireType_le
  rw [unmarshalStep_of_key (by omega) hkey, if_neg (by omega)]
  rfl

theorem unmarshalSwitch_body (hr : Readable s r) (x : GoStruct s) (h : dAtA.bytes = pre ++ (r.body.bytes ++ post)) :
    unmarshalSwitch s dAtA x (fieldOf s r) pre.length r.body.wireType =
      .ok ⟨(pre.length : Int) + r.body.bytes.length, applyRecord s x r⟩ := by
  obtain ⟨hdecl, hcod⟩ := hr
  cases hf : fieldOf s r with
  | none =>
    have hwt : r.body.wireType = 0 ∨ r.body.wireType = 2 := by simpa [Declared, hf] using hdecl
    simp only [applyRecord, hf, unmarshalSwitch, unmarshalDefault_body r.body hwt h]
    rfl
  | some c =>
    have hwt : r.body.wireType = wireTypeOf (kindAt s c) := by simpa [Declared, hf] using hdecl
    simp only [applyRecord, hf, unmarshalSwitch, unmarshalCase_body (hcod c hf) _ r.body hwt h]
    rfl

theorem unmarshalStep_record (hr : Readable s r) (x : GoStruct s) (h : dAtA.bytes = pre ++ (r.bytes ++ post)) : Steps
    (unmarshalStep s dAtA) ⟨pre.length, x⟩ ⟨(pre ++ r.bytes).length, applyRecord s x r⟩ := by
  have hkey : dAtA.bytes = pre ++ (r.key.bytes ++ (r.body.bytes ++ post)) := by rw [h, Record.bytes, append_assoc]
  have hbody : dAtA.bytes = (pre ++ r.key.bytes) ++ (r.body.bytes ++ post) := by rw [hkey, append_assoc]
  have hend : ((pre ++ r.key.bytes).length : Int) + r.body.bytes.length = (pre ++ r.bytes).length := by
    simp only [Record.bytes, length_append]
    omega
  rw [Steps, unmarshalStep_key s r x hkey, unmarshalSwitch_body hr x hbody, hend]
  rfl

theorem unmarshal_reaches (pre post : Bytes) (hrs : ∀ r ∈ rs, Readable s r) (x : GoStruct s)
    (h : dAtA.bytes = pre ++ (encodeRecords rs ++ post)) : Reaches (unmarshalStep s dAtA) ⟨pre.length, x⟩
      ⟨(pre ++ encodeRecords rs).length, rs.foldl (applyRecord s) x⟩ := by
  induction rs generalizing pre x with
  | nil =>
    rw [encodeRecords_nil, append_nil]
    exact Relation.ReflTransGen.refl
  | cons r rs ih =>
    rw [encodeRecords_cons, append_assoc] at h
    have hstep := unmarshalStep_record (hrs r (by simp)) x h
    have hrest := ih (pre ++ r.bytes) (fun q hq => hrs q (by simp [hq])) (applyRecord s x r) (by rw [h, append_assoc])
    rw [encodeRecords_cons, ← append_assoc]
    exact Relation.ReflTransGen.head hstep hrest

theorem unmarshalStep_end {iNdEx : Int} (x : GoStruct s) (h : dAtA.len ≤ iNdEx) :
    unmarshalStep s dAtA ⟨iNdEx, x⟩ = .ok (.ret x) := by
  rw [unmarshalStep, if_neg (by simp only; omega)]
  rfl

theorem foldl_applyRecord (hids : DistinctIds s) (rs : List Record) :
    rs.foldl (applyRecord s) (GoStruct.zero s) = lastValue s rs := by
  -- induction from the end, where the last record is split off
  induction rs using reverseRecOn with
  | nil => rfl
  | append_singleton rs r ih =>
    funext i
    rw [foldl_append, ih, lastValue, lastRecord_append_singleton]
    simp only [foldl_cons, foldl_nil, applyRecord]
    by_cases hnum : r.num = (s.fields.get i).id.toNat
    · rw [(fieldOf_eq_some_iff hids r i).2 hnum, if_pos hnum]
      simp
    · rw [if_neg hnum]
      cases hf : fieldOf s r with
      | none => rfl
      | some j =>
        have hij : i ≠ j := by
          rintro rfl
          exact hnum ((fieldOf_eq_some_iff hids r i).1 hf)
        simp only [update_of_ne hij]
        rfl

theorem unmarshal_records (hrs : ∀ r ∈ rs, Readable s r) (h : dAtA.bytes = encodeRecords rs) :
    Unmarshals s dAtA (.ok (rs.foldl (applyRecord s) (GoStruct.zero s))) := by
  have hreach := unmarshal_reaches [] [] hrs (GoStruct.zero s) (by simpa using h)
  refine (returns_reaches_iff hreach _).2 (returns_of_ret (unmarshalStep_end _ ?_))
  simp [Slice.len, h]

end HelixRpc.Codegen.Go
