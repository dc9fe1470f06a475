import HelixRpc.Codegen.Go.Messages

/-!
# Fields of other kinds in the generated `Unmarshal`

The generator writes a case label for every field and a case body only for `int32`, `int64` and `string`.
-/

namespace HelixRpc.Codegen.Go

open Foundation Compiler List

def Supported : Kind → Prop
  | .int32 | .int64 | .string | .bool | .binary | .double | .struct => True
  | _ => False

instance : DecidablePred Supported
  | .int32 | .int64 | .string | .bool | .binary | .double | .struct => .isTrue trivial
  | .void | .map | .list | .enum => .isFalse id

/-- A body is a valid value of a kind: it has the wire type of the kind, a `bool` is 0 or 1, and a
message is a sequence of records. -/
def ValidBody (k : Kind) (body : Body) : Prop := body.wireType = wireTypeOf k ∧ match k, body with
    | .bool, .varint raw => raw.value = 0 ∨ raw.value = 1
    | .struct, .delimited _ payload _ => ∃ rs, payload.bytes = encodeRecords rs
    | _, _ => True

variable (s : StructNode)

/-- A record is valid for a struct: its body is a valid value of its field, and a record of no field
is a varint or length-delimited. -/
def ValidRecord (r : Record) : Prop :=
  match fieldOf s r with
  | some i => ValidBody (kindAt s i) r.body
  | none => r.body.wireType = 0 ∨ r.body.wireType = 2

def OtherKind (r : Record) : Prop := ∃ i, fieldOf s r = some i ∧ ¬ Codable (kindAt s i)

def SameShape (r r' : Record) : Prop := r.num = r'.num ∧ (¬ OtherKind s r → r = r')

def DecodesCodable (rs : List Record) (dAtA : Slice) : Prop :=
  ∃ x, Unmarshals s dAtA (.ok x) ∧ ∀ i, Codable (kindAt s i) → x i = lastValue s rs i

variable {s : StructNode} {r : Record} {dAtA : Slice} {pre : Bytes} {rs : List Record}

theorem declared_of_valid (h : ValidRecord s r) : Declared s r := by
  unfold ValidRecord at h
  unfold Declared
  cases hf : fieldOf s r with
  | none => simpa only [hf] using h
  | some i =>
    simp only [hf] at h
    exact h.1

theorem readable_of_valid (h : ValidRecord s r) (ho : ¬ OtherKind s r) : Readable s r := by
  refine ⟨declared_of_valid h, ?_⟩
  intro i hi
  by_contra hk
  exact ho ⟨i, hi, hk⟩

variable {k : Kind} {rest : Bytes} {b : UInt8} {m : Nat}

theorem unmarshalCase_other (hk : ¬ Codable k) (field : String) (dAtA : Slice) (iNdEx : Int) (wireType : Nat) :
    unmarshalCase k field dAtA iNdEx wireType = .ok (none, iNdEx) := by
  cases k with
  | int32 => exact absurd trivial hk
  | int64 => exact absurd trivial hk
  | string => exact absurd trivial hk
  | _ => rfl

theorem unmarshalStep_other {post : Bytes} (ho : OtherKind s r) (x : GoStruct s)
    (h : dAtA.bytes = pre ++ (r.key.bytes ++ post)) :
    Steps (unmarshalStep s dAtA) ⟨pre.length, x⟩ ⟨(pre ++ r.key.bytes).length, x⟩ := by
  obtain ⟨i, hf, hk⟩ := ho
  rw [Steps, unmarshalStep_key s r x h, hf]
  simp only [unmarshalSwitch, unmarshalCase_other hk]
  rfl

def disturbingBody : Kind → Body
  | .double => .fixed64 [1, 0, 0, 0, 0, 0, 0, 0] rfl
  | .binary => Record.sliceBody ⟨[0], by decide⟩
  -- one record of the largest field number, with the value 0
  | .struct => Record.sliceBody ⟨[0xf8, 0xff, 0xff, 0xff, 0x0f, 0x00], by decide⟩
  | _ => Record.wordBody 1

def innerRecord : Record := .ofBody (2 ^ 29 - 1) (by decide) (by decide) (Record.wordBody 0)

theorem length_disturbingBody (k : Kind) : (disturbingBody k).bytes.length ≤ 8 := by
  cases k <;> decide

theorem validBody_disturbing (hs : Supported k) (hk : ¬ Codable k) : ValidBody k (disturbingBody k) := by
  cases k with
  | bool => exact ⟨rfl, Or.inr rfl⟩
  | binary => exact ⟨rfl, trivial⟩
  | double => exact ⟨rfl, trivial⟩
  | struct => exact ⟨rfl, [innerRecord], rfl⟩
  | int32 => exact absurd trivial hk
  | int64 => exact absurd trivial hk
  | string => exact absurd trivial hk
  | _ => exact hs.elim

theorem disturbingBody_head (hs : Supported k) (hk : ¬ Codable k) :
    ∃ (b : UInt8) (rest : Bytes), (disturbingBody k).bytes = b :: rest ∧ (b = 1 ∨ b = 6) := by
  cases k with
  | bool => exact ⟨1, [], rfl, Or.inl rfl⟩
  | binary => exact ⟨1, [0], rfl, Or.inl rfl⟩
  | double => exact ⟨1, [0, 0, 0, 0, 0, 0, 0], rfl, Or.inl rfl⟩
  | struct => exact ⟨6, [0xf8, 0xff, 0xff, 0xff, 0x0f, 0x00], rfl, Or.inr rfl⟩
  | int32 => exact absurd trivial hk
  | int64 => exact absurd trivial hk
  | string => exact absurd trivial hk
  | _ => exact hs.elim

theorem keyAt_head (hb : b = 1 ∨ b = 6) (h : dAtA.bytes = pre ++ b :: rest) :
    ∃ wireType, KeyAt dAtA pre.length 0 wireType (pre.length + 1) ∧ wireType ≠ 0 ∧ wireType ≠ 2 := by
  have hloop := readVarint_eq_loop h (cons_ne_nil b rest)
  rcases hb with rfl | rfl
  · exact ⟨1, ⟨1, hloop.trans rfl, rfl, rfl⟩, by decide, by decide⟩
  · exact ⟨6, ⟨6, hloop.trans rfl, rfl, rfl⟩, by decide, by decide⟩

theorem unmarshalStep_head (hids : IdsUpTo m s) (hb : b = 1 ∨ b = 6)
    (x : GoStruct s) (h : dAtA.bytes = pre ++ b :: rest) : ∃ e, unmarshalStep s dAtA ⟨pre.length, x⟩ = .error e := by
  obtain ⟨wireType, hkey, h0, h2⟩ := keyAt_head hb h
  have hbounds := hkey.bounds
  -- no field has the number 0
  have hnone : caseOf s 0 = none := by
    rw [caseOf_eq_none_iff]
    intro i hi
    have := (idsUpTo_at hids i).1
    rw [hi] at this
    exact absurd this (by decide)
  have hdef : ∃ e, unmarshalDefault dAtA (pre.length + 1) wireType = .error e := by
    cases hread : readVarint dAtA (pre.length + 1) with
    | ok r => exact ⟨.unmarshalSkip, by simp [unmarshalDefault, hread, h0, h2]⟩
    | error e => exact ⟨e, by simp [unmarshalDefault, hread]⟩
    | fault f => exact absurd hread (readVarint_ne_fault (by omega) f)
  rw [unmarshalStep_of_key (by omega) hkey, hnone]
  by_cases h4 : wireType = 4
  · exact ⟨_, if_pos h4⟩
  · obtain ⟨e, he⟩ := hdef
    rw [if_neg h4]
    simp only [unmarshalSwitch, he]
    exact ⟨e, rfl⟩

theorem exists_disturbing (hsup : ∀ f ∈ s.fields, Supported f.kind) (hvalid : ValidRecord s r) (ho : OtherKind s r) : ∃
    (r' : Record) (b : UInt8) (rest : Bytes), SameShape s r r' ∧ ValidRecord s r' ∧ OtherKind s r' ∧ r'.bytes.length ≤
    r.bytes.length + 8 ∧ r'.body.bytes = b :: rest ∧ (b = 1 ∨ b = 6) := by
  obtain ⟨i, hf, hk⟩ := ho
  have hs : Supported (kindAt s i) := hsup _ (get_mem _ _)
  have hbody := validBody_disturbing hs hk
  have hwt : r.body.wireType = wireTypeOf (kindAt s i) := by
    have hd := declared_of_valid hvalid
    simpa only [Declared, hf] using hd
  -- the wire type is the same, so the key stays
  let r' : Record := ⟨r.num, r.key, disturbingBody (kindAt s i), r.num_pos, r.num_lt, by rw [r.key_value, hwt, hbody.1]⟩
  have hf' : fieldOf s r' = some i := hf
  obtain ⟨b, rest, hbytes, hb⟩ := disturbingBody_head hs hk
  refine ⟨r', b, rest, ⟨rfl, ?_⟩, ?_, ⟨i, hf', hk⟩, ?_, hbytes, hb⟩
  · intro hno
    exact absurd ⟨i, hf, hk⟩ hno
  · simp only [ValidRecord, hf']
    exact hbody
  · have hlen := length_disturbingBody (kindAt s i)
    show (r.key.bytes ++ (disturbingBody (kindAt s i)).bytes).length ≤ _
    simp only [Record.bytes, length_append]
    omega

theorem exists_first_other (h : ∃ r ∈ rs, OtherKind s r) :
    ∃ as r bs, rs = as ++ r :: bs ∧ OtherKind s r ∧ ∀ q ∈ as, ¬ OtherKind s q := by
  induction rs with
  | nil =>
    obtain ⟨r, hr, -⟩ := h
    cases hr
  | cons q qs ih =>
    by_cases hq : OtherKind s q
    · refine ⟨[], q, qs, rfl, hq, ?_⟩
      intro p hp
      cases hp
    · have hrest : ∃ r ∈ qs, OtherKind s r := by
        obtain ⟨r, hr, ho⟩ := h
        rcases mem_cons.1 hr with rfl | hr
        · exact absurd ho hq
        · exact ⟨r, hr, ho⟩
      obtain ⟨as, r, bs, rfl, ho, has⟩ := ih hrest
      refine ⟨q :: as, r, bs, rfl, ho, ?_⟩
      intro p hp
      rcases mem_cons.1 hp with rfl | hp
      · exact hq
      · exact has p hp

theorem sameShape_refl (s : StructNode) (rs : List Record) : Forall₂ (SameShape s) rs rs := by
  induction rs with
  | nil => exact .nil
  | cons r rs ih => exact .cons ⟨rfl, fun _ => rfl⟩ ih

theorem eq_of_sameShape {rs' : List Record} (h : Forall₂ (SameShape s) rs rs') (ho : ∀ r ∈ rs, ¬ OtherKind s r) :
    rs' = rs := by
  induction h with
  | nil => rfl
  | cons hr _ ih =>
    have hhead := hr.2 (ho _ (by simp))
    have htail := ih fun q hq => ho q (by simp [hq])
    rw [hhead, htail]

theorem exists_rejected (hids : IdsUpTo m s) (hsup : ∀ f ∈ s.fields, Supported f.kind) (hvalid : ∀ r ∈ rs,
    ValidRecord s r) (hroom : (encodeRecords rs).length + 8 < 2 ^ 63) (ho : ∃ r ∈ rs, OtherKind s r) : ∃ rs',
    Forall₂ (SameShape s) rs rs' ∧ (∀ r ∈ rs', ValidRecord s r) ∧ ∃ dAtA : Slice, dAtA.bytes = encodeRecords rs' ∧ ∃ e,
    Unmarshals s dAtA (.error e) := by
  obtain ⟨as, r, bs, rfl, ho, has⟩ := exists_first_other ho
  obtain ⟨r', b, rest, hshape, hvalid', ho', hlen, hbytes, hb⟩ :=
    exists_disturbing hsup (hvalid r (by simp)) ho
  have hsplit : encodeRecords (as ++ r' :: bs) = encodeRecords as ++ (r'.bytes ++ encodeRecords bs) := by
    rw [encodeRecords_append, encodeRecords_cons]
  have hshort : (encodeRecords (as ++ r' :: bs)).length < 2 ^ 63 := by
    rw [encodeRecords_append, encodeRecords_cons] at hroom
    rw [hsplit]
    simp only [length_append] at hroom ⊢
    omega
  obtain ⟨dAtA, hdAtA⟩ : ∃ dAtA : Slice, dAtA.bytes = encodeRecords (as ++ r' :: bs) := ⟨⟨_, hshort⟩, rfl⟩
  refine ⟨as ++ r' :: bs, ?_, ?_, dAtA, hdAtA, ?_⟩
  · exact rel_append (sameShape_refl s as) (.cons hshape (sameShape_refl s bs))
  · intro q hq
    rcases mem_append.1 hq with hq | hq
    · exact hvalid q (by simp [hq])
    · rcases mem_cons.1 hq with rfl | hq
      · exact hvalid'
      · exact hvalid q (by simp [hq])
  · -- the records before it are read, then its key, and then the first byte of its value
    rw [hsplit] at hdAtA
    have hreach := unmarshal_reaches [] (r'.bytes ++ encodeRecords bs)
      (fun q hq => readable_of_valid (hvalid q (by simp [hq])) (has q hq)) (GoStruct.zero s) hdAtA
    rw [nil_append] at hreach
    have hkey : dAtA.bytes = encodeRecords as ++ (r'.key.bytes ++ (b :: (rest ++ encodeRecords bs))) := by
      rw [hdAtA, Record.bytes, hbytes]
      simp
    have hstep := unmarshalStep_other ho' (as.foldl (applyRecord s) (GoStruct.zero s)) hkey
    rw [← append_assoc] at hkey
    obtain ⟨e, he⟩ := unmarshalStep_head hids hb (as.foldl (applyRecord s) (GoStruct.zero s)) hkey
    exact ⟨e, (returns_reaches_iff (hreach.tail hstep) _).2 (returns_of_error he)⟩

/-- The codable fields of a message are decoded for all values of the other fields exactly when the
message has no record of another kind. -/
theorem unmarshal_other_kinds_iff {s : StructNode} (hdist : DistinctIds s) (hids : IdsUpTo (2 ^ 29 - 1) s)
    (hsup : ∀ f ∈ s.fields, Supported f.kind) {rs : List Record} (hvalid : ∀ r ∈ rs, ValidRecord s r)
    (hroom : (encodeRecords rs).length + 8 < 2 ^ 63) : (∀ rs', Forall₂ (SameShape s) rs rs' →
    (∀ r ∈ rs', ValidRecord s r) → ∀ dAtA : Slice, dAtA.bytes = encodeRecords rs' → DecodesCodable s rs' dAtA) ↔
    ∀ r ∈ rs, ¬ OtherKind s r := by
  constructor
  · intro hall r hr ho
    obtain ⟨rs', hshape, hvalid', dAtA, hbytes, e, he⟩ :=
      exists_rejected hids hsup hvalid hroom ⟨r, hr, ho⟩
    obtain ⟨x, hx, -⟩ := hall rs' hshape hvalid' dAtA hbytes
    exact absurd (returns_unique he hx) (by simp)
  · intro hno rs' hshape _ dAtA hbytes
    -- nothing can vary, and all records are readable
    obtain rfl := eq_of_sameShape hshape hno
    refine ⟨lastValue s rs', ?_, fun i _ => rfl⟩
    rw [← foldl_applyRecord hdist]
    exact unmarshal_records (fun r hr => readable_of_valid (hvalid r hr) (hno r hr)) hbytes

def flagStruct : StructNode where
  name := "Flag"
  fields := [⟨"enabled", 1, ⟨.bool, "", none, none⟩, false⟩, ⟨"count", 2, ⟨.int64, "", none, none⟩, false⟩]

def countRecord : Record := .ofIndex 1 (Record.wordBody 7)

def enabledRecord : Record := .ofIndex 0 (Record.wordBody 1)

theorem validRecord_count : ValidRecord flagStruct countRecord := ⟨rfl, trivial⟩

theorem validRecord_enabled : ValidRecord flagStruct enabledRecord := ⟨rfl, Or.inr rfl⟩

theorem unmarshal_other_kinds_iff_count : DecodesCodable flagStruct [countRecord] ⟨[0x10, 0x07], by decide⟩ := by
  have hvalid : ∀ r ∈ [countRecord], ValidRecord flagStruct r := by
    intro r hr
    rw [mem_singleton.1 hr]
    exact validRecord_count
  have hnone : ∀ r ∈ [countRecord], ¬ OtherKind flagStruct r := by
    rintro r hr ⟨i, hf, hk⟩
    rw [mem_singleton.1 hr] at hf
    cases hf
    exact hk trivial
  apply (unmarshal_other_kinds_iff (by decide) (by decide) (by decide) hvalid (by decide)).2 hnone
  · exact sameShape_refl flagStruct [countRecord]
  · exact hvalid
  · rfl

theorem unmarshal_rejects_enabled : (∀ r ∈ [enabledRecord, countRecord], ValidRecord flagStruct r) ∧
      encodeRecords [enabledRecord, countRecord] = [0x08, 0x01, 0x10, 0x07] ∧
      Unmarshals flagStruct ⟨[0x08, 0x01, 0x10, 0x07], by decide⟩ (.error .unmarshalSkip) ∧
      ¬ DecodesCodable flagStruct [enabledRecord, countRecord]
        ⟨[0x08, 0x01, 0x10, 0x07], by decide⟩ := by
  have herr : Unmarshals flagStruct ⟨[0x08, 0x01, 0x10, 0x07], by decide⟩
      (.error .unmarshalSkip) := ⟨2, rfl⟩
  refine ⟨?_, rfl, herr, ?_⟩
  · intro r hr
    rcases mem_pair.1 hr with rfl | rfl
    · exact validRecord_enabled
    · exact validRecord_count
  · rintro ⟨x, hx, -⟩
    exact absurd (returns_unique herr hx) (by simp)

end HelixRpc.Codegen.Go
