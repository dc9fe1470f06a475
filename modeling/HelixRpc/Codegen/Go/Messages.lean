import HelixRpc.Codegen.Go.Unmarshal

/-!
# Messages read by the generated `Unmarshal`

Two results about `Unmarshal` on record sequences.
-/

namespace HelixRpc.Codegen.Go

open Foundation Compiler List
variable {dAtA : Slice} {pre cut rest : Bytes} {s : StructNode}

theorem foldl_applyRecord_known (rs : List Record) (x : GoStruct s) :
    (rs.filter fun r => (fieldOf s r).isSome).foldl (applyRecord s) x = rs.foldl (applyRecord s) x := by
  induction rs generalizing x with
  | nil => rfl
  | cons r rs ih =>
    cases hf : fieldOf s r with
    | none =>
      rw [filter_cons_of_neg (by simp [hf]), ih, foldl_cons]
      simp only [applyRecord, hf]
    | some i => rw [filter_cons_of_pos (by simp [hf]), foldl_cons, ih, foldl_cons]

/-- A message of well-formed records is accepted. -/
theorem unmarshal_last_wins {s : StructNode} (hcod : AllCodable s) (hids : DistinctIds s) {rs : List Record}
    (hrs : ∀ r ∈ rs, Declared s r) {dAtA known : Slice} (h : dAtA.bytes = encodeRecords rs)
    (hknown : known.bytes = encodeRecords (rs.filter fun r => (fieldOf s r).isSome)) : Unmarshals s dAtA
    (.ok (lastValue s rs)) ∧ Unmarshals s known (.ok (lastValue s rs)) := by
  have hread : ∀ r ∈ rs, Readable s r := fun r hr => readable_of_allCodable hcod (hrs r hr)
  rw [← foldl_applyRecord hids rs]
  refine ⟨unmarshal_records hread h, ?_⟩
  rw [← foldl_applyRecord_known rs]
  exact unmarshal_records (fun r hr => hread r (mem_filter.1 hr).1) hknown

def idRecord : Record := .ofIndex 0 (Record.wordBody 7)

def profileRecords : List Record := [idRecord, .ofIndex 8 (Record.wordBody 5),
    .ofIndex 1 (Record.sliceBody ⟨[0x61], by decide⟩), .ofIndex 0 (Record.wordBody 8)]

theorem unmarshal_last_wins_profile : Unmarshals userProfile ⟨[0x08, 7, 0x48, 5, 0x12, 1, 0x61, 0x08, 8], by decide⟩
        (.ok (lastValue userProfile profileRecords)) ∧
      Unmarshals userProfile ⟨[0x08, 7, 0x12, 1, 0x61, 0x08, 8], by decide⟩
        (.ok (lastValue userProfile profileRecords)) :=
  unmarshal_last_wins (by decide) (by decide)
    (show ∀ r ∈ profileRecords, Declared userProfile r by decide) rfl rfl

/-- Bytes of a body that come before a payload: the whole body, except for a length-delimited one,
where it is the length varint. -/
def headLength : Body → Nat
  | .varint raw => raw.bytes.length
  | .fixed64 raw _ => raw.length
  | .delimited len _ _ => len.bytes.length

/-- The record is length-delimited, its field is unknown, and the cut leaves its key and its length
varint in place. -/
def SkippedCut (s : StructNode) (r : Record) (cut : Bytes) : Prop :=
  fieldOf s r = none ∧ r.body.wireType = 2 ∧ r.key.bytes.length + headLength r.body ≤ cut.length

instance (s : StructNode) (r : Record) (cut : Bytes) : Decidable (SkippedCut s r cut) :=
  inferInstanceAs (Decidable (_ ∧ _ ∧ _))

variable {k : Kind} {r : Record} {body : Body}

theorem unmarshalCase_wrong (hk : Codable k) (field : String) (dAtA : Slice)
    (iNdEx : Int) {wireType : Nat} (hwt : wireType ≠ wireTypeOf k) :
    unmarshalCase k field dAtA iNdEx wireType = .error (.wrongWireType wireType (capName field)) := by
  cases k with
  | int32 => exact if_pos hwt
  | int64 => exact if_pos hwt
  | string => exact if_pos hwt
  | _ => exact hk.elim

theorem unmarshalStep_wrong (hcod : AllCodable s) {post : Bytes}
    (hwt : r.body.wireType = 0 ∨ r.body.wireType = 2) (hdecl : ¬ Declared s r) (x : GoStruct s)
    (h : dAtA.bytes = pre ++ (r.key.bytes ++ post)) : ∃ e, unmarshalStep s dAtA ⟨pre.length, x⟩ = .error e := by
  rw [unmarshalStep_key s r x h]
  cases hf : fieldOf s r with
  | none => exact absurd (by simpa [Declared, hf] using hwt) hdecl
  | some c =>
    have hne : r.body.wireType ≠ wireTypeOf (kindAt s c) := by simpa [Declared, hf] using hdecl
    simp only [unmarshalSwitch, unmarshalCase_wrong (allCodable_at hcod c) _ _ _ hne]
    exact ⟨_, rfl⟩

theorem returns_error_of_wrong (hcod : AllCodable s) (pre post : Bytes) {rs : List Record} (hwt : ∀ r ∈ rs,
    r.body.wireType = 0 ∨ r.body.wireType = 2) (hbad : ∃ r ∈ rs, ¬ Declared s r) (x : GoStruct s) (h : dAtA.bytes =
    pre ++ (encodeRecords rs ++ post)) : ∃ e, Returns (unmarshalStep s dAtA) ⟨pre.length, x⟩ (.error e) := by
  induction rs generalizing pre x with
  | nil =>
    obtain ⟨r, hr, -⟩ := hbad
    simp at hr
  | cons r rs ih =>
    rw [encodeRecords_cons, append_assoc] at h
    -- the loop goes on to the first record with a wrong wire type and stops there
    by_cases hdecl : Declared s r
    · have hrest : ∃ q ∈ rs, ¬ Declared s q := by
        obtain ⟨q, hq, hnd⟩ := hbad
        rcases mem_cons.1 hq with rfl | hq
        · exact absurd hdecl hnd
        · exact ⟨q, hq, hnd⟩
      have hstep := unmarshalStep_record (readable_of_allCodable hcod hdecl) x h
      obtain ⟨e, he⟩ := ih (pre ++ r.bytes) (fun q hq => hwt q (by simp [hq])) hrest
        (applyRecord s x r) (by rw [h, append_assoc])
      exact ⟨e, (returns_step_iff hstep _).2 he⟩
    · have hkey : dAtA.bytes = pre ++ (r.key.bytes ++ (r.body.bytes ++ (encodeRecords rs ++ post))) := by
        rw [h, Record.bytes, append_assoc]
      obtain ⟨e, he⟩ := unmarshalStep_wrong hcod (hwt r (by simp)) hdecl x hkey
      exact ⟨e, returns_of_error he⟩

theorem readVarint_headCut {c : Bytes} (v : Varint) (hc : c ≠ []) (hv : v.bytes = cut ++ c)
    (h : dAtA.bytes = pre ++ cut) : readVarint dAtA pre.length = .error .varintEOF :=
  readVarint_cut h (continues_of_isVarint_append (hv ▸ v.complete) hc)

theorem unmarshalInt_cut {α : Type} (convert : BitVec 64 → α) (field : String) {raw : Varint} (hrest : rest ≠ [])
    (hcut : raw.bytes = cut ++ rest) (h : dAtA.bytes = pre ++ cut) :
    ∃ e, unmarshalInt convert field dAtA pre.length 0 = .error e := by
  rw [unmarshalInt, if_neg (fun hne => hne rfl), readVarint_headCut raw hrest hcut h]
  exact ⟨_, rfl⟩

theorem unmarshalString_cut (field : String) {len : Varint} {payload : Slice}
    (size : len.value.toNat = payload.bytes.length) (hrest : rest ≠ [])
    (hcut : len.bytes ++ payload.bytes = cut ++ rest)
    (hbound : pre.length + (len.bytes ++ payload.bytes).length < 2 ^ 63) (h : dAtA.bytes = pre ++ cut) :
    ∃ e, unmarshalString field dAtA pre.length 2 = .error e := by
  rw [unmarshalString, if_neg (fun hne => hne rfl), cutPayload]
  rcases cut_cases hcut with ⟨c, hc, hlen⟩ | ⟨d, hd, hpay⟩
  · rw [readVarint_headCut len hc hlen h]
    exact ⟨_, rfl⟩
  · rw [readVarint_varint len (hd ▸ h), Outcome.ok_bind]
    simp only [wrapInt_payload size hbound]
    -- the payload ends behind the buffer by the missing bytes
    have hpos := length_pos_iff.2 hrest
    have hmiss : dAtA.len < pre.length + (len.bytes ++ payload.bytes).length := by
      simp only [Slice.len, h, hcut, length_append]
      omega
    rw [if_pos (Or.inr hmiss)]
    exact ⟨_, rfl⟩

theorem unmarshalCase_cut (hk : Codable k) (field : String) (hrest : rest ≠ [])
    (hcut : body.bytes = cut ++ rest) (hbound : pre.length + body.bytes.length < 2 ^ 63) (h : dAtA.bytes = pre ++ cut) :
    ∃ e, unmarshalCase k field dAtA pre.length body.wireType = .error e := by
  by_cases hwt : body.wireType = wireTypeOf k
  · cases kindBody_of_wireType hk hwt with
    | int32 raw => exact unmarshalInt_cut (fun v => v.setWidth 32) field hrest hcut h
    | int64 raw => exact unmarshalInt_cut (fun v => v) field hrest hcut h
    | string len payload size => exact unmarshalString_cut field size hrest hcut hbound h
  · exact ⟨_, unmarshalCase_wrong hk field dAtA _ hwt⟩

theorem unmarshalDefault_cut (hwt : body.wireType = 0 ∨ body.wireType = 2) (hrest : rest ≠ [])
    (hcut : body.bytes = cut ++ rest) (hbound : pre.length + body.bytes.length < 2 ^ 63) (h : dAtA.bytes = pre ++ cut) :
    unmarshalDefault dAtA pre.length body.wireType = if body.wireType = 2 ∧ headLength body ≤
    cut.length then .ok ((pre.length : Int) + body.bytes.length) else .error .varintEOF := by
  cases body with
  | varint raw =>
    rw [if_neg (fun hc => absurd hc.1 (show (0 : Nat) ≠ 2 by decide)), unmarshalDefault,
      readVarint_headCut raw hrest hcut h]
    rfl
  | fixed64 raw size =>
    rcases hwt with h0 | h2
    · exact absurd h0 (show (1 : Nat) ≠ 0 by decide)
    · exact absurd h2 (show (1 : Nat) ≠ 2 by decide)
  | delimited len payload size =>
    rcases cut_cases hcut with ⟨c, hc, hlen⟩ | ⟨d, hd, hpay⟩
    · have hshort : ¬ len.bytes.length ≤ cut.length := by
        have := length_pos_iff.2 hc
        rw [hlen, length_append]
        omega
      rw [if_neg (fun hh => hshort hh.2), unmarshalDefault, readVarint_headCut len hc hlen h]
      rfl
    · have hlong : len.bytes.length ≤ cut.length := by
        rw [hd, length_append]
        omega
      rw [if_pos ⟨rfl, hlong⟩, unmarshalDefault, readVarint_varint len (hd ▸ h), Outcome.ok_bind]
      show (if (2 : Nat) = 0 then _ else if (2 : Nat) = 2 then _ else _) = _
      rw [if_neg (by omega), if_pos rfl, wrapInt_payload size hbound]
      rfl

theorem unmarshalStep_cut (hcod : AllCodable s) (hwt : r.body.wireType = 0 ∨ r.body.wireType = 2)
    (hcut : CutRecord r cut) (hbound : pre.length + r.bytes.length < 2 ^ 63) (x : GoStruct s)
    (h : dAtA.bytes = pre ++ cut) : (SkippedCut s r cut → ∃ o, dAtA.len ≤ o ∧
      Steps (unmarshalStep s dAtA) ⟨pre.length, x⟩ ⟨o, x⟩) ∧
    (¬ SkippedCut s r cut → ∃ e, unmarshalStep s dAtA ⟨pre.length, x⟩ = .error e) := by
  obtain ⟨hne, rest, hrest, hr⟩ := hcut
  rcases cut_cases hr with ⟨c, hc, hkey⟩ | ⟨d, hd, hbody⟩
  · -- the cut is inside the key
    have hread := readVarint_headCut r.key hc hkey h
    have hlt : (pre.length : Int) < dAtA.len := by
      have := length_pos_iff.2 hne
      simp only [Slice.len, h, length_append]
      omega
    refine ⟨fun hskip => ?_, fun _ => ⟨.varintEOF, ?_⟩⟩
    · have hlen := hskip.2.2
      have := length_pos_iff.2 hc
      rw [hkey, length_append] at hlen
      omega
    · rw [unmarshalStep, if_pos hlt, hread]
      rfl
  · -- the key is complete and the cut is inside the body
    subst hd
    have hbody' : dAtA.bytes = (pre ++ r.key.bytes) ++ d := by rw [h, append_assoc]
    have hbound' : (pre ++ r.key.bytes).length + r.body.bytes.length < 2 ^ 63 := by
      simp only [Record.bytes, length_append] at hbound ⊢
      omega
    simp only [Steps, unmarshalStep_key s r x h]
    cases hf : fieldOf s r with
    | some i =>
      obtain ⟨e, he⟩ := unmarshalCase_cut (allCodable_at hcod i) (s.fields.get i).name hrest hbody hbound' hbody'
      refine ⟨fun hskip => absurd hskip.1 (by simp [hf]), fun _ => ⟨e, ?_⟩⟩
      simp only [unmarshalSwitch, he]
      rfl
    | none =>
      have hdef := unmarshalDefault_cut hwt hrest hbody hbound' hbody'
      have hiff : SkippedCut s r (r.key.bytes ++ d) ↔ r.body.wireType = 2 ∧ headLength r.body ≤ d.length := by
        simp [SkippedCut, hf]
      rw [hiff]
      refine ⟨fun hskip => ?_, fun hskip => ⟨.varintEOF, ?_⟩⟩
      · rw [if_pos hskip] at hdef
        refine ⟨_, ?_, by simp only [unmarshalSwitch, hdef]; rfl⟩
        simp only [Slice.len, hbody', hbody, length_append]
        omega
      · rw [if_neg hskip] at hdef
        simp only [unmarshalSwitch, hdef]
        rfl

/-- A message cut inside a record is rejected, unless the cut is in the payload of an unknown field
and no record before it has a wrong wire type. -/
theorem unmarshal_cut_error_iff {s : StructNode} (hcod : AllCodable s) {rs more : List Record}
    {r : Record} (hwt : ∀ q ∈ rs ++ r :: more, q.body.wireType = 0 ∨ q.body.wireType = 2)
    {whole : Slice} (hwhole : whole.bytes = encodeRecords (rs ++ r :: more)) {cut : Bytes}
    (hcut : CutRecord r cut) {dAtA : Slice} (h : dAtA.bytes = encodeRecords rs ++ cut) :
    (∃ e, Unmarshals s dAtA (.error e)) ↔ ¬ SkippedCut s r cut ∨ ∃ q ∈ rs, ¬ Declared s q := by
  have hrs : ∀ q ∈ rs, q.body.wireType = 0 ∨ q.body.wireType = 2 :=
    fun q hq => hwt q (by simp [hq])
  by_cases hall : ∀ q ∈ rs, Declared s q
  · -- the loop reaches the cut record
    have hbound : (encodeRecords rs).length + r.bytes.length < 2 ^ 63 := by
      rw [encodeRecords_append, encodeRecords_cons] at hwhole
      exact length_lt_of_append hwhole
    have hreach := unmarshal_reaches [] cut (fun q hq => readable_of_allCodable hcod (hall q hq)) (GoStruct.zero s) h
    rw [nil_append] at hreach
    obtain ⟨hskip, hnoskip⟩ := unmarshalStep_cut hcod (hwt r (by simp)) hcut hbound
      (rs.foldl (applyRecord s) (GoStruct.zero s)) h
    constructor
    · rintro ⟨e, he⟩
      refine Or.inl fun hs => ?_
      obtain ⟨o, ho, hstep⟩ := hskip hs
      have hok : Unmarshals s dAtA (.ok (rs.foldl (applyRecord s) (GoStruct.zero s))) :=
        (returns_reaches_iff (hreach.tail hstep) _).2 (returns_of_ret (unmarshalStep_end _ ho))
      simpa using returns_unique he hok
    · rintro (hs | ⟨q, hq, hbad⟩)
      · obtain ⟨e, he⟩ := hnoskip hs
        exact ⟨e, (returns_reaches_iff hreach _).2 (returns_of_error he)⟩
      · exact absurd (hall q hq) hbad
  · have hbad : ∃ q ∈ rs, ¬ Declared s q := by
      by_contra hno
      exact hall fun q hq => by_contra fun hq' => hno ⟨q, hq, hq'⟩
    exact ⟨fun _ => Or.inr hbad, fun _ =>
      returns_error_of_wrong hcod [] cut hrs hbad (GoStruct.zero s) h⟩

def nameRecord : Record := .ofIndex 1 (Record.sliceBody ⟨[0x61, 0x62, 0x63, 0x64, 0x65], by decide⟩)

def noteRecord : Record := .ofIndex 8 (Record.sliceBody ⟨[0x61, 0x62, 0x63, 0x64, 0x65], by decide⟩)

theorem unmarshal_cut_error_iff_name :
    ∃ e, Unmarshals userProfile ⟨[0x08, 7, 0x12, 5, 0x61], by decide⟩ (.error e) := by
  have hwt : ∀ q ∈ [idRecord] ++ nameRecord :: [], q.body.wireType = 0 ∨ q.body.wireType = 2 := by decide
  have hwhole : (⟨[0x08, 7, 0x12, 5, 0x61, 0x62, 0x63, 0x64, 0x65], by decide⟩ : Slice).bytes =
      encodeRecords ([idRecord] ++ nameRecord :: []) := rfl
  have hcut : CutRecord nameRecord [0x12, 5, 0x61] := ⟨by decide, [0x62, 0x63, 0x64, 0x65], by decide, rfl⟩
  have hskip : ¬ SkippedCut userProfile nameRecord [0x12, 5, 0x61] := by decide
  exact (unmarshal_cut_error_iff (by decide) hwt hwhole hcut rfl).2 (Or.inl hskip)

theorem unmarshal_accepts_cut_note : CutRecord noteRecord [0x4a, 5, 0x61] ∧
      Unmarshals userProfile ⟨[0x4a, 5, 0x61], by decide⟩ (.ok (GoStruct.zero userProfile)) ∧
      ¬ ∃ e, Unmarshals userProfile ⟨[0x4a, 5, 0x61], by decide⟩ (.error e) := by
  have hok : Unmarshals userProfile ⟨[0x4a, 5, 0x61], by decide⟩
      (.ok (GoStruct.zero userProfile)) := ⟨2, rfl⟩
  refine ⟨⟨by decide, [0x62, 0x63, 0x64, 0x65], by decide, rfl⟩, hok, ?_⟩
  rintro ⟨e, he⟩
  simpa using returns_unique he hok

end HelixRpc.Codegen.Go
