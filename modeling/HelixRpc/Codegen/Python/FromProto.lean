import HelixRpc.Codegen.Go.Marshal
import HelixRpc.Codegen.ZigzagValues

/-!
# `from_proto` of the generated Python code

Model of the class method that `GeneratePython` writes for every struct: it reads a protobuf message and constructs the
object.
-/

namespace HelixRpc.Codegen.Python

open Foundation Compiler Codegen.Go List Outcome Function Option

def fromDefault : Kind → PyVal
  | .string => .text ""
  | .bool => .bool false
  | .double => .float (replicate 8 0)
  | .binary => .bytes []
  | _ => .int 0

def fromCase (k : Kind) (raw : Bytes) (idx : Nat) : Outcome Failure (Option PyVal × Nat) :=
  match k with
  | .int32 | .int64 => do
      let (v, idx) ← readVarint raw idx
      pure (some (.int v), idx)
  | .bool => do
      let (v, idx) ← readVarint raw idx
      pure (some (.bool (v ≠ 0)), idx)
  | .double =>
    if (slice raw idx 8).length = 8 then .ok (some (.float (slice raw idx 8)), idx + 8)
    else .error .unpack
  | .string => do
      let (len, idx) ← readVarint raw idx
      match decodeUtf8 (slice raw idx len) with
      | some text => pure (some (.text text), idx + len)
      | none => .error .decode
  | .binary => do
      let (len, idx) ← readVarint raw idx
      pure (some (.bytes (slice raw idx len)), idx + len)
  | _ => do
      let (_, idx) ← readVarint raw idx
      pure (none, idx)

def assign {s : StructNode} (values : Fin s.fields.length → PyVal) (i : Fin s.fields.length) :
    Option PyVal → Fin s.fields.length → PyVal
  | some v => update values i v
  | none => values

def fromStep (s : StructNode) (raw : Bytes) (st : ScanState s) :
    Outcome Failure (Flow (ScanState s) (Fin s.fields.length → PyVal)) :=
  if st.idx < raw.length then do
    let (tag, idx) ← readVarint raw st.idx
    match positionOf s (tag >>> 3) with
    | some i => do
        let (v, idx) ← fromCase (kindAt s i) raw idx
        pure (.next ⟨idx, assign st.values i v⟩)
    | none => do
        let idx ← scanUnknown (tag % 8) raw idx
        pure (.next { st with idx := idx })
  else pure (.ret st.values)

/-- `from_proto(buf)` returns the outcome `r`. -/
def FromProto (s : StructNode) (raw : Bytes) (r : Outcome Failure (Fin s.fields.length → PyVal)) : Prop :=
  if s.fields = [] then r = .error .syntaxError
  else Returns (fromStep s raw) ⟨0, fun i => fromDefault (kindAt s i)⟩ r

inductive SameValue : (k : Kind) → GoVal k → PyVal → Prop where
  | int32 (v : BitVec 32) : SameValue .int32 v (.int v.toInt)
  | int64 (v : BitVec 64) : SameValue .int64 v (.int v.toInt)
  | string (v : Slice) (text : String) (h : v.bytes = utf8Bytes text) :
      SameValue .string v (.text text)
  | bool (b : Bool) : SameValue .bool b (.bool b)

def Restores (s : StructNode) (x : GoStruct s) : Prop := ∃ buf y, marshal s x = .ok buf ∧ FromProto s buf (.ok y) ∧
    ∀ c, SameValue (kindAt s c) (x c) (y c)

def NonNegative : (k : Kind) → GoVal k → Prop
  | .int32, v => 0 ≤ BitVec.toInt v
  | .int64, v => 0 ≤ BitVec.toInt v
  | _, _ => True

inductive Arrives : (k : Kind) → GoVal k → PyVal → Prop where
  | int32 (v : BitVec 32) : Arrives .int32 v (.int (v.signExtend 64).toNat)
  | int64 (v : BitVec 64) : Arrives .int64 v (.int v.toNat)
  | string (v : Slice) (text : String) (h : v.bytes = utf8Bytes text) :
      Arrives .string v (.text text)

variable {s : StructNode} {k : Kind} {v : GoVal k} {c : Fin s.fields.length} {p : PyVal} {body : Body} {wireType : Nat}

theorem sameValue_int32_iff {v : BitVec 32} : SameValue .int32 v p ↔ p = .int v.toInt := by
  constructor
  · intro h
    cases h
    rfl
  · rintro rfl
    exact .int32 v

theorem sameValue_int64_iff {v : BitVec 64} : SameValue .int64 v p ↔ p = .int v.toInt := by
  constructor
  · intro h
    cases h
    rfl
  · rintro rfl
    exact .int64 v

theorem Arrives.sameValue_iff (h : Arrives k v p) : SameValue k v p ↔ NonNegative k v := by
  cases h with
  | int32 v =>
    rw [sameValue_int32_iff, PyVal.int.injEq]
    rcases toNat_signExtend_cases v (by decide) with ⟨hnonneg, hnat⟩ | ⟨hneg, hnat⟩
    · exact ⟨fun _ => hnonneg, fun _ => hnat⟩
    · constructor
      · intro heq
        omega
      · intro hnonneg
        exact absurd hnonneg (Int.not_le.2 hneg)
  | int64 v =>
    have hcases := toNat_signExtend_cases v (Nat.le_refl 64)
    rw [BitVec.signExtend_eq] at hcases
    rw [sameValue_int64_iff, PyVal.int.injEq]
    rcases hcases with ⟨hnonneg, hnat⟩ | ⟨hneg, hnat⟩
    · exact ⟨fun _ => hnonneg, fun _ => hnat⟩
    · constructor
      · intro heq
        omega
      · intro hnonneg
        exact absurd hnonneg (Int.not_le.2 hneg)
  | string v text hbytes => exact ⟨fun _ => trivial, fun _ => .string v text hbytes⟩

theorem arrives_zero (hk : Codable k) : Arrives k (GoVal.zero k) (fromDefault k) := by
  cases k with
  | int32 => exact .int32 0
  | int64 => exact .int64 0
  | string => exact .string Slice.empty "" rfl
  | _ => exact hk.elim

theorem eq_zero_of_sameValue (h : SameValue k v (fromDefault k)) : v = GoVal.zero k := by
  cases k with
  | int32 =>
    have hint : (0 : Int) = BitVec.toInt (n := 32) v := PyVal.int.inj (sameValue_int32_iff.1 h)
    exact BitVec.eq_of_toInt_eq hint.symm
  | int64 =>
    have hint : (0 : Int) = BitVec.toInt (n := 64) v := PyVal.int.inj (sameValue_int64_iff.1 h)
    exact BitVec.eq_of_toInt_eq hint.symm
  | string =>
    generalize hp : fromDefault .string = p at h
    cases h with
    | string v text hbytes =>
      obtain rfl := PyVal.text.inj hp
      exact Slice.ext hbytes
  | bool =>
    generalize hp : fromDefault .bool = p at h
    cases h with
    | bool b => exact (PyVal.bool.inj hp).symm
  | _ => cases h

theorem fromCase_body (pre post : Bytes) (henc : Encoded k v body) (htext : IsText k v) : ∃ p, Arrives k v p ∧
      fromCase k (pre ++ (body.bytes ++ post)) pre.length = .ok (some p, pre.length + body.bytes.length) := by
  cases henc with
  | int32 v hv =>
    refine ⟨_, .int32 v, ?_⟩
    have hread := readVarint_varint pre post (Varint.encode (v.signExtend 64))
    rw [varintValue_encode] at hread
    simp only [fromCase, Record.wordBody, Body.bytes, hread, ok_bind]
    rfl
  | int64 v hv =>
    refine ⟨_, .int64 v, ?_⟩
    have hread := readVarint_varint pre post (Varint.encode v)
    rw [varintValue_encode] at hread
    simp only [fromCase, Record.wordBody, Body.bytes, hread, ok_bind]
    rfl
  | string v hv =>
    obtain ⟨text, hbytes⟩ := htext
    refine ⟨.text text, .string v text hbytes.symm, ?_⟩
    have hlen := v.len_lt
    have hsize : (BitVec.ofNat 64 v.bytes.length).toNat = v.bytes.length := by
      rw [BitVec.toNat_ofNat]
      exact Nat.mod_eq_of_lt (by omega)
    have hread := readVarint_varint pre (v.bytes ++ post) (Varint.encode (BitVec.ofNat 64 v.bytes.length))
    rw [varintValue_encode, hsize] at hread
    have hslice : slice (pre ++ ((Varint.encode (BitVec.ofNat 64 v.bytes.length)).bytes ++ (v.bytes ++ post)))
      (pre.length + (Varint.encode (BitVec.ofNat 64 v.bytes.length)).bytes.length) v.bytes.length = v.bytes := by
      rw [slice, ← append_assoc, ← length_append, drop_left, take_left]
    simp only [fromCase, Record.sliceBody, Body.bytes, append_assoc, hread, ok_bind,
      hslice, decodeUtf8_eq_some_iff.2 hbytes]
    simp only [length_append, Nat.add_assoc]
    rfl

theorem fromStep_record (pre post : Bytes) {r : Record} (hnum : r.num = c + 1)
    (hkey : varintValue r.key.bytes = 8 * r.num + r.body.wireType) {v : GoVal (kindAt s c)}
    (henc : Encoded (kindAt s c) v r.body) (htext : IsText (kindAt s c) v) (values : Fin s.fields.length → PyVal) :
    ∃ p, Arrives (kindAt s c) v p ∧ Steps (fromStep s (pre ++ (r.bytes ++ post))) ⟨pre.length, values⟩
        ⟨(pre ++ r.bytes).length, update values c p⟩ := by
  have hpos := r.key.length_pos
  have hwt := r.body.wireType_lt
  have hinput : pre ++ (r.bytes ++ post) = (pre ++ r.key.bytes) ++ (r.body.bytes ++ post) := by
    simp [Record.bytes]
  have hread := readVarint_varint pre (r.body.bytes ++ post) r.key
  rw [← append_assoc, ← length_append] at hread
  have hshift : varintValue r.key.bytes >>> 3 = c + 1 := by
    rw [hkey, hnum, Nat.shiftRight_eq_div_pow]
    omega
  obtain ⟨p, harrives, hcase⟩ := fromCase_body (pre ++ r.key.bytes) post henc htext
  refine ⟨p, harrives, ?_⟩
  have hend : (pre ++ r.key.bytes).length + r.body.bytes.length = (pre ++ r.bytes).length := by
    simp [Record.bytes, Nat.add_assoc]
  rw [Steps, hinput, fromStep, if_pos (by simp only [length_append]; omega)]
  simp only [hread, ok_bind, hshift, positionOf_succ, hcase, hend]
  rfl

theorem ne_zero_of_encoded (h : Encoded k v body) : v ≠ GoVal.zero k := by
  intro hzero
  have hbody := fieldBody_of_encoded h
  rw [hzero] at hbody
  cases h <;> cases hbody

theorem varintValue_key {f : FieldNode} {v : GoVal f.kind} {r : Record} (h : fieldRecord f v = some r) :
    varintValue r.key.bytes = 8 * r.num + r.body.wireType := by
  unfold fieldRecord at h
  split at h
  · rename_i hid
    obtain ⟨body, -, rfl⟩ := map_eq_some_iff.1 h
    show varintValue (Varint.encode _).bytes = 8 * f.id.toNat + body.wireType
    rw [varintValue_encode, Record.keyWord_toNat hid.2 body.wireType_lt]
  · cases h

theorem fromStep_end {raw : Bytes} {idx : Nat} (h : raw.length ≤ idx) (values : Fin s.fields.length → PyVal) :
    fromStep s raw ⟨idx, values⟩ = .ok (.ret values) := by
  rw [fromStep, if_neg (Nat.not_lt.2 h)]
  rfl

def Aligned (s : StructNode) (x : GoStruct s) : Prop :=
  ∀ c, x c ≠ GoVal.zero (kindAt s c) → (s.fields.get c).id.toNat = c + 1

section
variable {s : StructNode} (hcod : AllCodable s) (hids : IdsUpTo 15 s) {x : GoStruct s}
  (haligned : Aligned s x) (htext : ∀ c, IsText (kindAt s c) (x c))
include hcod hids haligned htext

theorem from_reaches (cs : List (Fin s.fields.length)) (hnodup : cs.Nodup) (pre post : Bytes)
    (values : Fin s.fields.length → PyVal) (hdefault : ∀ c ∈ cs, values c = fromDefault (kindAt s c)) : ∃ values',
    (∀ c ∈ cs, Arrives (kindAt s c) (x c) (values' c)) ∧ (∀ c, c ∉ cs → values' c = values c) ∧ Reaches
    (fromStep s (pre ++ (encodeRecords (recordsOf s x cs) ++ post))) ⟨pre.length, values⟩
    ⟨(pre ++ encodeRecords (recordsOf s x cs)).length, values'⟩ := by
  induction cs generalizing pre values with
  | nil =>
    refine ⟨values, by simp, fun c _ => rfl, ?_⟩
    simp only [recordsOf, filterMap_nil, encodeRecords_nil, append_nil]
    exact Relation.ReflTransGen.refl
  | cons c cs ih =>
    obtain ⟨hfresh, hnodup⟩ := nodup_cons.1 hnodup
    have hid := idsUpTo_at hids c
    rw [encodeRecords_recordsOf_cons]
    cases hr : fieldRecord (s.fields.get c) (x c) with
    | none =>
      -- a zero field has no record, and its variable keeps the initial value
      have hzero : x c = GoVal.zero (kindAt s c) := eq_zero_of_fieldBody (allCodable_at hcod c)
          (fieldBody_of_fieldRecord_none ⟨hid.1, by omega⟩ hr)
      obtain ⟨values', harrive, hkeep, hreach⟩ := ih hnodup pre values fun c' hc' => hdefault c' (mem_cons_of_mem c hc')
      refine ⟨values', ?_, ?_, hreach⟩
      · intro c' hc'
        rcases mem_cons.1 hc' with rfl | hmem
        · rw [hkeep c' hfresh, hdefault c' (by simp), hzero]
          exact arrives_zero (allCodable_at hcod c')
        · exact harrive c' hmem
      · intro c' hc'
        exact hkeep c' fun hmem => hc' (mem_cons_of_mem c hmem)
    | some r =>
      obtain ⟨hnum, henc⟩ := fieldRecord_eq_some hr
      have hset : x c ≠ GoVal.zero (kindAt s c) := ne_zero_of_encoded henc
      obtain ⟨p, hp, hstep⟩ := fromStep_record pre (encodeRecords (recordsOf s x cs) ++ post)
        (hnum.trans (haligned c hset)) (varintValue_key hr) henc (htext c) values
      obtain ⟨values', harrive, hkeep, hreach⟩ := ih hnodup (pre ++ r.bytes)
        (update values c p) (by
          intro c' hc'
          have hne : c' ≠ c := fun h => hfresh (h ▸ hc')
          rw [update_of_ne hne]
          exact hdefault c' (mem_cons_of_mem c hc'))
      refine ⟨values', ?_, ?_, ?_⟩
      · intro c' hc'
        rcases mem_cons.1 hc' with rfl | hmem
        · rw [hkeep c' hfresh, update_self]
          exact hp
        · exact harrive c' hmem
      · intro c' hc'
        have hne : c' ≠ c := fun h => hc' (h ▸ mem_cons_self ..)
        rw [hkeep c' fun hmem => hc' (mem_cons_of_mem c hmem), update_of_ne hne]
      · simp only [toList_some, encodeRecords_cons, encodeRecords_nil, append_nil, append_assoc] at hreach ⊢
        exact Relation.ReflTransGen.head hstep hreach

theorem fromProto_marshal (hne : s.fields ≠ []) : ∃ y, FromProto s (encodeRecords (structRecords s x)) (.ok y) ∧
      ∀ c, Arrives (kindAt s c) (x c) (y c) := by
  obtain ⟨y, harrive, -, hreach⟩ := from_reaches hcod hids haligned htext (finRange s.fields.length) (nodup_finRange _)
    [] [] (fun i => fromDefault (kindAt s i)) (fun c _ => rfl)
  refine ⟨y, ?_, fun c => harrive c (mem_finRange c)⟩
  simp only [nil_append, append_nil] at hreach
  rw [FromProto, if_neg hne]
  exact (returns_reaches_iff hreach _).2 (returns_of_ret (fromStep_end (Nat.le_refl _) y))
end

theorem fromProto_unique {raw : Bytes} {q r : Outcome Failure (Fin s.fields.length → PyVal)} (hq : FromProto s raw q)
    (hr : FromProto s raw r) : q = r := by
  unfold FromProto at hq hr
  split at hq
  · rename_i hnil
    rw [if_pos hnil] at hr
    rw [hq, hr]
  · rename_i hne
    rw [if_neg hne] at hr
    exact returns_unique hq hr

theorem marshal_eq (hcod : AllCodable s) (hids : IdsUpTo 15 s) (x : GoStruct s) :
    marshal s x = .ok (encodeRecords (structRecords s x)) := by
  rw [marshal, marshalTo_eq hcod hids x]
  rfl

theorem restores_iff_of_aligned (hcod : AllCodable s) (hids : IdsUpTo 15 s) (hne : s.fields ≠ []) {x : GoStruct s}
    (haligned : Aligned s x) (htext : ∀ c, IsText (kindAt s c) (x c)) :
    Restores s x ↔ ∀ c, NonNegative (kindAt s c) (x c) := by
  obtain ⟨y, hfrom, harrive⟩ := fromProto_marshal hcod hids haligned htext hne
  constructor
  · rintro ⟨buf, y', hbuf, hfrom', hsame⟩ c
    rw [marshal_eq hcod hids x] at hbuf
    cases hbuf
    obtain rfl := ok.inj (fromProto_unique hfrom' hfrom)
    exact (harrive c).sameValue_iff.1 (hsame c)
  · intro hnonneg
    exact ⟨_, y, marshal_eq hcod hids x, hfrom, fun c => (harrive c).sameValue_iff.2 (hnonneg c)⟩

theorem length_zeroByte : [(0 : UInt8)].length < 2 ^ 63 := by decide

def mark : (k : Kind) → GoVal k
  | .int32 => (1 : BitVec 32)
  | .int64 => (1 : BitVec 64)
  | .string => (⟨[0], length_zeroByte⟩ : Slice)
  | k => GoVal.zero k

def markAt (s : StructNode) (c : Fin s.fields.length) : GoStruct s :=
  fun c' => if c' = c then mark (kindAt s c') else GoVal.zero (kindAt s c')

inductive MarkBody : Nat → Bytes → Prop where
  | number : MarkBody 0 [1]
  | text : MarkBody 2 [1, 0]

theorem mark_ne_zero (hk : Codable k) : mark k ≠ GoVal.zero k := by
  cases k with
  | int32 => exact fun h => absurd h (by decide : (1 : BitVec 32) ≠ 0)
  | int64 => exact fun h => absurd h (by decide : (1 : BitVec 64) ≠ 0)
  | string =>
    intro h
    exact absurd (congrArg Slice.bytes h) (by decide : ([0] : Bytes) ≠ [])
  | _ => exact hk.elim

theorem markBody_of_encoded (h : Encoded k (mark k) body) : MarkBody body.wireType body.bytes := by
  have hbody := fieldBody_of_encoded h
  have hk := codable_of_encoded h
  cases k with
  | int32 =>
    cases hbody
    exact .number
  | int64 =>
    cases hbody
    exact .number
  | string =>
    cases hbody
    exact .text
  | _ => exact hk.elim

theorem isText_mark (k : Kind) : IsText k (mark k) := by
  cases k with
  | string => exact ⟨"\x00", by decide⟩
  | _ => exact trivial

theorem nonNegative_mark (k : Kind) : NonNegative k (mark k) := by
  cases k with
  | int32 => exact (by decide : (0 : Int) ≤ (1 : BitVec 32).toInt)
  | int64 => exact (by decide : (0 : Int) ≤ (1 : BitVec 64).toInt)
  | _ => exact trivial

theorem isText_zero (k : Kind) : IsText k (GoVal.zero k) := by
  cases k with
  | string => exact ⟨"", by decide⟩
  | _ => exact trivial

theorem nonNegative_zero (k : Kind) : NonNegative k (GoVal.zero k) := by
  cases k with
  | int32 => exact (by decide : (0 : Int) ≤ (0 : BitVec 32).toInt)
  | int64 => exact (by decide : (0 : Int) ≤ (0 : BitVec 64).toInt)
  | _ => exact trivial

theorem readVarint_one (pre post : Bytes) : readVarint (pre ++ 1 :: post) pre.length = .ok (1, pre.length + 1) :=
  readVarint_varint pre post (Varint.encode 1)

variable {body : Bytes} {num : Nat}

theorem fromCase_mark (hk : Codable k) (h : MarkBody wireType body) (pre : Bytes) :
    ∃ p idx, fromCase k (pre ++ body) pre.length = .ok (some p, idx) ∧
      ((pre ++ body).length ≤ idx ∨ body = [1, 0] ∧ idx = pre.length + 1) := by
  have hint : ∀ post : Bytes, (do
      let (v, idx) ← readVarint (pre ++ 1 :: post) pre.length
      pure (some (PyVal.int v), idx)) = (.ok (some (.int 1), pre.length + 1) : Outcome Failure _) := by
    intro post
    rw [readVarint_one]
    rfl
  cases h with
  | number =>
    cases k with
    | int32 => exact ⟨_, _, hint [], .inl (by simp)⟩
    | int64 => exact ⟨_, _, hint [], .inl (by simp)⟩
    | string =>
      -- the slice behind the message is empty
      have hslice : slice (pre ++ [1]) (pre.length + 1) 1 = [] := by
        rw [slice, drop_of_length_le (by simp)]
        rfl
      refine ⟨.text "", pre.length + 1 + 1, ?_, .inl (by simp)⟩
      simp only [fromCase, readVarint_one, ok_bind, hslice]
      rfl
    | _ => exact hk.elim
  | text =>
    cases k with
    | int32 => exact ⟨_, _, hint [0], .inr ⟨rfl, rfl⟩⟩
    | int64 => exact ⟨_, _, hint [0], .inr ⟨rfl, rfl⟩⟩
    | string =>
      have hslice : slice (pre ++ [1, 0]) (pre.length + 1) 1 = [0] := by
        have hsplit : pre ++ [1, 0] = (pre ++ [1]) ++ [0] := by simp
        rw [slice, hsplit, ← length_singleton (a := (1 : UInt8)), ← length_append, drop_left]
        rfl
      refine ⟨.text "\x00", pre.length + 1 + 1, ?_, .inl (by simp)⟩
      simp only [fromCase, readVarint_one, ok_bind, hslice]
      rfl
    | _ => exact hk.elim

theorem scanUnknown_mark (h : MarkBody wireType body) (pre : Bytes) :
    scanUnknown wireType (pre ++ body) pre.length = .ok (pre ++ body).length := by
  cases h with
  | number =>
    simp only [scanUnknown, readVarint_one, ok_bind, length_append]
    rfl
  | text =>
    simp only [scanUnknown, readVarint_one, ok_bind, length_append]
    rfl

theorem positionOf_eq_some {i : Fin s.fields.length} (h : positionOf s num = some i) : num = i + 1 := by
  unfold positionOf at h
  split at h
  · rename_i hnum
    have hi := congrArg Fin.val (some.inj h)
    simp only at hi
    omega
  · cases h

theorem fromStep_zero (s : StructNode) (pre : Bytes) (values : Fin s.fields.length → PyVal) :
    fromStep s (pre ++ [0]) ⟨pre.length, values⟩ = .error varintEOF := by
  have hread : readVarint (pre ++ [0]) pre.length = .ok (0, pre.length + 1) :=
    readVarint_varint pre [] (Varint.encode 0)
  have heof : readVarint (pre ++ [0]) (pre.length + 1) = .error varintEOF := by
    rw [readVarint, drop_of_length_le (by simp)]
    rfl
  have hposition : positionOf s 0 = none := dif_neg (by omega)
  rw [fromStep, if_pos (by simp)]
  simp [hread, hposition, scanUnknown, heof]

theorem returns_mark (hcod : AllCodable s) {key : Varint} (hkey : varintValue key.bytes = 8 * num + wireType)
    (hbody : MarkBody wireType body) (hnum : num ≠ c + 1) {values y : Fin s.fields.length → PyVal}
    (h : Returns (fromStep s (key.bytes ++ body)) ⟨0, values⟩ (.ok y)) : y c = values c := by
  have hpos := key.length_pos
  have hread := readVarint_varint [] body key
  have hwt : wireType < 8 := by
    cases hbody <;> decide
  have hshift : varintValue key.bytes >>> 3 = num := by
    rw [hkey, Nat.shiftRight_eq_div_pow]
    omega
  have hmod : varintValue key.bytes % 8 = wireType := by
    rw [hkey]
    omega
  simp only [nil_append, length_nil, Nat.zero_add] at hread
  have hstart : 0 < (key.bytes ++ body).length := by
    rw [length_append]
    omega
  cases hposition : positionOf s num with
  | none =>
    have hstep : Steps (fromStep s (key.bytes ++ body)) ⟨0, values⟩
        ⟨(key.bytes ++ body).length, values⟩ := by
      rw [Steps, fromStep, if_pos hstart]
      simp only [hread, ok_bind, hshift, hmod, hposition, scanUnknown_mark hbody]
      rfl
    have hret := (returns_step_iff hstep _).1 h
    have hend := returns_of_ret (fromStep_end (Nat.le_refl (key.bytes ++ body).length) values)
    rw [ok.inj (returns_unique hret hend)]
  | some j =>
    have hne : c ≠ j := fun hcj => hnum (hcj ▸ positionOf_eq_some hposition)
    obtain ⟨p, idx, hcase, hidx⟩ := fromCase_mark (allCodable_at hcod j) hbody key.bytes
    have hstep : Steps (fromStep s (key.bytes ++ body)) ⟨0, values⟩
        ⟨idx, update values j p⟩ := by
      rw [Steps, fromStep, if_pos hstart]
      simp only [hread, ok_bind, hshift, hposition, hcase]
      rfl
    have hret := (returns_step_iff hstep _).1 h
    rcases hidx with hbehind | ⟨rfl, rfl⟩
    · have hend := returns_of_ret (fromStep_end hbehind (update values j p))
      rw [ok.inj (returns_unique hret hend), update_of_ne hne]
    · -- an integer took the length of the text, and its zero byte is the next key
      have hsplit : key.bytes ++ [1, 0] = (key.bytes ++ [1]) ++ [0] := by simp
      have hlen : key.bytes.length + 1 = (key.bytes ++ [1]).length := by simp
      rw [hsplit, hlen] at hret
      have herror := returns_of_error (fromStep_zero s (key.bytes ++ [1]) (update values j p))
      cases returns_unique hret herror

theorem markAt_self (s : StructNode) (c : Fin s.fields.length) : markAt s c c = mark (kindAt s c) := if_pos rfl

theorem markAt_of_ne {c' : Fin s.fields.length} (h : c' ≠ c) : markAt s c c' = GoVal.zero (kindAt s c') := if_neg h

theorem fieldRecord_zero (f : FieldNode) : fieldRecord f (GoVal.zero f.kind) = none := by
  cases hr : fieldRecord f (GoVal.zero f.kind) with
  | none => rfl
  | some r => exact absurd rfl (ne_zero_of_encoded (fieldRecord_eq_some hr).2)

theorem structRecords_markAt (s : StructNode) (c : Fin s.fields.length) : structRecords s (markAt s c) =
      (fieldRecord (s.fields.get c) (mark (kindAt s c))).toList := by
  have hnone : ∀ c', c' ≠ c → fieldRecord (s.fields.get c') (markAt s c c') = none := by
    intro c' hne
    rw [markAt_of_ne hne]
    exact fieldRecord_zero _
  obtain ⟨front, back, hsplit⟩ := append_of_mem (mem_finRange c)
  have hnodup := nodup_finRange s.fields.length
  rw [hsplit, nodup_append, nodup_cons] at hnodup
  obtain ⟨-, ⟨hback, -⟩, hfront⟩ := hnodup
  rw [structRecords, recordsOf, hsplit, filterMap_append, filterMap_cons,
    filterMap_eq_nil_iff.2, filterMap_eq_nil_iff.2, markAt_self]
  · cases fieldRecord (s.fields.get c) (mark (kindAt s c)) <;> rfl
  · exact fun c' hc' => hnone c' fun h => hback (h ▸ hc')
  · exact fun c' hc' => hnone c' (hfront c' hc' c (mem_cons_self ..))

theorem not_restores_markAt (hcod : AllCodable s) (hids : IdsUpTo 15 s) (hne : (s.fields.get c).id.toNat ≠ c + 1) :
    ¬ Restores s (markAt s c) := by
  rintro ⟨buf, y, hbuf, hfrom, hsame⟩
  have hid := idsUpTo_at hids c
  rw [marshal_eq hcod hids, structRecords_markAt] at hbuf
  cases hr : fieldRecord (s.fields.get c) (mark (kindAt s c)) with
  | none =>
    have hzero := eq_zero_of_fieldBody (allCodable_at hcod c) (fieldBody_of_fieldRecord_none ⟨hid.1, by omega⟩ hr)
    exact mark_ne_zero (allCodable_at hcod c) hzero
  | some r =>
    obtain ⟨hnum, henc⟩ := fieldRecord_eq_some hr
    rw [hr, toList_some, encodeRecords_cons, encodeRecords_nil, append_nil] at hbuf
    cases hbuf
    have hfields : s.fields ≠ [] := ne_nil_of_length_pos (Fin.pos c)
    rw [FromProto, if_neg hfields] at hfrom
    have hkeep := returns_mark hcod (c := c) (varintValue_key hr) (markBody_of_encoded henc) (hnum ▸ hne) hfrom
    have hc := hsame c
    rw [hkeep, markAt_self] at hc
    exact mark_ne_zero (allCodable_at hcod c) (eq_zero_of_sameValue hc)

/-- Exactly the structs that have fields, with all fields in use at the positions of their ids, restore
every value in use whose integers are not negative, and no other. -/
theorem fromProto_restores_iff {s : StructNode} (hcod : AllCodable s) (hids : IdsUpTo 15 s)
    (used : Fin s.fields.length → Prop) : (∀ x : GoStruct s, (∀ c, IsText (kindAt s c) (x c)) →
    (∀ c, ¬ used c → x c = GoVal.zero (kindAt s c)) → (Restores s x ↔ ∀ c, NonNegative (kindAt s c) (x c))) ↔
    s.fields ≠ [] ∧ ∀ c, used c → (s.fields.get c).id.toNat = c + 1 := by
  constructor
  · intro hall
    constructor
    · -- a struct without fields has no valid method
      intro hnil
      have hnone : ∀ c : Fin s.fields.length, False := fun c =>
        ne_nil_of_length_pos (Fin.pos c) hnil
      have hrestores := (hall (fun c => (hnone c).elim) (fun c => (hnone c).elim)
        (fun c => (hnone c).elim)).2 fun c => (hnone c).elim
      obtain ⟨buf, y, -, hfrom, -⟩ := hrestores
      rw [FromProto, if_pos hnil] at hfrom
      cases hfrom
    · intro c hused
      by_contra hne
      refine not_restores_markAt hcod hids hne ((hall (markAt s c) ?_ ?_).2 ?_)
      · intro c'
        by_cases hc : c' = c
        · subst hc
          rw [markAt_self]
          exact isText_mark _
        · rw [markAt_of_ne hc]
          exact isText_zero _
      · intro c' hunused
        exact markAt_of_ne fun hc => hunused (hc ▸ hused)
      · intro c'
        by_cases hc : c' = c
        · subst hc
          rw [markAt_self]
          exact nonNegative_mark _
        · rw [markAt_of_ne hc]
          exact nonNegative_zero _
  · rintro ⟨hne, hposition⟩ x htext hzero
    refine restores_iff_of_aligned hcod hids hne (fun c hset => hposition c ?_) htext
    by_contra hunused
    exact hset (hzero c hunused)

def badge : StructNode where
  name := "Badge"
  fields := [⟨"level", 1, ⟨.int32, "", none, none⟩, false⟩, ⟨"label", 3, ⟨.string, "", none, none⟩, false⟩]

def badgeOf (level : BitVec 32) (label : Slice) : GoStruct badge
  | ⟨0, _⟩ => level
  | ⟨1, _⟩ => label

theorem fromProto_restores_iff_badge : Restores badge (badgeOf 7 Slice.empty) ↔
      ∀ c, NonNegative (kindAt badge c) (badgeOf 7 Slice.empty c) := by
  refine (fromProto_restores_iff (s := badge) (by decide) (by decide) (fun c => c.val = 0)).2
    ⟨by decide, by decide⟩ (badgeOf 7 Slice.empty) ?_ ?_
  · rintro ⟨_ | _ | n, hn⟩
    · exact trivial
    · exact ⟨"", rfl⟩
    · exact absurd hn (by simp [badge])
  · rintro ⟨_ | _ | n, hn⟩ hunused
    · exact absurd rfl hunused
    · rfl
    · exact absurd hn (by simp [badge])

def levelRead (level : Int) : Fin badge.fields.length → PyVal :=
  update (fun i => fromDefault (kindAt badge i)) ⟨0, by decide⟩ (.int level)

theorem badge_not_restored : marshal badge (badgeOf (-1) Slice.empty) = .ok (0x08 :: (replicate 9 0xff ++ [1])) ∧
      FromProto badge (0x08 :: (replicate 9 0xff ++ [1]))
        (.ok (levelRead 18446744073709551615)) ∧ ¬ Restores badge (badgeOf (-1) Slice.empty) ∧
      marshal badge (badgeOf 7 ⟨[0x61], by decide⟩) = .ok [0x08, 7, 0x1a, 1, 0x61] ∧
      FromProto badge [0x08, 7, 0x1a, 1, 0x61] (.ok (levelRead 7)) ∧
      ¬ Restores badge (badgeOf 7 ⟨[0x61], by decide⟩) := by
  have hnegative : marshal badge (badgeOf (-1) Slice.empty) = .ok (0x08 :: (replicate 9 0xff ++ [1])) := by decide
  have hlabel : marshal badge (badgeOf 7 ⟨[0x61], by decide⟩) = .ok [0x08, 7, 0x1a, 1, 0x61] := by decide
  have hfrom : FromProto badge (0x08 :: (replicate 9 0xff ++ [1])) (.ok (levelRead 18446744073709551615)) := ⟨3, rfl⟩
  have hfromLabel : FromProto badge [0x08, 7, 0x1a, 1, 0x61] (.ok (levelRead 7)) := ⟨3, rfl⟩
  refine ⟨hnegative, hfrom, ?_, hlabel, hfromLabel, ?_⟩
  · rintro ⟨buf, y, hbuf, hy, hsame⟩
    obtain rfl := ok.inj (hbuf.symm.trans hnegative)
    obtain rfl := ok.inj (fromProto_unique hy hfrom)
    have hfirst : 0 < badge.fields.length := by decide
    have hlevel : SameValue .int32 (-1 : BitVec 32) (.int 18446744073709551615) := hsame ⟨0, hfirst⟩
    exact absurd (sameValue_int32_iff.1 hlevel) (by decide)
  · rintro ⟨buf, y, hbuf, hy, hsame⟩
    obtain rfl := ok.inj (hbuf.symm.trans hlabel)
    obtain rfl := ok.inj (fromProto_unique hy hfromLabel)
    have hzero := eq_zero_of_sameValue (k := .string) (hsame ⟨1, by decide⟩)
    exact absurd (congrArg Slice.bytes hzero) (by decide)

end HelixRpc.Codegen.Python
