import HelixRpc.Codegen.Transpilers

/-!
# Zigzag in the Rust, C++, Node and Python transpilers

A protobuf message holds a signed integer as the varint of its sign extension, and the Compact protocol holds it as
the varint of its zigzag form.
-/

namespace HelixRpc.Codegen

open Foundation Compiler Codegen.Go List Outcome Function

inductive SignedKind where
  | int32
  | int64
  deriving DecidableEq, Repr

namespace SignedKind

def kind : SignedKind → Kind
  | .int32 => .int32
  | .int64 => .int64

def width : SignedKind → Nat
  | .int32 => 32
  | .int64 => 64

def code : SignedKind → Nat
  | .int32 => 5
  | .int64 => 6

theorem width_le (k : SignedKind) : k.width ≤ 64 := by
  cases k with
  | int32 => show 32 ≤ 64; omega
  | int64 => show 64 ≤ 64; omega

end SignedKind

def Holds {w : Nat} (raw : Varint) (v : BitVec w) : Prop := varintValue raw.bytes = (v.signExtend 64).toNat

def zigzagBytes {w : Nat} (v : BitVec w) : Bytes := encodeVarint (BitVec.ofNat 64 (zigzag v.toInt))

/-- In one iteration, on the key and the value of an integer field, the loop pushes a header and the
right value bytes. -/
def PushTemplate.Emits (t : PushTemplate) (lang : Language) (k : SignedKind) (v : BitVec k.width) : Prop :=
  ∀ (s : StructNode) (c : Fin s.fields.length) (num last : Nat) (key raw : Varint)
    (pre post out : Bytes), num < 2 ^ 15 → last < 2 ^ 15 → caseOfNumber s num = some c →
    kindAt s c = k.kind → varintValue key.bytes = 8 * num → Holds raw v →
    ∃ header, lang.fieldHeader k.code num last = some header ∧
      Steps (t.step s (pre ++ (key.bytes ++ (raw.bytes ++ post)))) ⟨pre.length, out, last⟩
        ⟨pre.length + key.bytes.length + raw.bytes.length, out ++ (header ++ zigzagBytes v), num⟩

/-- The scanner stores a value from which the second part appends a header and the right value
bytes. -/
def Python.Emits (k : SignedKind) (v : BitVec k.width) : Prop :=
  ∀ (s : StructNode) (i : Fin s.fields.length) (prevField : Nat) (key raw : Varint)
    (pre post : Bytes) (values : Fin s.fields.length → Python.PyVal),
    kindAt s i = k.kind → varintValue key.bytes = 8 * (i + 1) → Holds raw v →
    ∃ value, Steps (Python.step s (pre ++ (key.bytes ++ (raw.bytes ++ post)))) ⟨pre.length, values⟩
        ⟨pre.length + key.bytes.length + raw.bytes.length, update values i value⟩ ∧
      Python.emitField k.kind (i + 1) value prevField =
        (Python.fieldHeader k.code (i + 1) prevField ++ zigzagBytes v, i.val + 1)

inductive Target where
  | rust (checks : Bool)
  | cpp
  | node
  | python
  deriving DecidableEq, Repr

def EmitsZigzag (target : Target) (k : SignedKind) (v : BitVec k.width) : Prop :=
  match target with
  | .rust checks => (Rust.template checks).Emits .rust k v
  | .cpp => Cpp.template.Emits .cpp k v
  | .node => Node.template.Emits .node k v
  | .python => Python.Emits k v

def ZigzagRange : Target → SignedKind → Int → Prop
  | .rust _, .int32, n => -2 ^ 30 ≤ n ∧ n < 2 ^ 30
  | .node, .int32, _ => False
  | _, _, n => 0 ≤ n

structure PushTemplate.Ordinary (t : PushTemplate) (lang : Language) : Prop where
  reads : ∀ (pre post : Bytes) (raw : Varint), varintValue raw.bytes < 2 ^ 64 →
    t.readVarint (pre ++ (raw.bytes ++ post)) pre.length = .ok (varintValue raw.bytes, pre.length + raw.bytes.length)
  fieldNum : ∀ num : Nat, num < 2 ^ 15 → t.fieldNum num = num
  enter : ∀ num last : Nat, num < 2 ^ 15 → last < 2 ^ 15 → t.enter num last = .ok ()
  header : ∀ code num last : Nat, num < 2 ^ 15 → last < 2 ^ 15 →
    ∃ header, lang.fieldHeader code num last = some header ∧ t.header code num last = .ok header

def PushTemplate.value (t : PushTemplate) : SignedKind → Nat → Outcome Failure Bytes
  | .int32 => t.int32
  | .int64 => t.int64

variable {t : PushTemplate} {lang : Language}

theorem PushTemplate.Ordinary.step_eq (ht : t.Ordinary lang)
    {k : SignedKind} {s : StructNode} {c : Fin s.fields.length} {num last : Nat}
    {key raw : Varint} {header : Bytes} (pre post out : Bytes) (hnum : num < 2 ^ 15)
    (hlast : last < 2 ^ 15) (hc : caseOfNumber s num = some c) (hk : kindAt s c = k.kind)
    (hkey : varintValue key.bytes = 8 * num) (hraw : varintValue raw.bytes < 2 ^ 64)
    (hheader : t.header k.code num last = .ok header) :
    t.step s (pre ++ (key.bytes ++ (raw.bytes ++ post))) ⟨pre.length, out, last⟩ = (do
      let bytes ← t.value k (varintValue raw.bytes)
      pure (.next ⟨pre.length + key.bytes.length + raw.bytes.length, out ++ (header ++ bytes), num⟩)) := by
  have hpos := key.length_pos
  have hreadKey := ht.reads pre (raw.bytes ++ post) key (by omega)
  have hreadRaw := ht.reads (pre ++ key.bytes) post raw hraw
  rw [append_assoc, length_append] at hreadRaw
  have hshift : varintValue key.bytes >>> 3 = num := by
    rw [hkey, Nat.shiftRight_eq_div_pow]
    omega
  rw [PushTemplate.step, if_pos (by simp only [length_append]; omega)]
  simp only [hreadKey, ok_bind, hshift, ht.fieldNum num hnum, ht.enter num last hnum hlast, hc, hk]
  cases k with
  | int32 =>
    simp only [PushTemplate.fieldCase, SignedKind.kind, PushTemplate.intField, hreadRaw, ok_bind]
    rw [show (5 : Nat) = SignedKind.int32.code from rfl, hheader]
    cases hv : t.int32 (varintValue raw.bytes) with
    | _ => simp [PushTemplate.value, hv]
  | int64 =>
    simp only [PushTemplate.fieldCase, SignedKind.kind, PushTemplate.intField, hreadRaw, ok_bind]
    rw [show (6 : Nat) = SignedKind.int64.code from rfl, hheader]
    cases hv : t.int64 (varintValue raw.bytes) with
    | _ => simp [PushTemplate.value, hv]

def counter (k : SignedKind) : StructNode where
  name := "Counter"
  fields := [⟨"count", 1, ⟨k.kind, "", none, none⟩, false⟩, ⟨"label", 2, ⟨.string, "", none, none⟩, false⟩]

theorem varintValue_encode (w : BitVec 64) : varintValue (Varint.encode w).bytes = w.toNat :=
  varintValue_encodeGroups 9 _ (toNat_lt_groups w)

theorem PushTemplate.Ordinary.emits_iff (ht : t.Ordinary lang) (k : SignedKind) (v : BitVec k.width) :
    t.Emits lang k v ↔ t.value k (v.signExtend 64).toNat = .ok (zigzagBytes v) := by
  constructor
  · intro h
    have hheld : Holds (Varint.encode (v.signExtend 64)) v := varintValue_encode _
    obtain ⟨header, hlang, hstep⟩ := h (counter k) ⟨0, by show 0 < 2; omega⟩ 1 0 (Varint.encode 8)
      (Varint.encode (v.signExtend 64)) [] [] [] (by omega) (by omega) rfl rfl rfl hheld
    obtain ⟨header', hlang', hheader⟩ := ht.header k.code 1 0 (by omega) (by omega)
    obtain rfl := Option.some.inj (hlang.symm.trans hlang')
    rw [Steps, ht.step_eq (k := k) (c := ⟨0, by show 0 < 2; omega⟩) [] [] [] (by omega) (by omega) rfl
      rfl rfl (by rw [hheld]; exact BitVec.isLt _) hheader, hheld] at hstep
    obtain ⟨bytes, hvalue, hnext⟩ := bind_eq_ok.1 hstep
    have hbytes : header ++ bytes = header ++ zigzagBytes v := by simpa using hnext
    rw [hvalue, append_cancel_left hbytes]
  · intro hvalue s c num last key raw pre post out hnum hlast hc hk hkey hraw
    obtain ⟨header, hlang, hheader⟩ := ht.header k.code num last hnum hlast
    refine ⟨header, hlang, ?_⟩
    rw [Steps, ht.step_eq pre post out hnum hlast hc hk hkey (by rw [hraw]; exact BitVec.isLt _) hheader, hraw, hvalue]
    rfl

theorem toInt_ofInt_small {w n : Nat} (h : 2 * n < 2 ^ w) : (BitVec.ofNat w n).toInt = n := by
  have hw : n < 2 ^ w := by omega
  have hnat : (BitVec.ofNat w n).toNat = n := by rw [BitVec.toNat_ofNat, Nat.mod_eq_of_lt hw]
  rw [BitVec.toInt_eq_toNat_of_lt (by omega), hnat]

theorem wordReader_reads {add : BitVec 64 → Nat → Nat → Outcome Failure (BitVec 64)}
    (hadd : ∀ acc p s, s < 64 → add acc p s = .ok (acc ||| BitVec.ofNat 64 p <<< s))
    (pre post : Bytes) {raw : Varint} (hraw : varintValue raw.bytes < 2 ^ 64) :
    (do
      let (v, idx) ← varintLoop varintEOF add ((pre ++ (raw.bytes ++ post)).drop pre.length)
        pre.length 0 0
      pure (v.toNat, idx)) =
      (.ok (varintValue raw.bytes, pre.length + raw.bytes.length) : Outcome Failure (Nat × Nat)) := by
  have hvalue : raw.value.toNat = varintValue raw.bytes := by
    rw [Varint.value, BitVec.toNat_ofNat, Nat.mod_eq_of_lt hraw]
  rw [drop_left, varintLoop_word hadd, ok_bind]
  simp [hvalue]

theorem Rust.accumulate_eq (checks : Bool) (acc : BitVec 64) (p s : Nat) (hs : s < 64) :
    Rust.accumulate checks acc p s = .ok (acc ||| BitVec.ofNat 64 p <<< s) := by
  rw [Rust.accumulate, if_neg (by omega), Nat.mod_eq_of_lt hs]

theorem Cpp.accumulate_eq (acc : BitVec 64) (p s : Nat) (hs : s < 64) :
    Cpp.accumulate acc p s = .ok (acc ||| BitVec.ofNat 64 p <<< s) := if_pos hs

theorem Rust.ordinary (checks : Bool) : (Rust.template checks).Ordinary .rust where
  reads pre post _ hraw := wordReader_reads (Rust.accumulate_eq checks) pre post hraw
  fieldNum num hnum := toInt_ofInt_small (by omega)
  enter _ _ _ _ := rfl
  header code num last hnum hlast := by
    refine ⟨_, rfl, ?_⟩
    show (if _ then _ else _) = _
    rw [if_neg (by omega), BitVec.ofInt_natCast, BitVec.ofInt_natCast]

theorem Cpp.ordinary : Cpp.template.Ordinary .cpp where
  reads pre post _ hraw := wordReader_reads Cpp.accumulate_eq pre post hraw
  fieldNum num hnum := toInt_ofInt_small (by omega)
  enter num last hnum hlast := if_pos (by omega)
  header code num last hnum hlast := by
    refine ⟨_, rfl, ?_⟩
    show ok _ = _
    rw [BitVec.ofInt_natCast, BitVec.ofInt_natCast]

theorem Node.ordinary : Node.template.Ordinary .node where
  reads pre post raw _ := by
    show varintLoop _ _ _ _ _ _ = _
    rw [drop_left]
    exact varintLoop_nat raw.complete post pre.length
  fieldNum _ _ := rfl
  enter _ _ _ _ := rfl
  header _ _ _ _ _ := ⟨_, rfl, rfl⟩

theorem thriftVarintLoop_eq (k : Nat) (v : BitVec 64) : thriftVarintLoop k v = encodeGroups k v.toNat := by
  induction k generalizing v with
  | zero => rfl
  | succ k ih =>
    rw [thriftVarintLoop, encodeGroups]
    by_cases h : v.toNat < 128
    · rw [if_pos ((and_not_7f_eq_zero_iff v).2 h), if_pos h]
    · rw [if_neg (fun hz => h ((and_not_7f_eq_zero_iff v).1 hz)), if_neg h, word_low_or_toNat, ih, word_shift_toNat]

theorem thriftVarint_eq (v : BitVec 64) : thriftVarint v = natVarint v.toNat := by
  rw [natVarint_toNat]
  exact thriftVarintLoop_eq 9 v

section
variable {w : Nat} (v : BitVec w) (hw : w ≤ 64)
include hw

theorem toNat_zigzag_signExtend : (zigzagWord (v.signExtend 64)).toNat = zigzag v.toInt := by
  rw [toNat_zigzagWord, BitVec.toInt_signExtend_of_le hw]

theorem zigzagBytes_eq : zigzagBytes v = natVarint (zigzag v.toInt) := by
  rw [zigzagBytes, ← natVarint_toNat, ← toNat_zigzag_signExtend v hw, BitVec.toNat_ofNat,
    Nat.mod_eq_of_lt (BitVec.isLt _)]

theorem toNat_signExtend_cases : (0 ≤ v.toInt ∧ ((v.signExtend 64).toNat : Int) = v.toInt) ∨
      (v.toInt < 0 ∧ ((v.signExtend 64).toNat : Int) = v.toInt + 2 ^ 64) := by
  have hint := BitVec.toInt_eq_toNat_cond (v.signExtend 64)
  have hlt := (v.signExtend 64).isLt
  rw [BitVec.toInt_signExtend_of_le hw] at hint
  split at hint
  · exact Or.inl ⟨by omega, by omega⟩
  · exact Or.inr ⟨by omega, by push_cast at hint; omega⟩
end

theorem ok_thriftVarint_iff {w : Nat} (v : BitVec w) (hw : w ≤ 64) (f : BitVec 64 → BitVec 64) (n : BitVec 64) :
    (ok (thriftVarint (f (BitVec.ofNat 64 n.toNat))) : Outcome Failure Bytes) =
      .ok (zigzagBytes v) ↔ (f n).toNat = zigzag v.toInt := by
  rw [ok.injEq, zigzagBytes_eq v hw, thriftVarint_eq, natVarint_inj, BitVec.ofNat_toNat, BitVec.setWidth_eq]

theorem logical_zigzag_iff {m : Nat} (v : BitVec (m + 1)) (hw : m + 1 ≤ 64) (hpos : 1 ≤ m) :
    ((v.signExtend 64 <<< 1) ^^^ (v.signExtend 64 >>> m)).toNat = zigzag v.toInt ↔ 0 ≤ v.toInt := by
  have hsign := toNat_signExtend_cases v hw
  have hlt := (v.signExtend 64).isLt
  have hrange : v.toInt < 2 ^ m := by
    have h := BitVec.two_mul_toInt_lt (x := v)
    rw [pow_succ] at h
    omega
  have hshift : (v.signExtend 64 >>> m).toNat = (v.signExtend 64).toNat / 2 ^ m := by
    rw [BitVec.toNat_ushiftRight, Nat.shiftRight_eq_div_pow]
  rw [← toNat_zigzag_signExtend v hw, ← BitVec.toNat_eq, zigzagWord, BitVec.xor_right_inj, sshiftRight_sign]
  rcases hsign with ⟨hnonneg, hnat⟩ | ⟨hneg, hnat⟩
  · have hmsb : (v.signExtend 64).msb = false := BitVec.msb_eq_false_iff_two_mul_lt.2 (by
        have h := BitVec.two_mul_toInt_lt (x := v.signExtend 64)
        rw [BitVec.toInt_signExtend_of_le hw] at h
        omega)
    have hzero : v.signExtend 64 >>> m = 0 := by
      apply BitVec.eq_of_toNat_eq
      have hbelow : (v.signExtend 64).toNat < 2 ^ m := by
        have hcast : ((2 ^ m : Nat) : Int) = 2 ^ m := by norm_cast
        omega
      rw [hshift, Nat.div_eq_of_lt hbelow]
      rfl
    simp [hmsb, hzero, hnonneg]
  · have hmsb : (v.signExtend 64).msb = true := BitVec.msb_eq_true_iff_two_mul_ge.2 (by
        have h := BitVec.le_two_mul_toInt (x := v.signExtend 64)
        rw [BitVec.toInt_signExtend_of_le hw] at h
        omega)
    have hsmall : (v.signExtend 64 >>> m).toNat < 2 ^ 63 := by
      rw [hshift]
      calc (v.signExtend 64).toNat / 2 ^ m ≤ (v.signExtend 64).toNat / 2 ^ 1 :=
            Nat.div_le_div_left (Nat.pow_le_pow_right (by decide) hpos) (by decide)
        _ < 2 ^ 63 := by omega
    constructor
    · intro hall
      rw [hmsb, if_pos rfl] at hall
      rw [hall, BitVec.toNat_allOnes] at hsmall
      omega
    · intro hnonneg
      omega

theorem Rust.zigzag32_iff (v : BitVec 32) : (Rust.zigzag32 (v.signExtend 64)).toNat = zigzag v.toInt ↔
      -2 ^ 30 ≤ v.toInt ∧ v.toInt < 2 ^ 30 := by
  have hword : Rust.zigzag32 (v.signExtend 64) = (zigzagWord v).signExtend 64 := by
    simp only [Rust.zigzag32, setWidth_signExtend, zigzagWord]
  have hnat := toNat_zigzagWord v
  have hform : zigzag v.toInt < 2 ^ 31 ↔ -2 ^ 30 ≤ v.toInt ∧ v.toInt < 2 ^ 30 := by
    rcases lt_or_ge v.toInt 0 with hneg | hnonneg
    · rw [zigzag_of_neg hneg]
      omega
    · rw [zigzag_of_nonneg hnonneg]
      omega
  have hint := BitVec.toInt_eq_toNat_cond (zigzagWord v)
  rw [hword, ← hform]
  rcases toNat_signExtend_cases (zigzagWord v) (by decide) with ⟨hnonneg, hext⟩ | ⟨hneg, hext⟩
  · split at hint
    all_goals omega
  · split at hint
    all_goals omega

theorem Node.zigzag64_iff (v : BitVec 64) : Node.zigzag64 (v.signExtend 64).toNat = zigzag v.toInt ↔ 0 ≤ v.toInt := by
  have hsign := toNat_signExtend_cases v (Nat.le_refl 64)
  rw [BitVec.signExtend_eq] at hsign ⊢
  have hform : zigzag v.toInt < 2 ^ 64 := by
    rw [← toNat_zigzagWord]
    exact BitVec.isLt _
  rcases hsign with ⟨hnonneg, hnat⟩ | ⟨hneg, hnat⟩
  · have hzero : v.toNat >>> 63 = 0 := by
      rw [Nat.shiftRight_eq_div_pow, Nat.div_eq_of_lt]
      have h := BitVec.two_mul_toInt_lt (x := v)
      omega
    rw [Node.zigzag64, hzero, Nat.xor_zero, Nat.shiftLeft_eq, zigzag_of_nonneg hnonneg]
    omega
  · constructor
    · intro h
      have hbit : (Node.zigzag64 v.toNat).testBit 64 = false := Nat.testBit_lt_two_pow (by rw [h]; exact hform)
      have hhigh : v.toNat.testBit 63 = true := by
        have hge := BitVec.le_two_mul_toInt (x := v)
        rw [Nat.testBit_eq_decide_div_mod_eq, decide_eq_true_eq]
        omega
      have hlow : v.toNat.testBit 127 = false := Nat.testBit_lt_two_pow (Nat.lt_trans v.isLt (by decide))
      simp [Node.zigzag64, hhigh, hlow] at hbit
    · intro hnonneg
      omega

theorem Python.zigzag_iff {w : Nat} (v : BitVec w) (hw : w ≤ 64) (shift : Nat) :
    (Python.zigzag shift (v.signExtend 64).toNat).toNat = Foundation.zigzag v.toInt ↔ 0 ≤ v.toInt := by
  have hdouble : Python.zigzag shift (v.signExtend 64).toNat = 2 * (v.signExtend 64).toNat := by
    rw [Python.zigzag, if_neg (by omega), Int.shiftLeft_eq]
    omega
  rw [hdouble]
  rcases toNat_signExtend_cases v hw with ⟨hnonneg, hnat⟩ | ⟨hneg, hnat⟩
  · rw [zigzag_of_nonneg hnonneg]
    omega
  · have h := BitVec.le_two_mul_toInt (x := v.signExtend 64)
    rw [BitVec.toInt_signExtend_of_le hw] at h
    rw [zigzag_of_neg hneg]
    omega

theorem Python.readVarint_varint (pre post : Bytes) (raw : Varint) : Python.readVarint
    (pre ++ (raw.bytes ++ post)) pre.length = .ok (varintValue raw.bytes, pre.length + raw.bytes.length) := by
  rw [Python.readVarint, drop_left]
  exact varintLoop_nat raw.complete post pre.length

theorem Python.positionOf_succ (s : StructNode) (i : Fin s.fields.length) : Python.positionOf s (i + 1) = some i := by
  have hi := i.isLt
  rw [Python.positionOf, dif_pos (by omega)]
  rfl

theorem Python.scanCase_int {k : SignedKind} {raw : Bytes} {idx n idx' : Nat}
    (h : Python.readVarint raw idx = .ok (n, idx')) : Python.scanCase k.kind raw idx = .ok (.int n, idx') := by
  cases k with
  | int32 => simp only [SignedKind.kind, Python.scanCase, h, ok_bind]; rfl
  | int64 => simp only [SignedKind.kind, Python.scanCase, h, ok_bind]; rfl

theorem Python.step_int {k : SignedKind} {s : StructNode} {i : Fin s.fields.length}
    {key raw : Varint} (pre post : Bytes) (values : Fin s.fields.length → Python.PyVal)
    (hk : kindAt s i = k.kind) (hkey : varintValue key.bytes = 8 * (i + 1)) :
    Steps (Python.step s (pre ++ (key.bytes ++ (raw.bytes ++ post)))) ⟨pre.length, values⟩
      ⟨pre.length + key.bytes.length + raw.bytes.length, update values i (.int (varintValue raw.bytes))⟩ := by
  have hpos := key.length_pos
  have hreadKey := Python.readVarint_varint pre (raw.bytes ++ post) key
  have hreadRaw := Python.readVarint_varint (pre ++ key.bytes) post raw
  rw [append_assoc, length_append] at hreadRaw
  have hshift : varintValue key.bytes >>> 3 = i + 1 := by
    rw [hkey, Nat.shiftRight_eq_div_pow]
    omega
  rw [Steps, Python.step, if_pos (by simp only [length_append]; omega)]
  simp only [hreadKey, ok_bind, hshift, Python.positionOf_succ, hk, Python.scanCase_int hreadRaw]
  rfl

def SignedKind.shift : SignedKind → Nat
  | .int32 => 31
  | .int64 => 63

theorem Python.emitField_int (k : SignedKind) (num prevField : Nat) (n : Int) :
    Python.emitField k.kind num (.int n) prevField =
      (Python.fieldHeader k.code num prevField ++ natVarint (Python.zigzag k.shift n).toNat, num) := by
  cases k <;> rfl

theorem Python.emits_iff (k : SignedKind) (v : BitVec k.width) : Python.Emits k v ↔ 0 ≤ v.toInt := by
  have hbytes : natVarint (Python.zigzag k.shift (v.signExtend 64).toNat).toNat = zigzagBytes v ↔ 0 ≤ v.toInt := by
    rw [zigzagBytes_eq v k.width_le, natVarint_inj, Python.zigzag_iff v k.width_le]
  rw [← hbytes]
  constructor
  · intro h
    have hheld : Holds (Varint.encode (v.signExtend 64)) v := varintValue_encode _
    obtain ⟨value, hstep, hemit⟩ := h (counter k) ⟨0, by show 0 < 2; omega⟩ 0 (Varint.encode 8)
      (Varint.encode (v.signExtend 64)) [] [] (fun _ => .none) rfl rfl hheld
    have hstep' := @Python.step_int k (counter k) ⟨0, by show 0 < 2; omega⟩ (Varint.encode 8)
      (Varint.encode (v.signExtend 64)) [] [] (fun _ => .none) rfl rfl
    -- both runs store a value in the only variable
    have hvalue : value = .int (v.signExtend 64).toNat := by
      have hstate := (Flow.next.inj (ok.inj (hstep.symm.trans hstep')))
      have hcongr := congrFun (congrArg Python.ScanState.values hstate) ⟨0, by show 0 < 2; omega⟩
      dsimp only at hcongr
      rwa [update_self, update_self, hheld] at hcongr
    rw [hvalue, Python.emitField_int] at hemit
    exact append_cancel_left (Prod.mk.inj hemit).1
  · intro h s i prevField key raw pre post values hk hkey hraw
    refine ⟨.int (varintValue raw.bytes), Python.step_int pre post values hk hkey, ?_⟩
    rw [Python.emitField_int, hraw, h]

/-- The transpilers write the Compact value of a signed number exactly for these: Rust for `int32` from `-2 ^ 30` to
`2 ^ 30 - 1`, Node for no `int32`, and otherwise for the values that are not negative. -/
theorem emitsZigzag_iff (target : Target) (k : SignedKind) (v : BitVec k.width) :
    EmitsZigzag target k v ↔ ZigzagRange target k v.toInt := by
  cases target with
  | rust checks =>
    refine ((Rust.ordinary checks).emits_iff k v).trans ?_
    cases k with
    | int32 =>
      refine (ok_thriftVarint_iff v (by decide) _ _).trans ?_
      exact Rust.zigzag32_iff v
    | int64 =>
      refine (ok_thriftVarint_iff v (by decide) _ _).trans ?_
      exact logical_zigzag_iff (m := 63) v (by decide) (by decide)
  | cpp =>
    refine (Cpp.ordinary.emits_iff k v).trans ?_
    cases k with
    | int32 =>
      refine (ok_thriftVarint_iff v (by decide) _ _).trans ?_
      exact logical_zigzag_iff (m := 31) v (by decide) (by decide)
    | int64 =>
      refine (ok_thriftVarint_iff v (by decide) _ _).trans ?_
      exact logical_zigzag_iff (m := 63) v (by decide) (by decide)
  | node =>
    refine (Node.ordinary.emits_iff k v).trans ?_
    cases k with
    | int32 =>
      show error _ = ok _ ↔ False
      simp
    | int64 =>
      show ok _ = ok _ ↔ _
      rw [ok.injEq, zigzagBytes_eq v (by decide), natVarint_inj]
      exact Node.zigzag64_iff v
  | python =>
    refine (Python.emits_iff k v).trans ?_
    cases k <;> exact Iff.rfl

def minusOne : Bytes := 0x08 :: (replicate 9 0xff ++ [1])

theorem counter_values_wrong : zigzagBytes (-1 : BitVec 64) = [1] ∧
      (∀ checks, (Rust.template checks).Transpiles (counter .int64) minusOne
        (.ok (0x16 :: (replicate 9 0xff ++ [1, 0])))) ∧ Cpp.template.Transpiles (counter .int32) minusOne
        (.ok [0x15, 0x81, 0x80, 0x80, 0x80, 0xe0, 0xff, 0xff, 0xff, 0xff, 1, 0]) ∧
      Node.template.Transpiles (counter .int64) minusOne
        (.ok (0x16 :: (replicate 9 0xff ++ [3, 0]))) ∧ Python.Transpiles (counter .int32) minusOne
        (.ok (0x15 :: 0xfe :: (replicate 8 0xff ++ [3, 0]))) ∧
      zigzagBytes (0x40000000 : BitVec 32) = [0x80, 0x80, 0x80, 0x80, 8] ∧
      (∀ checks, (Rust.template checks).Transpiles (counter .int32)
        [0x08, 0x80, 0x80, 0x80, 0x80, 4]
        (.ok [0x15, 0x80, 0x80, 0x80, 0x80, 0xf8, 0xff, 0xff, 0xff, 0xff, 1, 0])) ∧
      Node.template.Transpiles (counter .int32) [0x08, 1] (.error .mixedTypes) ∧
      ¬ EmitsZigzag .node .int32 (1 : BitVec 32) := by
  refine ⟨by decide, ?_, ⟨3, by decide⟩, ⟨3, by decide⟩, ⟨3, by decide⟩, by decide, ?_, ⟨3, by decide⟩, ?_⟩
  · intro checks
    cases checks with
    | _ => exact ⟨3, by decide⟩
  · intro checks
    cases checks with
    | _ => exact ⟨3, by decide⟩
  · intro h
    obtain ⟨header, -, hstep⟩ := h (counter .int32) ⟨0, by decide⟩ 1 0 (Varint.encode 8)
      (Varint.encode 1) [] [] [] (by decide) (by decide) rfl rfl rfl rfl
    cases hstep

end HelixRpc.Codegen
