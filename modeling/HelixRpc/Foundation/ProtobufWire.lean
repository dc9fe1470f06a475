import HelixRpc.Foundation.Slice

/-!
# Records of the protobuf wire format

A message is a concatenation of records.
-/

namespace HelixRpc.Foundation

open List BitVec

inductive Body where
  | varint (raw : Varint)
  | fixed64 (raw : Bytes) (size : raw.length = 8)
  | delimited (len : Varint) (payload : Slice) (size : len.value.toNat = payload.bytes.length)
  deriving DecidableEq

namespace Body

def wireType : Body → Nat
  | .varint _ => 0
  | .fixed64 _ _ => 1
  | .delimited _ _ _ => 2

def bytes : Body → Bytes
  | .varint raw => raw.bytes
  | .fixed64 raw _ => raw
  | .delimited len payload _ => len.bytes ++ payload.bytes

theorem wireType_le (b : Body) : b.wireType ≤ 2 := by
  cases b with
  | varint raw => show 0 ≤ 2; omega
  | fixed64 raw size => show 1 ≤ 2; omega
  | delimited len payload size => show 2 ≤ 2; omega

theorem wireType_lt (b : Body) : b.wireType < 8 := by
  have := b.wireType_le
  omega

end Body

structure Record where
  num : Nat
  key : Varint
  body : Body
  num_pos : 1 ≤ num
  num_lt : num < 2 ^ 29
  key_value : key.value.toNat = 8 * num + body.wireType
  deriving DecidableEq

namespace Record

def bytes (r : Record) : Bytes := r.key.bytes ++ r.body.bytes

theorem key_num (r : Record) : (r.key.value >>> 3).setWidth 32 = BitVec.ofNat 32 r.num := by
  have hlt := r.num_lt
  have hw := r.body.wireType_lt
  have hk := r.key_value
  apply eq_of_toNat_eq
  rw [toNat_setWidth, toNat_ushiftRight, Nat.shiftRight_eq_div_pow, hk, toNat_ofNat]
  congr 1
  omega

theorem key_wireType (r : Record) : (r.key.value &&& 7).toNat = r.body.wireType := by
  have hw := r.body.wireType_lt
  have hk := r.key_value
  rw [toNat_and]
  have := Nat.and_two_pow_sub_one_eq_mod r.key.value.toNat 3
  simp only [Nat.reducePow, Nat.reduceSub] at this
  show r.key.value.toNat &&& 7 = _
  rw [this, hk]
  omega

def keyWord (num wireType : Nat) : BitVec 64 := BitVec.ofNat 64 (8 * num + wireType)

theorem keyWord_toNat {num wireType : Nat} (hn : num < 2 ^ 29) (hw : wireType < 8) :
    (keyWord num wireType).toNat = 8 * num + wireType := by
  rw [keyWord, toNat_ofNat]
  exact Nat.mod_eq_of_lt (by omega)

def ofBody (num : Nat) (hpos : 1 ≤ num) (hlt : num < 2 ^ 29) (body : Body) : Record where
  num := num
  key := Varint.encode (keyWord num body.wireType)
  body := body
  num_pos := hpos
  num_lt := hlt
  key_value := by rw [Varint.value_encode, keyWord_toNat hlt body.wireType_lt]

def ofIndex (i : BitVec 4) (body : Body) : Record :=
  ofBody (i.toNat + 1) (Nat.le_add_left 1 i.toNat) (by have := i.isLt; omega) body

def wordBody (v : BitVec 64) : Body := .varint (Varint.encode v)

def sliceBody (b : Slice) : Body := .delimited (Varint.encode (BitVec.ofNat 64 b.bytes.length)) b (by
    have := b.len_lt
    rw [Varint.value_encode, toNat_ofNat]
    exact Nat.mod_eq_of_lt (by omega))

end Record

def encodeRecords (rs : List Record) : Bytes := rs.flatMap Record.bytes

@[simp] theorem encodeRecords_nil : encodeRecords [] = [] := rfl
@[simp] theorem encodeRecords_cons (r : Record) (rs : List Record) :
    encodeRecords (r :: rs) = r.bytes ++ encodeRecords rs := rfl

theorem encodeRecords_append (rs qs : List Record) :
    encodeRecords (rs ++ qs) = encodeRecords rs ++ encodeRecords qs := by simp [encodeRecords]

theorem cut_cases {a b cut rest : Bytes} (h : a ++ b = cut ++ rest) :
    (∃ c, c ≠ [] ∧ a = cut ++ c) ∨ ∃ d, cut = a ++ d ∧ b = d ++ rest := by
  rcases append_eq_append_iff.1 h with ⟨d, hd, hb⟩ | ⟨c, hc, hr⟩
  · exact Or.inr ⟨d, hd, hb⟩
  -- a cut at the seam counts as one into the second part
  · by_cases hnil : c = []
    · refine Or.inr ⟨[], ?_, ?_⟩
      · rw [hc, hnil, append_nil, append_nil]
      · rw [hr, hnil, nil_append, nil_append]
    · exact Or.inl ⟨c, hnil, hc⟩

structure CutRecord (r : Record) (cut : Bytes) : Prop where
  nonempty : cut ≠ []
  missing : ∃ rest, rest ≠ [] ∧ r.bytes = cut ++ rest

end HelixRpc.Foundation
