import HelixRpc.Foundation.Varint

/-!
# The Thrift Compact protocol

A reader of structs in the Compact protocol, by its published rules.
-/

namespace HelixRpc.Foundation

open Option BitVec

def zigzag (n : Int) : Nat := if 0 ≤ n then (2 * n).toNat else (-2 * n - 1).toNat

def unzigzag (n : Nat) : Int := if n % 2 = 0 then (n / 2 : Nat) else -((n / 2 : Nat) + 1)

theorem zigzag_of_nonneg {n : Int} (h : 0 ≤ n) : zigzag n = (2 * n).toNat := if_pos h

theorem zigzag_of_neg {n : Int} (h : n < 0) : zigzag n = (-2 * n - 1).toNat := if_neg (Int.not_le.2 h)

theorem unzigzag_zigzag (n : Int) : unzigzag (zigzag n) = n := by
  rcases lt_or_ge n 0 with hn | hn
  · rw [zigzag_of_neg hn, unzigzag, if_neg (by omega)]
    omega
  · rw [zigzag_of_nonneg hn, unzigzag, if_pos (by omega)]
    omega

def zigzagWord {w : Nat} (v : BitVec w) : BitVec w := (v <<< 1) ^^^ v.sshiftRight (w - 1)

theorem sshiftRight_sign {w : Nat} (v : BitVec w) : v.sshiftRight (w - 1) = if v.msb then allOnes w else 0 := by
  have hzero : ∀ u : BitVec w, u.msb = false → u >>> (w - 1) = 0 := by
    intro u hu
    apply eq_of_toNat_eq
    have hlt : u.toNat < 2 ^ (w - 1) := by
      have := msb_eq_false_iff_two_mul_lt.1 hu
      cases w with
      | zero => simpa using this
      | succ w =>
        rw [pow_succ] at this
        simp only [Nat.add_one_sub_one]
        omega
    simp [Nat.shiftRight_eq_div_pow, Nat.div_eq_of_lt hlt]
  cases h : v.msb with
  | false => rw [sshiftRight_eq_of_msb_false h, hzero v h]; rfl
  | true =>
    have hnot : (~~~v).msb = false ∨ w = 0 := by
      cases w with
      | zero => exact Or.inr rfl
      | succ w => left; simp [msb_not, h]
    rw [sshiftRight_eq_of_msb_true h]
    rcases hnot with hnot | rfl
    · rw [hzero _ hnot]
      simp
    · exact Subsingleton.elim _ _

theorem toNat_zigzagWord {w : Nat} (v : BitVec w) : (zigzagWord v).toNat = zigzag v.toInt := by
  have hv := v.isLt
  have hshift : (v <<< 1).toNat = 2 * v.toNat % 2 ^ w := by
    rw [toNat_shiftLeft, Nat.shiftLeft_eq, Nat.mul_comm, pow_one]
  cases h : v.msb with
  | false =>
    have hlt := msb_eq_false_iff_two_mul_lt.1 h
    have hword : zigzagWord v = v <<< 1 := by simp [zigzagWord, sshiftRight_sign, h]
    rw [hword, hshift, Nat.mod_eq_of_lt hlt, toInt_eq_toNat_of_msb h, zigzag_of_nonneg (Int.natCast_nonneg _)]
    omega
  | true =>
    have hge := msb_eq_true_iff_two_mul_ge.1 h
    have hword : zigzagWord v = ~~~(v <<< 1) := by simp [zigzagWord, sshiftRight_sign, h]
    have hint : v.toInt = (v.toNat : Int) - (2 ^ w : Nat) := by rw [toInt_eq_msb_cond, h, if_pos rfl]
    have hmod : 2 * v.toNat % 2 ^ w = 2 * v.toNat - 2 ^ w := by rw [Nat.mod_eq_sub_mod hge, Nat.mod_eq_of_lt (by omega)]
    rw [hword, toNat_not, hshift, hmod, hint, zigzag_of_neg (by omega)]
    omega

inductive CompactType where
  | boolTrue
  | boolFalse
  | byte
  | i16
  | i32
  | i64
  | double
  | binary
  deriving DecidableEq, Repr

def CompactType.code : CompactType → Nat
  | .boolTrue => 1
  | .boolFalse => 2
  | .byte => 3
  | .i16 => 4
  | .i32 => 5
  | .i64 => 6
  | .double => 7
  | .binary => 8

def CompactType.ofCode : Nat → Option CompactType
  | 1 => some .boolTrue
  | 2 => some .boolFalse
  | 3 => some .byte
  | 4 => some .i16
  | 5 => some .i32
  | 6 => some .i64
  | 7 => some .double
  | 8 => some .binary
  | _ => none

inductive CompactValue where
  | bool (b : Bool)
  | byte (b : UInt8)
  | i16 (v : BitVec 16)
  | i32 (v : BitVec 32)
  | i64 (v : BitVec 64)
  | double (raw : Bytes)
  | binary (b : Bytes)
  deriving DecidableEq

inductive FieldHeader where
  | stop
  | field (type : CompactType) (id : BitVec 16)
  deriving DecidableEq

def takeVarint : Bytes → Option (Nat × Bytes)
  | [] => none
  | b :: bs =>
    if b.toNat < 128 then some (b.toNat, bs)
    else do
      let (n, bs) ← takeVarint bs
      some (b.toNat % 128 + 128 * n, bs)

def readFieldHeader (last : BitVec 16) : Bytes → Option (FieldHeader × Bytes)
  | [] => none
  | b :: bs =>
    if b.toNat % 16 = 0 then some (.stop, bs)
    else do
      let type ← CompactType.ofCode (b.toNat % 16)
      if b.toNat / 16 = 0 then do
        let (n, bs) ← takeVarint bs
        some (.field type (BitVec.ofInt 16 (unzigzag n)), bs)
      else some (.field type (last + BitVec.ofNat 16 (b.toNat / 16)), bs)

def readValue : CompactType → Bytes → Option (CompactValue × Bytes)
  | .boolTrue, bs => some (.bool true, bs)
  | .boolFalse, bs => some (.bool false, bs)
  | .byte, [] => none
  | .byte, b :: bs => some (.byte b, bs)
  | .i16, bs => do
      let (n, bs) ← takeVarint bs
      some (.i16 (BitVec.ofInt 16 (unzigzag n)), bs)
  | .i32, bs => do
      let (n, bs) ← takeVarint bs
      some (.i32 (BitVec.ofInt 32 (unzigzag n)), bs)
  | .i64, bs => do
      let (n, bs) ← takeVarint bs
      some (.i64 (BitVec.ofInt 64 (unzigzag n)), bs)
  | .double, bs => if 8 ≤ bs.length then some (.double (bs.take 8), bs.drop 8) else none
  | .binary, bs => do
      let (n, bs) ← takeVarint bs
      if n ≤ bs.length then some (.binary (bs.take n), bs.drop n) else none

abbrev CompactField := BitVec 16 × CompactValue

def readFields : Nat → BitVec 16 → Bytes → Option (List CompactField × Bytes)
  | 0, _, _ => none
  | fuel + 1, last, bs => do
      let (header, bs) ← readFieldHeader last bs
      match header with
      | .stop => some ([], bs)
      | .field type id => do
          let (v, bs) ← readValue type bs
          let (fields, bs) ← readFields fuel id bs
          some ((id, v) :: fields, bs)

def readStruct (bs : Bytes) : Option (List CompactField × Bytes) := readFields bs.length 0 bs

theorem CompactType.ofCode_code (t : CompactType) : ofCode t.code = some t := by
  cases t with
  | _ => rfl

theorem CompactType.code_bounds (t : CompactType) : 1 ≤ t.code ∧ t.code ≤ 8 := by
  cases t with
  | _ => decide

theorem shift_or_code (d : Nat) {code : Nat} (hcode : code < 16) : d <<< 4 ||| code = 16 * d + code := by
  rw [← Nat.shiftLeft_add_eq_or_of_lt (i := 4) hcode, Nat.shiftLeft_eq, Nat.mul_comm]

theorem takeVarint_append {g : Bytes} (hg : isVarint g = true) (rest : Bytes) :
    takeVarint (g ++ rest) = some (varintValue g, rest) := by
  induction g with
  | nil => simp [isVarint] at hg
  | cons b bs ih =>
    by_cases hb : b.toNat < 128
    · rw [isVarint_cons_last hb, List.isEmpty_iff] at hg
      subst hg
      have hv : varintValue [b] = b.toNat := by
        simp only [varintValue]
        omega
      rw [List.singleton_append, takeVarint, if_pos hb, hv]
    · rw [isVarint_cons_more (Nat.not_lt.1 hb)] at hg
      rw [List.cons_append, takeVarint, if_neg hb, ih hg]
      rfl

theorem takeVarint_encodeVarint (v : BitVec 64) (rest : Bytes) :
    takeVarint (encodeVarint v ++ rest) = some (v.toNat, rest) := by
  have hv : varintValue (encodeVarint v) = v.toNat := varintValue_encodeGroups 9 _ (toNat_lt_groups v)
  rw [takeVarint_append (isVarint_encodeVarint v), hv]

theorem readFieldHeader_short (last : BitVec 16) (type : CompactType) {d : Nat} (hpos : 1 ≤ d) (hle : d ≤ 15)
    (rest : Bytes) : readFieldHeader last (UInt8.ofNat (16 * d + type.code) :: rest) =
    some (.field type (last + BitVec.ofNat 16 d), rest) := by
  have hcode := type.code_bounds
  have hbyte := toNat_ofNat_of_lt (n := 16 * d + type.code) (by omega)
  have hlow : (16 * d + type.code) % 16 = type.code := by omega
  have hhigh : (16 * d + type.code) / 16 = d := by omega
  rw [readFieldHeader, hbyte, hlow, hhigh, if_neg (by omega), type.ofCode_code, bind_eq_bind,
    bind_some, if_neg (by omega)]

theorem readFieldHeader_byte (last : BitVec 16) (type : CompactType) {b : UInt8} (hb : b.toNat < 128) (rest : Bytes) :
    readFieldHeader last (UInt8.ofNat type.code :: b :: rest) =
      some (.field type (BitVec.ofInt 16 (unzigzag b.toNat)), rest) := by
  have hcode := type.code_bounds
  have hbyte := toNat_ofNat_of_lt (n := type.code) (by omega)
  have hlow : type.code % 16 = type.code := by omega
  have hhigh : type.code / 16 = 0 := by omega
  rw [readFieldHeader, hbyte, hlow, hhigh, if_neg (by omega), type.ofCode_code, bind_eq_bind,
    bind_some, if_pos rfl, takeVarint, if_pos hb]
  rfl

theorem readValue_i64 (v : BitVec 64) (rest : Bytes) :
    readValue .i64 (encodeVarint (zigzagWord v) ++ rest) = some (.i64 v, rest) := by
  rw [readValue, takeVarint_encodeVarint, toNat_zigzagWord]
  show some (CompactValue.i64 (BitVec.ofInt 64 (unzigzag (zigzag v.toInt))), rest) = _
  rw [unzigzag_zigzag, ofInt_toInt]

theorem readValue_i32 (v : BitVec 32) (rest : Bytes) :
    readValue .i32 (encodeVarint (zigzagWord (v.signExtend 64)) ++ rest) = some (.i32 v, rest) := by
  rw [readValue, takeVarint_encodeVarint, toNat_zigzagWord, toInt_signExtend_of_le (by decide)]
  show some (CompactValue.i32 (BitVec.ofInt 32 (unzigzag (zigzag v.toInt))), rest) = _
  rw [unzigzag_zigzag, ofInt_toInt]

theorem readValue_binary {len : BitVec 64} {b : Bytes} (hlen : len.toNat = b.length) (rest : Bytes) :
    readValue .binary (encodeVarint len ++ (b ++ rest)) = some (.binary b, rest) := by
  rw [readValue, takeVarint_encodeVarint, hlen]
  show (if b.length ≤ (b ++ rest).length then
    some (CompactValue.binary ((b ++ rest).take b.length), (b ++ rest).drop b.length) else none) = _
  rw [if_pos (by simp), List.take_left, List.drop_left]

theorem readFields_cons {fuel : Nat} {last id : BitVec 16} {type : CompactType} {v : CompactValue}
    {bs value rest : Bytes} (hheader : readFieldHeader last bs = some (.field type id, value))
    (hvalue : readValue type value = some (v, rest)) :
    readFields (fuel + 1) last bs = (readFields fuel id rest).map fun r => ((id, v) :: r.1, r.2) := by
  rw [readFields, hheader, bind_eq_bind, bind_some]
  simp only [hvalue, bind_eq_bind, bind_some]
  cases readFields fuel id rest <;> rfl

theorem readFields_stop (fuel : Nat) (last : BitVec 16) (rest : Bytes) :
    readFields (fuel + 1) last (0 :: rest) = some ([], rest) := rfl

end HelixRpc.Foundation
