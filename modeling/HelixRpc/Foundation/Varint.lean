import Mathlib.Data.List.Basic
import Mathlib.Tactic.Ring

/-!
# Base-128 varints

A varint is a group of bytes with seven payload bits each, lowest first; every byte but the last has the continuation
bit `0x80`.
-/

namespace HelixRpc.Foundation

open List

abbrev Bytes := List UInt8

def Continues (b : UInt8) : Prop := 128 ≤ b.toNat

instance (b : UInt8) : Decidable (Continues b) := inferInstanceAs (Decidable (128 ≤ b.toNat))

def isVarint : Bytes → Bool
  | [] => false
  | b :: bs => if b.toNat < 128 then bs.isEmpty else isVarint bs

def varintValue : Bytes → Nat
  | [] => 0
  | b :: bs => b.toNat % 128 + 128 * varintValue bs

def encodeGroups : Nat → Nat → Bytes
  | 0, n => [UInt8.ofNat n]
  | k + 1, n =>
    if n < 128 then [UInt8.ofNat n]
    else UInt8.ofNat (n % 128 + 128) :: encodeGroups k (n / 128)

variable (v : BitVec 64)

def encodeVarint : Bytes := encodeGroups 9 v.toNat

theorem isVarint_cons_last {b : UInt8} (h : b.toNat < 128) (bs : Bytes) :
    isVarint (b :: bs) = bs.isEmpty := by simp [isVarint, h]

theorem isVarint_cons_more {b : UInt8} (h : Continues b) (bs : Bytes) : isVarint (b :: bs) = isVarint bs := by
  have hb : ¬ b.toNat < 128 := Nat.not_lt.2 h
  simp [isVarint, hb]

theorem ne_nil_of_isVarint {bs : Bytes} (h : isVarint bs = true) : bs ≠ [] := by
  rintro rfl
  simp [isVarint] at h

theorem length_pos_of_isVarint {bs : Bytes} (h : isVarint bs = true) : 0 < bs.length :=
  length_pos_iff.2 (ne_nil_of_isVarint h)

theorem continues_of_isVarint_append {pre post : Bytes} (h : isVarint (pre ++ post) = true)
    (hpost : post ≠ []) : ∀ b ∈ pre, Continues b := by
  induction pre with
  | nil => intro b hb; simp at hb
  | cons c cs ih =>
    intro b hb
    by_cases hc : c.toNat < 128
    -- a last byte inside the beginning would leave nothing for the rest
    · rw [cons_append, isVarint_cons_last hc, List.isEmpty_iff] at h
      exact absurd (append_eq_nil_iff.1 h).2 hpost
    · have hcc : Continues c := Nat.not_lt.1 hc
      rw [cons_append, isVarint_cons_more hcc] at h
      rcases mem_cons.1 hb with rfl | hmem
      · exact hcc
      · exact ih h b hmem

theorem toNat_ofNat_of_lt {n : Nat} (h : n < 256) : (UInt8.ofNat n).toNat = n := by
  rw [UInt8.toNat_ofNat']
  exact Nat.mod_eq_of_lt h

theorem isVarint_encodeGroups (k n : Nat) (h : n < 128 ^ (k + 1)) : isVarint (encodeGroups k n) = true := by
  induction k generalizing n with
  | zero =>
    have hn : n < 128 := by simpa using h
    have hb : (UInt8.ofNat n).toNat < 128 := by rw [toNat_ofNat_of_lt (by omega)]; exact hn
    rw [encodeGroups, isVarint_cons_last hb, isEmpty_nil]
  | succ k ih =>
    unfold encodeGroups
    split
    · rename_i hn
      have hb : (UInt8.ofNat n).toNat < 128 := by rw [toNat_ofNat_of_lt (by omega)]; exact hn
      rw [isVarint_cons_last hb, isEmpty_nil]
    · have hb : Continues (UInt8.ofNat (n % 128 + 128)) := by
        unfold Continues
        rw [toNat_ofNat_of_lt (by omega)]
        omega
      rw [isVarint_cons_more hb]
      apply ih
      rw [Nat.div_lt_iff_lt_mul (by omega)]
      rwa [pow_succ] at h

theorem varintValue_encodeGroups (k n : Nat) (h : n < 128 ^ (k + 1)) : varintValue (encodeGroups k n) = n := by
  induction k generalizing n with
  | zero =>
    have hn : n < 128 := by simpa using h
    simp only [encodeGroups, varintValue]
    rw [toNat_ofNat_of_lt (by omega)]
    omega
  | succ k ih =>
    unfold encodeGroups
    split
    · simp only [varintValue]
      rw [toNat_ofNat_of_lt (by omega)]
      omega
    · have hlt : n / 128 < 128 ^ (k + 1) := by
        rw [Nat.div_lt_iff_lt_mul (by omega)]
        rwa [pow_succ] at h
      simp only [varintValue]
      rw [toNat_ofNat_of_lt (by omega), ih _ hlt]
      omega

theorem length_encodeGroups_le (k n : Nat) : (encodeGroups k n).length ≤ k + 1 := by
  induction k generalizing n with
  | zero => simp [encodeGroups]
  | succ k ih =>
    unfold encodeGroups
    split
    · simp
    · have := ih (n / 128)
      simp only [length_cons]
      omega

theorem toNat_lt_groups : v.toNat < 128 ^ (9 + 1) := by
  have := v.isLt
  omega

theorem isVarint_encodeVarint : isVarint (encodeVarint v) = true :=
  isVarint_encodeGroups 9 _ (toNat_lt_groups v)

theorem length_encodeVarint_le : (encodeVarint v).length ≤ 10 := length_encodeGroups_le 9 _

theorem length_encodeVarint_eq_one_iff : (encodeVarint v).length = 1 ↔ v.toNat < 128 := by
  unfold encodeVarint encodeGroups
  split
  · rename_i h
    simp [h]
  · rename_i h
    -- a first byte with the continuation bit is followed by another one
    have hpos : 0 < (encodeGroups 8 (v.toNat / 128)).length := by
      cases hg : encodeGroups 8 (v.toNat / 128) with
      | nil =>
        unfold encodeGroups at hg
        split at hg <;> simp at hg
      | cons b bs => simp
    simp only [length_cons]
    omega

theorem encodeVarint_of_lt {v : BitVec 64} (h : v.toNat < 128) : encodeVarint v = [UInt8.ofNat v.toNat] := by
  simp [encodeVarint, encodeGroups, h]

structure Varint where
  bytes : Bytes
  complete : isVarint bytes = true
  short : bytes.length ≤ 10
  deriving DecidableEq

namespace Varint

def value (v : Varint) : BitVec 64 := BitVec.ofNat 64 (varintValue v.bytes)

def encode (v : BitVec 64) : Varint where
  bytes := encodeVarint v
  complete := isVarint_encodeVarint v
  short := length_encodeVarint_le v

@[simp] theorem bytes_encode (v : BitVec 64) : (encode v).bytes = encodeVarint v := rfl

theorem length_pos (v : Varint) : 0 < v.bytes.length := length_pos_of_isVarint v.complete

@[simp] theorem value_encode (v : BitVec 64) : (encode v).value = v := by
  have h : varintValue (encodeVarint v) = v.toNat := varintValue_encodeGroups 9 _ (toNat_lt_groups v)
  simp [value, h]

end Varint

theorem ofNat_group {w : Nat} (lo m : Nat) (hlo : lo < 128) :
    BitVec.ofNat w (lo + 128 * m) = BitVec.ofNat w lo ||| BitVec.ofNat w m <<< 7 := by
  have h : lo + 128 * m = lo ||| m <<< 7 := by
    have := Nat.two_pow_add_eq_or_of_lt (i := 7) (b := lo) (by omega) m
    rw [Nat.shiftLeft_eq, Nat.or_comm, Nat.mul_comm m, ← this]
    omega
  have hs : BitVec.ofNat w (m <<< 7) = BitVec.ofNat w m <<< 7 := by
    apply BitVec.eq_of_toNat_eq
    simp [Nat.shiftLeft_eq, Nat.mod_mul_mod]
  rw [h, BitVec.ofNat_or, hs]

theorem or_group_shift {w : Nat} (v : BitVec w) (b : UInt8) (bs : Bytes) (shift : Nat) :
    (v ||| BitVec.ofNat w (b.toNat % 128) <<< shift) |||
        BitVec.ofNat w (varintValue bs) <<< (shift + 7) = v ||| BitVec.ofNat w (varintValue (b :: bs)) <<< shift := by
  have hg : BitVec.ofNat w (varintValue (b :: bs)) =
      BitVec.ofNat w (b.toNat % 128) ||| BitVec.ofNat w (varintValue bs) <<< 7 :=
    ofNat_group _ _ (Nat.mod_lt _ (by omega))
  have hs : BitVec.ofNat w (varintValue bs) <<< (shift + 7) = (BitVec.ofNat w (varintValue bs) <<< 7) <<< shift := by
    rw [Nat.add_comm, BitVec.shiftLeft_add]
  rw [hg, BitVec.shiftLeft_or_distrib, hs, BitVec.or_assoc]

end HelixRpc.Foundation
