import HelixRpc.Foundation.Loop
import HelixRpc.Foundation.Varint
import Mathlib.Data.Nat.Bitwise

/-!
# Varints in languages with different integers

Programs read a varint with one loop, which accumulates seven payload bits of each byte at the current shift.
-/

namespace HelixRpc.Foundation

universe u v

section
variable {ε : Type u} {V : Type v}

def varintLoop (eof : ε) (add : V → Nat → Nat → Outcome ε V) : Bytes → Nat → V → Nat → Outcome ε (V × Nat)
  | [], _, _, _ => .error eof
  | b :: rest, idx, acc, k =>
    match add acc (b.toNat % 128) (7 * k) with
    | .ok acc =>
      if b.toNat < 128 then .ok (acc, idx + 1)
      else varintLoop eof add rest (idx + 1) acc (k + 1)
    | .error e => .error e
    | .fault f => .fault f

theorem varintLoop_group {eof : ε} {add : V → Nat → Nat → Outcome ε V} (total : V → Bytes → Nat → V) (limit : Nat)
    (hnil : ∀ acc k, total acc [] k = acc) (hadd : ∀ acc b bs k, k < limit → ∃ acc',
    add acc (b.toNat % 128) (7 * k) = .ok acc' ∧ total acc' bs (k + 1) = total acc (b :: bs) k) {g : Bytes} (hg :
    isVarint g = true) (rest : Bytes) (idx : Nat) (acc : V) (k : Nat) (hk : k + g.length ≤
    limit) : varintLoop eof add (g ++ rest) idx acc k = .ok (total acc g k, idx + g.length) := by
  induction g generalizing idx acc k with
  | nil => simp [isVarint] at hg
  | cons b bs ih =>
    rw [List.length_cons] at hk
    obtain ⟨acc', hacc, htotal⟩ := hadd acc b bs k (by omega)
    rw [List.cons_append, varintLoop, hacc]
    dsimp only
    by_cases hb : b.toNat < 128
    · rw [isVarint_cons_last hb, List.isEmpty_iff] at hg
      subst hg
      rw [if_pos hb, ← htotal, hnil]
      rfl
    · rw [isVarint_cons_more (Nat.not_lt.1 hb)] at hg
      rw [if_neg hb, ih hg _ _ _ (by omega), htotal, List.length_cons, Nat.add_assoc, Nat.add_comm 1]

def wordTotal (acc : BitVec 64) (g : Bytes) (k : Nat) : BitVec 64 := acc ||| BitVec.ofNat 64 (varintValue g) <<< (7 * k)

theorem varintLoop_word {eof : ε} {add : BitVec 64 → Nat → Nat → Outcome ε (BitVec 64)}
    (hadd : ∀ acc p s, s < 64 → add acc p s = .ok (acc ||| BitVec.ofNat 64 p <<< s))
    (raw : Varint) (rest : Bytes) (idx : Nat) :
    varintLoop eof add (raw.bytes ++ rest) idx 0 0 = .ok (raw.value, idx + raw.bytes.length) := by
  have hshort := raw.short
  rw [varintLoop_group wordTotal 10 ?_ ?_ raw.complete rest idx 0 0 (by omega)]
  · simp [wordTotal, Varint.value]
  · intro acc k
    simp [wordTotal, varintValue]
  · intro acc b bs k hk
    exact ⟨_, hadd acc _ _ (by omega), or_group_shift acc b bs (7 * k)⟩

def natTotal (acc : Nat) (g : Bytes) (k : Nat) : Nat := acc ||| varintValue g <<< (7 * k)

theorem varintLoop_nat {eof : ε} {g : Bytes} (hg : isVarint g = true) (rest : Bytes) (idx : Nat) :
    varintLoop eof (fun acc p s => .ok (acc ||| p <<< s)) (g ++ rest) idx 0 0 =
      .ok (varintValue g, idx + g.length) := by
  rw [varintLoop_group natTotal g.length ?_ ?_ hg rest idx 0 0 (by omega)]
  · simp [natTotal]
  · intro acc k
    simp [natTotal, varintValue]
  · intro acc b bs k _
    refine ⟨_, rfl, ?_⟩
    have hgroup : varintValue (b :: bs) = b.toNat % 128 ||| varintValue bs <<< 7 := by
      have hor := Nat.two_pow_add_eq_or_of_lt (i := 7) (b := b.toNat % 128) (Nat.mod_lt _ (by decide)) (varintValue bs)
      rw [Nat.shiftLeft_eq, Nat.or_comm, Nat.mul_comm, ← hor, varintValue]
      exact Nat.add_comm _ _
    rw [natTotal, natTotal, hgroup, Nat.shiftLeft_or_distrib, ← Nat.shiftLeft_add, Nat.mul_succ,
      Nat.add_comm 7, Nat.or_assoc]
end

def natVarintLoop : Nat → Nat → Bytes
  | 0, n => [UInt8.ofNat n]
  | fuel + 1, n =>
    if n < 128 then [UInt8.ofNat n]
    else UInt8.ofNat (n % 128 ||| 128) :: natVarintLoop fuel (n >>> 7)

def natVarint (n : Nat) : Bytes := natVarintLoop n n

theorem low_or_mark (n : Nat) : n % 128 ||| 128 = n % 128 + 128 := by
  have hor := Nat.two_pow_add_eq_or_of_lt (i := 7) (b := n % 128) (Nat.mod_lt _ (by decide)) 1
  rw [Nat.or_comm]
  simpa [Nat.add_comm] using hor.symm

theorem natVarintLoop_eq_encodeGroups {k n : Nat} (hn : n < 128 ^ (k + 1)) (fuel : Nat)
    (hfuel : k ≤ fuel) : natVarintLoop fuel n = encodeGroups k n := by
  induction k generalizing n fuel with
  | zero =>
    have hlt : n < 128 := by simpa using hn
    cases fuel with
    | zero => rfl
    | succ fuel => rw [natVarintLoop, if_pos hlt, encodeGroups]
  | succ k ih =>
    obtain ⟨fuel, rfl⟩ := Nat.exists_eq_add_one_of_ne_zero (by omega : fuel ≠ 0)
    rw [natVarintLoop, encodeGroups]
    by_cases hlt : n < 128
    · rw [if_pos hlt, if_pos hlt]
    · have hshift : n >>> 7 = n / 128 := Nat.shiftRight_eq_div_pow n 7
      have hsmall : n / 128 < 128 ^ (k + 1) := by
        rw [Nat.div_lt_iff_lt_mul (by omega)]
        rwa [pow_succ] at hn
      rw [if_neg hlt, if_neg hlt, low_or_mark, hshift, ih hsmall fuel (by omega)]

theorem lt_pow_succ (n : Nat) : n < 128 ^ (n + 1) := Nat.lt_trans (Nat.lt_succ_self n) (Nat.lt_pow_self (by decide))

theorem varintValue_natVarint (n : Nat) : varintValue (natVarint n) = n := by
  rw [natVarint, natVarintLoop_eq_encodeGroups (lt_pow_succ n) n (Nat.le_refl n)]
  exact varintValue_encodeGroups n n (lt_pow_succ n)

theorem natVarint_inj {n m : Nat} : natVarint n = natVarint m ↔ n = m := by
  constructor
  · intro h
    rw [← varintValue_natVarint n, h, varintValue_natVarint m]
  · rintro rfl
    rfl

theorem natVarint_toNat (v : BitVec 64) : natVarint v.toNat = encodeVarint v := by
  have hwide := natVarintLoop_eq_encodeGroups (toNat_lt_groups v) (v.toNat + 9) (by omega)
  have hnarrow := natVarintLoop_eq_encodeGroups (lt_pow_succ v.toNat) (v.toNat + 9) (by omega)
  rw [encodeVarint, ← hwide, hnarrow, natVarint,
    natVarintLoop_eq_encodeGroups (lt_pow_succ v.toNat) v.toNat (Nat.le_refl _)]

end HelixRpc.Foundation
