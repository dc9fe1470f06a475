import Mathlib.Tactic.Linarith

/-!
# Signed words as integers

Sums, differences and products of `Int64` wrap around; a clamped result (`Int64.ofIntClamp`) stays at the end of the
range instead.
-/

namespace HelixRpc.Foundation

open Int64

theorem bmod_of_mem {z : Int} (h : -2 ^ 63 ≤ z) (h' : z < 2 ^ 63) : z.bmod (2 ^ 64) = z :=
  Int.bmod_eq_of_le (by omega) (by omega)

theorem bmod_le_self {z : Int} (h : -2 ^ 63 ≤ z) : z.bmod (2 ^ 64) ≤ z := by
  rw [Int.bmod_def]
  omega

namespace SignedWord

theorem toInt_ofInt_of_mem {z : Int} (h : -2 ^ 63 ≤ z) (h' : z < 2 ^ 63) : (Int64.ofInt z).toInt = z := by
  rw [toInt_ofInt]
  exact bmod_of_mem h h'

variable {a b : Int64}

theorem toInt_add_of_mem (h : -2 ^ 63 ≤ a.toInt + b.toInt) (h' : a.toInt + b.toInt < 2 ^ 63) :
    (a + b).toInt = a.toInt + b.toInt := by
  rw [toInt_add]
  exact bmod_of_mem h h'

theorem toInt_sub_of_mem (h : -2 ^ 63 ≤ a.toInt - b.toInt) (h' : a.toInt - b.toInt < 2 ^ 63) :
    (a - b).toInt = a.toInt - b.toInt := by
  rw [toInt_sub]
  exact bmod_of_mem h h'

theorem toInt_ofNat_mul {m n : Nat} (hm : m < 2 ^ 63) (hn : n < 2 ^ 63) (h : m * n < 2 ^ 63) :
    (Int64.ofNat m * Int64.ofNat n).toInt = (m * n : Nat) := by
  rw [toInt_mul, toInt_ofNat_of_lt hm, toInt_ofNat_of_lt hn, ← Int.natCast_mul]
  exact bmod_of_mem (by omega) (by exact_mod_cast h)

theorem toInt_add_one (h : a ≠ maxValue) : (a + 1).toInt = a.toInt + 1 := by
  have hlow := a.le_toInt
  have hne : a.toInt ≠ 2 ^ 63 - 1 := fun heq => h (toInt_inj.1 heq)
  have hhigh := a.toInt_lt
  exact toInt_add_of_mem (by rw [toInt_one]; omega) (by rw [toInt_one]; omega)

theorem toInt_ofIntClamp (z : Int) : (ofIntClamp z).toInt = max (-2 ^ 63) (min z (2 ^ 63 - 1)) := by
  have hmin : minValue.toInt = -2 ^ 63 := rfl
  have hmax : maxValue.toInt = 2 ^ 63 - 1 := rfl
  unfold ofIntClamp
  split
  · split
    · rw [toInt_ofIntLE]
      omega
    · rw [hmax]
      omega
  · rw [hmin]
    omega

theorem toInt32_add_one {a : Int32} (h : a.toInt + 1 < 2 ^ 31) : (a + 1).toInt = a.toInt + 1 := by
  have hlow := a.le_toInt
  rw [Int32.toInt_add, Int32.toInt_one]
  exact Int.bmod_eq_of_le (by omega) (by omega)

theorem toInt32_sub_one {a : Int32} (h : -2 ^ 31 < a.toInt) : (a - 1).toInt = a.toInt - 1 := by
  have hhigh := a.toInt_lt
  rw [Int32.toInt_sub, Int32.toInt_one]
  exact Int.bmod_eq_of_le (by omega) (by omega)

end SignedWord

end HelixRpc.Foundation
