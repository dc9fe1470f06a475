import Mathlib.Algebra.Order.Field.Power
import Mathlib.Data.Int.Log
import Mathlib.Data.Rat.Floor

/-!
# Rounding to doubles

A finite double is a rational number with a binary fraction.
-/

namespace HelixRpc.Foundation.Double

def roundEven (q : ℚ) : ℤ :=
  let n := ⌊q⌋
  if q - n < 1 / 2 then n
  else if 1 / 2 < q - n then n + 1
  else if n % 2 = 0 then n else n + 1

theorem roundEven_intCast (n : ℤ) : roundEven n = n := by simp [roundEven]

theorem abs_roundEven_sub_le (q : ℚ) : |(roundEven q : ℚ) - q| ≤ 1 / 2 := by
  have hlow := Int.floor_le q
  have hhigh := Int.lt_floor_add_one q
  rw [abs_le]
  unfold roundEven
  dsimp only
  split
  · constructor
    all_goals linarith
  · split
    · push_cast
      constructor
      all_goals linarith
    · split
      · constructor
        all_goals linarith
      · push_cast
        constructor
        all_goals linarith

def lastPlace (q : ℚ) : ℤ := max (Int.log 2 |q| - 52) (-1074)

def round (q : ℚ) : ℚ := roundEven (q / 2 ^ lastPlace q) * 2 ^ lastPlace q

theorem abs_round_sub_le (q : ℚ) : |round q - q| ≤ 2 ^ lastPlace q / 2 := by
  have hpos : (0 : ℚ) < 2 ^ lastPlace q := by positivity
  have herror := abs_roundEven_sub_le (q / 2 ^ lastPlace q)
  have heq : round q - q = (roundEven (q / 2 ^ lastPlace q) - q / 2 ^ lastPlace q) * 2 ^ lastPlace q := by
    rw [round, sub_mul, div_mul_cancel₀ _ hpos.ne']
  rw [heq, abs_mul, abs_of_pos hpos]
  linarith [mul_le_mul_of_nonneg_right herror hpos.le]

theorem abs_round_sub_le_mul {q : ℚ} (hq : (2 : ℚ) ^ (-1022 : ℤ) ≤ |q|) :
    |round q - q| ≤ |q| / 2 ^ 53 := by
  have hpos : 0 < |q| := lt_of_lt_of_le (by positivity) hq
  have hlog : -1022 ≤ Int.log 2 |q| := (Int.zpow_le_iff_le_log one_lt_two hpos).1 (by exact_mod_cast hq)
  have hplace : lastPlace q = Int.log 2 |q| - 52 := max_eq_left (by omega)
  have hle : (2 : ℚ) ^ Int.log 2 |q| ≤ |q| := by exact_mod_cast Int.zpow_log_le_self one_lt_two hpos
  have hsplit : (2 : ℚ) ^ lastPlace q = 2 ^ Int.log 2 |q| / 2 ^ 52 := by
    rw [hplace, zpow_sub₀ (by norm_num)]
    norm_cast
  have herror := abs_round_sub_le q
  rw [hsplit] at herror
  calc |round q - q| ≤ 2 ^ Int.log 2 |q| / 2 ^ 52 / 2 := herror
    _ = 2 ^ Int.log 2 |q| / 2 ^ 53 := by ring
    _ ≤ |q| / 2 ^ 53 := by gcongr

theorem lastPlace_le {m e : ℤ} (hzero : m ≠ 0) (hm : |m| < 2 ^ 53) (he : -1074 ≤ e) : lastPlace (m * 2 ^ e) ≤ e := by
  have hpos : (0 : ℚ) < |(m : ℚ) * 2 ^ e| := by
    have hne : (m : ℚ) ≠ 0 := by exact_mod_cast hzero
    positivity
  have hlt : |(m : ℚ) * 2 ^ e| < 2 ^ (53 + e) := by
    have hcast : |(m : ℚ)| < 2 ^ 53 := by exact_mod_cast hm
    rw [abs_mul, abs_of_pos (show (0 : ℚ) < 2 ^ e by positivity), zpow_add₀ (by norm_num)]
    exact mul_lt_mul_of_pos_right (by exact_mod_cast hcast) (by positivity)
  have hlog : Int.log 2 |(m : ℚ) * 2 ^ e| < 53 + e := (Int.lt_zpow_iff_log_lt one_lt_two hpos).1 (by exact_mod_cast hlt)
  exact max_le (by omega) he

theorem round_eq_self {m e : ℤ} (hm : |m| < 2 ^ 53) (he : -1074 ≤ e) : round (m * 2 ^ e) = m * 2 ^ e := by
  by_cases hzero : m = 0
  · rw [hzero]
    simp [round, roundEven]
  · have hplace := lastPlace_le hzero hm he
    obtain ⟨k, hk⟩ : ∃ k : ℕ, e = lastPlace (m * 2 ^ e) + k := ⟨(e - lastPlace (m * 2 ^ e)).toNat, by omega⟩
    rw [round]
    generalize lastPlace (m * 2 ^ e) = l at hk ⊢
    have hint : (m : ℚ) * 2 ^ e / 2 ^ l = ((m * 2 ^ k : ℤ) : ℚ) := by
      rw [hk, zpow_add₀ (by norm_num), ← mul_assoc, mul_right_comm, mul_div_cancel_right₀ _ (by positivity)]
      push_cast
      rw [zpow_natCast]
    rw [hint, roundEven_intCast, ← hint, div_mul_cancel₀ _ (by positivity)]

theorem round_intCast {n : ℤ} (hn : |n| < 2 ^ 53) : round n = n := by
  have h := round_eq_self hn (show (-1074 : ℤ) ≤ 0 by omega)
  rwa [zpow_zero, mul_one] at h

theorem round_natCast {n : ℕ} (hn : n < 2 ^ 53) : round n = n := by
  have h := round_intCast (n := n) (by rw [Nat.abs_cast]; exact_mod_cast hn)
  rwa [Int.cast_natCast] at h

theorem round_natCast_le (n : ℕ) : round n ≤ 2 * n := by
  by_cases hzero : n = 0
  · rw [hzero]
    simp [round, roundEven]
  · have hone : (1 : ℚ) ≤ n := by exact_mod_cast Nat.one_le_iff_ne_zero.2 hzero
    have habs : |(n : ℚ)| = n := abs_of_nonneg (by positivity)
    have hsmall : (2 : ℚ) ^ (-1022 : ℤ) ≤ 1 := zpow_le_one_of_nonpos₀ (by norm_num) (by norm_num)
    have herror := abs_round_sub_le_mul (q := n) (by rw [habs]; exact hsmall.trans hone)
    rw [habs] at herror
    have hle := (abs_le.1 herror).2
    have hpart : (n : ℚ) / 2 ^ 53 ≤ n := div_le_self (by positivity) (by norm_num)
    linarith

theorem abs_round_mul_sub_le {n x c : ℚ} (hn : 1 ≤ n) (hsmall : (2 : ℚ) ^ (-1022 : ℤ) ≤ x / 2)
    (hc : |c - x| ≤ x / 2 ^ 53) : |round (n * c) - n * x| ≤ 3 * (n * x) / 2 ^ 53 := by
  have hx : 0 < x / 2 := lt_of_lt_of_le (by positivity) hsmall
  have hclose := abs_le.1 hc
  have hc₀ : x / 2 ≤ c := by linarith
  have hc₁ : c ≤ 2 * x := by linarith
  have hproduct : x / 2 ≤ n * c := hc₀.trans (le_mul_of_one_le_left (by linarith) hn)
  have hround := abs_round_sub_le_mul (q := n * c) (by rw [abs_of_nonneg (by linarith)]; linarith)
  rw [abs_of_nonneg (show 0 ≤ n * c by linarith)] at hround
  calc |round (n * c) - n * x|
      = |(round (n * c) - n * c) + n * (c - x)| := by ring_nf
    _ ≤ |round (n * c) - n * c| + |n * (c - x)| := abs_add_le _ _
    _ ≤ n * c / 2 ^ 53 + n * (x / 2 ^ 53) := by
        rw [abs_mul, abs_of_nonneg (show 0 ≤ n by linarith)]
        exact add_le_add hround (mul_le_mul_of_nonneg_left hc (by linarith))
    _ ≤ n * (2 * x) / 2 ^ 53 + n * (x / 2 ^ 53) := by gcongr
    _ = 3 * (n * x) / 2 ^ 53 := by ring

theorem abs_round_mul_round_sub_le {n k : ℕ} (hn : n < 2 ^ 53) (hk : 0 < k) (hk' : k ≤ 10 ^ 9) :
    |round (round n * round (1 / k)) - n / k| ≤ 3 * (n / k) / 2 ^ 53 := by
  rw [round_natCast hn]
  by_cases hzero : n = 0
  · rw [hzero]
    simp [round, roundEven]
  · have hk₀ : (0 : ℚ) < k := by exact_mod_cast hk
    have hk₁ : (k : ℚ) ≤ 10 ^ 9 := by exact_mod_cast hk'
    have hn₁ : (1 : ℚ) ≤ n := by exact_mod_cast Nat.one_le_iff_ne_zero.2 hzero
    have hfraction : 1 / 10 ^ 9 ≤ 1 / (k : ℚ) := one_div_le_one_div_of_le hk₀ hk₁
    -- the fraction is far from the smallest doubles
    have hsmall : (2 : ℚ) ^ (-1022 : ℤ) ≤ 1 / (k : ℚ) / 2 := by
      have hpow : (2 : ℚ) ^ (-1022 : ℤ) ≤ 2 ^ (-40 : ℤ) := zpow_le_zpow_right₀ one_le_two (by omega)
      have hforty : (2 : ℚ) ^ (-40 : ℤ) ≤ 1 / 10 ^ 9 / 2 := by norm_num
      exact hpow.trans (hforty.trans (by linarith))
    have hpos : (0 : ℚ) < 1 / k := by positivity
    have hround := abs_round_sub_le_mul (q := 1 / k) (by rw [abs_of_pos hpos]; linarith)
    rw [abs_of_pos hpos] at hround
    have hquotient : (n : ℚ) / k = n * (1 / k) := (mul_one_div _ _).symm
    rw [hquotient]
    exact abs_round_mul_sub_le hn₁ hsmall hround

def truncate (q : ℚ) : ℤ := q.num.tdiv q.den

@[simp] theorem truncate_intCast (n : ℤ) : truncate n = n := by simp [truncate]

end HelixRpc.Foundation.Double
