import HelixRpc.Runtime.Go.RateLimiter

/-!
# Recovery of an empty bucket

A client of the Go `RateLimiter` whose bucket is empty waits for one token; `newClientBucket` cuts the rate to
an integer.
-/

namespace HelixRpc.Runtime.Go

open Foundation Int64

/-- One over the rate in nanoseconds, up to the next one. -/
def waitFor (rate : ℚ) : Int := ⌊10 ^ 9 / rate⌋ + 1

section
variable {rate : ℚ}

theorem waitFor_pos (hrate : 0 < rate) : 0 < waitFor rate := by
  have hfloor : 0 ≤ ⌊10 ^ 9 / rate⌋ := Int.floor_nonneg.2 (by positivity)
  rw [waitFor]
  omega

theorem waitFor_mul_le (hrate : 0 < rate) : waitFor rate * ⌊rate⌋ ≤ 10 ^ 9 + ⌊rate⌋ := by
  have hfloor : 0 ≤ ⌊rate⌋ := Int.floor_nonneg.2 hrate.le
  have hmul : ⌊10 ^ 9 / rate⌋ * ⌊rate⌋ ≤ 10 ^ 9 := by
    have hle : (⌊10 ^ 9 / rate⌋ : ℚ) * ⌊rate⌋ ≤ 10 ^ 9 / rate * rate :=
      mul_le_mul (Int.floor_le _) (Int.floor_le _) (by exact_mod_cast hfloor) (by positivity)
    rw [div_mul_cancel₀ _ hrate.ne'] at hle
    exact_mod_cast hle
  rw [waitFor, Int.add_mul, Int.one_mul]
  omega

/-- A whole number of tokens each second is no slower than the rate says. -/
theorem le_waitFor_mul_natCast {n : Nat} (hn : 0 < n) : 10 ^ 9 ≤ waitFor n * ⌊(n : ℚ)⌋ := by
  have hpos : (0 : ℚ) < n := by exact_mod_cast hn
  have hlt : (10 ^ 9 : ℚ) < (waitFor n : ℚ) * n := by
    have h := Int.lt_floor_add_one (10 ^ 9 / (n : ℚ))
    rw [div_lt_iff₀ hpos] at h
    rw [waitFor]
    exact_mod_cast h
  rw [Int.floor_natCast]
  exact_mod_cast hlt.le
end

section
variable {cfg : BucketConfig} {b : ClientBucket} {now : Int64} {rate : ℚ}

theorem toInt_refill_empty (hrate : 0 < rate) (hrange : rate < 2 ^ 62) (hrefill : cfg.refillNs.toInt = ⌊rate⌋)
    (hcapacity : 10 ^ 9 ≤ cfg.capacity.toInt) (hempty : b.tokens = 0)
    (hwait : now.toInt = b.lastSeen.toInt + waitFor rate) :
    10 ^ 9 ≤ (b.refill cfg now).toInt ↔ 10 ^ 9 ≤ waitFor rate * ⌊rate⌋ := by
  have hfloor : 0 ≤ ⌊rate⌋ := Int.floor_nonneg.2 hrate.le
  have hpos := waitFor_pos hrate
  have hle := waitFor_mul_le hrate
  have hbound : ⌊rate⌋ < 2 ^ 62 := by
    have hlt := (Int.floor_le rate).trans_lt hrange
    exact_mod_cast hlt
  rw [ClientBucket.refill, hempty]
  rcases hfloor.eq_or_lt with hzero | hone
  · -- nothing is refilled, however long the client waits
    rw [← hzero, Int.mul_zero]
    refine iff_of_false ?_ (by decide)
    split
    · rw [TokenBucket.toInt_refilled_mul, hrefill, ← hzero, Int.mul_zero, toInt_zero, Int.add_zero, Int.zero_bmod]
      omega
    · decide
  · have hshort : waitFor rate < 2 ^ 63 := by nlinarith
    have helapsed : (now - b.lastSeen).toInt = waitFor rate := by
      rw [SignedWord.toInt_sub_of_mem (by omega) (by omega)]
      omega
    have hproduct : 0 ≤ waitFor rate * ⌊rate⌋ := Int.mul_nonneg hpos.le hfloor
    have hlater : 0 < now - b.lastSeen := by
      rw [lt_iff_toInt_lt, helapsed]
      exact hpos
    rw [if_pos hlater, TokenBucket.toInt_refilled_mul, hrefill, helapsed, toInt_zero, Int.zero_add,
      bmod_of_mem (by omega) (by omega)]
    omega
end

theorem toInt_refillNs {outside : ℚ → Int64} {rate : ℚ} (hrate : 0 < rate) (hrange : rate < 2 ^ 62) :
    (int64OfFloat outside rate).toInt = ⌊rate⌋ := by
  have htruncate : Double.truncate rate = ⌊rate⌋ := by
    rw [Double.truncate, Rat.floor_def', Int.tdiv_eq_ediv_of_nonneg (Rat.num_nonneg.2 hrate.le)]
  have hfloor : 0 ≤ ⌊rate⌋ := Int.floor_nonneg.2 hrate.le
  have hbound : ⌊rate⌋ < 2 ^ 62 := by
    have hlt := (Int.floor_le rate).trans_lt hrange
    exact_mod_cast hlt
  rw [int64OfFloat, htruncate, if_pos ⟨by omega, by omega⟩]
  exact SignedWord.toInt_ofInt_of_mem (by omega) (by omega)

/-- A client with an empty bucket who waits for one token is admitted exactly if the rate without its
fraction gives a token in that time. -/
theorem recovers_iff (outside : Float64 → Int64) (rl : RateLimiter) (key : Text) (b : ClientBucket)
    (created now : Int64) (rate : ℚ) (hrate : 0 < rate) (hrange : rate < 2 ^ 62)
    (hcfg : rl.cfg.requestsPerSecond = .finite rate) (hburst : 1 ≤ rl.cfg.burstSize.toInt)
    (hfits : rl.cfg.burstSize.toInt * 10 ^ 9 < 2 ^ 63) (hexact : rl.cfg.burstSize.toInt * 10 ^ 9 < 2 ^ 62 ∨
    rl.cfg.burstSize.toInt % 2 = 0) (hbucket : rl.buckets key = some b) (hempty : b.tokens = 0) (hwait : now.toInt =
    b.lastSeen.toInt + waitFor rate) : (rl.allow outside key created now).2.2 = true ↔
    10 ^ 9 ≤ waitFor rate * ⌊rate⌋ := by
  have hcapacity : 10 ^ 9 ≤ (rl.cfg.bucketConfig outside).capacity.toInt := by
    have hint := (clientBucketConfig_toInt (fun q => outside (.finite q)) 0 (by omega) hfits hexact).1
    change 10 ^ 9 ≤ (clientBucketConfig (fun q => outside (.finite q)) (0 : Int64).toInt rl.cfg.burstSize).capacity.toInt
    omega
  have hrefill : (rl.cfg.bucketConfig outside).refillNs.toInt = ⌊rate⌋ := by
    rw [RateLimitConfig.bucketConfig, hcfg]
    exact toInt_refillNs hrate hrange
  have hanswer : (rl.allow outside key created now).2.2 = (clientBucket (rl.cfg.bucketConfig outside) b now).2.2 := by
    rw [RateLimiter.allow, RateLimiter.bucket, hbucket]
    rfl
  rw [hanswer, clientBucket_answer, ← toInt_refill_empty hrate hrange hrefill hcapacity hempty hwait, TokenBucket.take]
  rw [← toInt_nanoToken, ← le_iff_toInt_le]
  split
  · rename_i hlt
    exact iff_of_false Bool.false_ne_true (Int64.not_le.2 hlt)
  · rename_i hle
    exact iff_of_true rfl (Int64.not_lt.1 hle)

def limiterAt (rate : ℚ) (b : ClientBucket) : RateLimiter := ⟨⟨.finite rate, 1⟩, fun _ => some b⟩

theorem recovers_iff_one : ((limiterAt 1 ⟨0, 0⟩).allow (fun _ => 0) [] 0 1000000001).2.2 = true := by
  have hwait : waitFor 1 = 1000000001 := by
    rw [waitFor, div_one, show (10 ^ 9 : ℚ) = ((1000000000 : Int) : ℚ) by norm_num, Int.floor_intCast]
    rfl
  refine (recovers_iff _ _ [] ⟨0, 0⟩ 0 1000000001 1 one_pos (by norm_num) rfl (by decide) (by decide)
    (.inl (by decide)) rfl rfl ?_).2 ?_
  · rw [hwait]
    decide
  · have hwhole := le_waitFor_mul_natCast (n := 1) one_pos
    rwa [Nat.cast_one] at hwhole

theorem half_rate_never_recovers : ((limiterAt (1 / 2) ⟨0, 0⟩).allow (fun _ => 0) [] 0 2000000001).2.2 = false := by
  decide +kernel

end HelixRpc.Runtime.Go
