import HelixRpc.Runtime.Go.ClientBucket

/-!
# The token bucket for hedged requests

Model of `TokenBucket` (`runtimes/go/retry.go`).
-/

namespace HelixRpc.Runtime.Go

open Foundation

structure HedgeConfig where
  capacity : Int64
  refillRate : Int64
  deriving DecidableEq

structure HedgeBucket where
  tokens : Int64
  lastRefill : Int64
  deriving DecidableEq

variable (outside : ℚ → Int64)

def storedRate (computed given : ℚ) : Int64 :=
  let refillRate := int64OfFloat outside computed
  if refillRate = 0 ∧ 0 < given then 1 else refillRate

def hedgingTokenBucketConfig (burstCapacity : Int64) (hedgesPerSecond : ℚ) : HedgeConfig where
  capacity := burstCapacity * 1000000000
  refillRate := storedRate outside
    (Double.round (Double.round (hedgesPerSecond * 10 ^ 9) / 10 ^ 9)) hedgesPerSecond

def newHedgeBucket (cfg : HedgeConfig) (now : Int64) : HedgeBucket := ⟨cfg.capacity, now⟩

namespace HedgeBucket

variable (cfg : HedgeConfig) (b : HedgeBucket) (now : Int64)

def refill : HedgeBucket :=
  let elapsed := now - b.lastRefill
  if 0 < elapsed then
    let refill := elapsed * cfg.refillRate
    if 0 < refill then ⟨TokenBucket.refilled cfg.capacity b.tokens refill, now⟩ else b
  else b

def consume : HedgeBucket × Bool :=
  let b := b.refill cfg now
  let taken := TokenBucket.take nanoToken b.tokens
  ({ b with tokens := taken.1 }, taken.2)

end HedgeBucket

def hedgeBucket (cfg : HedgeConfig) : Machine HedgeBucket Int64 Bool := fun b now => b.consume cfg now

/-- The hedges of a run are at most the capacity and what the rate gives from the creation to the largest
reading. -/
def HedgeBound (cfg : HedgeConfig) (creation : Int64) (largest : Int) (readings : List Int64) : Prop :=
  10 ^ 9 * (TokenBucket.admitted (hedgeBucket cfg) id (newHedgeBucket cfg creation) readings : Int) ≤
    cfg.capacity.toInt + cfg.refillRate.toInt * (largest - creation.toInt)

/-- A reading from which the time of the last refill can be taken in one word, unless it is later. -/
def NotFarBack (b : HedgeBucket) (now : Int64) : Prop := b.lastRefill.toInt - now.toInt ≤ 2 ^ 63

section
variable {cfg : HedgeConfig} {b : HedgeBucket} {now : Int64}

theorem refill_cases (cfg : HedgeConfig) (b : HedgeBucket) (now : Int64) :
    b.refill cfg now = b ∨ 0 < now - b.lastRefill ∧ b.refill cfg now =
      ⟨TokenBucket.refilled cfg.capacity b.tokens ((now - b.lastRefill) * cfg.refillRate), now⟩ := by
  by_cases helapsed : 0 < now - b.lastRefill
  · by_cases hrefill : 0 < (now - b.lastRefill) * cfg.refillRate
    · refine .inr ⟨helapsed, ?_⟩
      rw [HedgeBucket.refill, if_pos helapsed, if_pos hrefill]
    · left
      rw [HedgeBucket.refill, if_pos helapsed, if_neg hrefill]
  · left
    rw [HedgeBucket.refill, if_neg helapsed]

theorem refill_pays (hrate : 0 ≤ cfg.refillRate.toInt) (hback : NotFarBack b now) :
    max (b.refill cfg now).tokens.toInt 0 ≤ max b.tokens.toInt 0 +
        ((b.refill cfg now).lastRefill.toInt - b.lastRefill.toInt) * cfg.refillRate.toInt := by
  rcases refill_cases cfg b now with h | ⟨helapsed, h⟩
  · rw [h, Int.sub_self, Int.zero_mul, Int.add_zero]
  · rw [h]
    exact TokenBucket.max_refilled_elapsed_le hrate helapsed hback

theorem consume_pays (hrate : 0 ≤ cfg.refillRate.toInt) (hback : NotFarBack b now) :
    max (hedgeBucket cfg b now).1.tokens.toInt 0 + 10 ^ 9 * (if id (hedgeBucket cfg b now).2 then 1 else 0) ≤
      max b.tokens.toInt 0 +
        ((hedgeBucket cfg b now).1.lastRefill.toInt - b.lastRefill.toInt) * cfg.refillRate.toInt := by
  have htake := TokenBucket.max_take (show 0 ≤ nanoToken.toInt by decide) (b.refill cfg now).tokens
  rw [toInt_nanoToken] at htake
  rw [hedgeBucket, HedgeBucket.consume, id_eq]
  dsimp only
  rw [htake]
  exact refill_pays hrate hback

theorem lastRefill_eq_or (cfg : HedgeConfig) (b : HedgeBucket) (now : Int64) :
    (hedgeBucket cfg b now).1.lastRefill = now ∨ (hedgeBucket cfg b now).1.lastRefill = b.lastRefill := by
  change (b.refill cfg now).lastRefill = now ∨ (b.refill cfg now).lastRefill = b.lastRefill
  rcases refill_cases cfg b now with h | ⟨_, h⟩
  · right
    rw [h]
  · left
    rw [h]

theorem consume_le_capacity (h : b.tokens.toInt ≤ cfg.capacity.toInt) :
    (hedgeBucket cfg b now).1.tokens.toInt ≤ cfg.capacity.toInt := by
  have hrefill : (b.refill cfg now).tokens.toInt ≤ cfg.capacity.toInt := by
    rcases refill_cases cfg b now with hrefill | ⟨_, hrefill⟩
    · rwa [hrefill]
    · rw [hrefill]
      exact TokenBucket.toInt_refilled_le_capacity
  exact (TokenBucket.take_le (by decide) _).trans hrefill
end

theorem hedgeBound_of_notFarBack {cfg : HedgeConfig} (hcapacity : 0 ≤ cfg.capacity.toInt)
    (hrate : 0 ≤ cfg.refillRate.toInt) {creation : Int64} {readings : List Int64}
    (hback : (hedgeBucket cfg).AllSteps NotFarBack (newHedgeBucket cfg creation) readings) :
    HedgeBound cfg creation (TokenBucket.latest creation readings) readings := by
  have hle := TokenBucket.unit_mul_admitted_le_latest (hedgeBucket cfg) id HedgeBucket.lastRefill
    (fun b => max b.tokens.toInt 0) (10 ^ 9) hrate (fun b now => @consume_pays cfg b now hrate)
    (lastRefill_eq_or cfg) (le_max_right _ _) hback
  rw [HedgeBound]
  dsimp only [newHedgeBucket] at hle ⊢
  rwa [max_eq_left hcapacity, Int.mul_comm _ cfg.refillRate.toInt] at hle

/-- For every bucket with a capacity and a rate that are not negative, the hedges are at most the capacity and the
rate up to the largest reading, if no reading is more than half the range of a word before the last refill. -/
theorem hedges_le (cfg : HedgeConfig) (creation : Int64) (readings : List Int64) : (0 ≤ cfg.capacity.toInt →
    0 ≤ cfg.refillRate.toInt → (hedgeBucket cfg).AllSteps NotFarBack (newHedgeBucket cfg creation) readings →
    HedgeBound cfg creation (TokenBucket.latest creation readings) readings) ∧ ((hedgeBucket cfg).after
    (newHedgeBucket cfg creation) readings).tokens.toInt ≤ cfg.capacity.toInt := by
  refine ⟨fun hcapacity hrate hback => hedgeBound_of_notFarBack hcapacity hrate hback, ?_⟩
  have hall : (hedgeBucket cfg).AllSteps (fun _ _ => True) (newHedgeBucket cfg creation) readings :=
    Machine.allSteps_of_forall_mem fun _ _ _ => trivial
  have hkeep : ∀ b now, b.tokens.toInt ≤ cfg.capacity.toInt → True →
      (hedgeBucket cfg b now).1.tokens.toInt ≤ cfg.capacity.toInt :=
    fun b now h _ => consume_le_capacity h
  exact hall.invariant hkeep le_rfl

theorem one_hedge_config (outside : ℚ → Int64) : hedgingTokenBucketConfig outside 1 1 = ⟨1000000000, 1⟩ := by
  have hnano : Double.round (1 * 10 ^ 9) = 10 ^ 9 := by
    have h := Double.round_intCast (n := 10 ^ 9) (by decide)
    push_cast at h
    rwa [one_mul]
  have hone : Double.round 1 = 1 := by
    have h := Double.round_intCast (n := 1) (by decide)
    rwa [Int.cast_one] at h
  have hrate : int64OfFloat outside 1 = 1 := by
    have h := int64OfFloat_intCast outside (n := 1) (by decide) (by decide)
    rw [Int.cast_one] at h
    exact Int64.toInt_inj.1 h
  rw [hedgingTokenBucketConfig, hnano, div_self (by norm_num), hone, storedRate, hrate]
  decide

theorem hedges_le_unordered : HedgeBound (hedgingTokenBucketConfig (fun _ => 0) 1 1) 0
        (TokenBucket.latest 0 [2000000000, 1000000000, 2000000000])
        [2000000000, 1000000000, 2000000000] ∧ ((hedgeBucket (hedgingTokenBucketConfig (fun _ => 0) 1 1)).after
          (newHedgeBucket (hedgingTokenBucketConfig (fun _ => 0) 1 1) 0)
          [2000000000, 1000000000, 2000000000]).tokens.toInt ≤
        (hedgingTokenBucketConfig (fun _ => 0) 1 1).capacity.toInt := by
  have h := hedges_le (hedgingTokenBucketConfig (fun _ => 0) 1 1) 0 [2000000000, 1000000000, 2000000000]
  refine ⟨h.1 ?_ ?_ ?_, h.2⟩
  · rw [one_hedge_config]
    decide
  · rw [one_hedge_config]
    decide
  · rw [one_hedge_config]
    simp only [Machine.AllSteps, NotFarBack]
    decide

theorem hedge_bound_limits :
    ¬ HedgeBound (hedgingTokenBucketConfig (fun _ => 0) 1 1) 9223372036854775807 9223372036854775807
        [9223372036854775807, -2] ∧ ¬ HedgeBound (hedgingTokenBucketConfig (fun _ => 0) 1 1) 10000000000 0 [0] ∧
      ¬ HedgeBound ⟨-1000000000, 1⟩ 0 0 [0] ∧ ¬ HedgeBound ⟨1000000000, -1⟩ 0 10000000000 [10000000000] := by
  rw [one_hedge_config]
  refine ⟨?_, ?_, ?_, ?_⟩ <;> rw [HedgeBound] <;> decide

end HelixRpc.Runtime.Go
