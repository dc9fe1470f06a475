import HelixRpc.Runtime.Go.ClientBucket

/-!
# The client buckets of Go and Rust

Model of `ClientBucket` (`runtimes/rust/src/ratelimit.rs`).
-/

namespace HelixRpc.Runtime

open Foundation Runtime.Go Int64

structure RustBucket where
  tokens : Int64
  lastSeen : UInt64
  deriving DecidableEq

def i64OfFloat (q : ℚ) : Int64 := ofIntClamp (Double.truncate q)

def rustBucketConfig (rps : ℚ) (burst : Int64) : BucketConfig where
  capacity := i64OfFloat (Double.round (Double.round burst.toInt * 10 ^ 9))
  refillNs := i64OfFloat rps

namespace RustBucket

variable (checks : Bool) (cfg : BucketConfig) (b : RustBucket) (now : UInt64)

def elapsed : UInt64 := if b.lastSeen ≤ now then now - b.lastSeen else 0

def refillAmount : Int64 := ofIntClamp ((b.elapsed now).toInt64.toInt * cfg.refillNs.toInt)

def overflows : Bool :=
  let sum := b.tokens.toInt + (b.refillAmount cfg now).toInt
  sum < -2 ^ 63 || 2 ^ 63 ≤ sum

def refill : Option Int64 :=
  if 0 < b.elapsed now then
    if checks && b.overflows cfg now then none
    else some (TokenBucket.refilled cfg.capacity b.tokens (b.refillAmount cfg now))
  else some b.tokens

def allow : RustBucket × Option (Int64 × Bool) :=
  match b.refill checks cfg now with
  | none => (⟨b.tokens, now⟩, none)
  | some cur =>
    (⟨(TokenBucket.take nanoToken cur).1, now⟩,
      some (if cur < nanoToken then (cur / nanoToken, false) else ((cur - nanoToken) / nanoToken, true)))

end RustBucket

def rustBucket (checks : Bool) (cfg : BucketConfig) :
    Machine RustBucket UInt64 (Option (Int64 × Bool)) := fun b now => b.allow checks cfg now

def InRange (cfg : BucketConfig) (level : Int64) : Prop := 0 ≤ level.toInt ∧ level.toInt ≤ cfg.capacity.toInt

def Idle (rps : ℚ) (burst : Int64) (elapsed : Int) : Prop := 0 < rps ∧ (burst.toInt : ℚ) * 10 ^ 9 ≤ elapsed * rps

section
variable (cfg : BucketConfig) (rps : ℚ) (burst : Int64) (b : ClientBucket) (now : Int64)

def GoInRange : Prop := InRange cfg (clientBucket cfg b now).1.tokens ∧
    (Idle rps burst (now.toInt - b.lastSeen.toInt) → b.refill cfg now = cfg.capacity)

def goSum : Int := b.tokens.toInt + (now.toInt - b.lastSeen.toInt) * cfg.refillNs.toInt

/-- The sum does not come out negative as a word, and for an idle client it reaches the capacity. -/
def GoFits : Prop :=
  if 0 < now - b.lastSeen then
    0 ≤ (goSum cfg b now).bmod (2 ^ 64) ∧ (Idle rps burst (now.toInt - b.lastSeen.toInt) →
        cfg.capacity.toInt ≤ (goSum cfg b now).bmod (2 ^ 64))
  else Idle rps burst (now.toInt - b.lastSeen.toInt) → b.tokens = cfg.capacity
end

section
variable (checks : Bool) (cfg : BucketConfig) (rps : ℚ) (burst : Int64) (b : RustBucket) (now : UInt64)

def RustInRange : Prop := InRange cfg (rustBucket checks cfg b now).1.tokens ∧
    (Idle rps burst (now.toNat - b.lastSeen.toNat) → b.refill checks cfg now = some cfg.capacity)

def rustSum : Int :=
  b.tokens.toInt + max (-2 ^ 63) (min ((b.elapsed now).toInt64.toInt * cfg.refillNs.toInt) (2 ^ 63 - 1))

/-- The sum is a word that is not negative, and for an idle client it reaches the capacity. -/
def RustFits : Prop :=
  if 0 < b.elapsed now then
    if rustSum cfg b now < 2 ^ 63 then
      0 ≤ rustSum cfg b now ∧ (Idle rps burst (now.toNat - b.lastSeen.toNat) → cfg.capacity.toInt ≤ rustSum cfg b now)
    else checks = true ∧ ¬ Idle rps burst (now.toNat - b.lastSeen.toNat)
  else Idle rps burst (now.toNat - b.lastSeen.toNat) → b.tokens = cfg.capacity
end

variable {cfg : BucketConfig} {rps : ℚ} {burst : Int64}

theorem refilled_in_range_iff {level refill : Int64} {sum : Int} {idle : Prop} (hcapacity : 0 ≤ cfg.capacity.toInt)
    (hsum : (TokenBucket.refilled cfg.capacity level refill).toInt = min sum cfg.capacity.toInt) :
    (InRange cfg (TokenBucket.take nanoToken (TokenBucket.refilled cfg.capacity level refill)).1 ∧
        (idle → TokenBucket.refilled cfg.capacity level refill = cfg.capacity)) ↔
      0 ≤ sum ∧ (idle → cfg.capacity.toInt ≤ sum) := by
  have hle : (TokenBucket.refilled cfg.capacity level refill).toInt ≤ cfg.capacity.toInt := by omega
  rw [InRange, TokenBucket.take_mem_iff (by decide) hle, hsum, ← toInt_inj, hsum]
  constructor
  · rintro ⟨hnonneg, hfull⟩
    exact ⟨by omega, fun h => by have := hfull h; omega⟩
  · rintro ⟨hnonneg, hfull⟩
    exact ⟨by omega, fun h => by have := hfull h; omega⟩

theorem take_in_range {level : Int64} (h : InRange cfg level) : InRange cfg (TokenBucket.take nanoToken level).1 :=
  (TokenBucket.take_mem_iff (by decide) h.2).2 h.1

theorem toInt_refilled_goSum (cfg : BucketConfig) (b : ClientBucket) (now : Int64) :
    (TokenBucket.refilled cfg.capacity b.tokens ((now - b.lastSeen) * cfg.refillNs)).toInt =
      min ((goSum cfg b now).bmod (2 ^ 64)) cfg.capacity.toInt := by
  rw [TokenBucket.toInt_refilled, toInt_mul, toInt_sub, Int.bmod_mul_bmod, Int.add_bmod_bmod, goSum]

theorem goInRange_iff {b : ClientBucket} {now : Int64} (h : InRange cfg b.tokens) :
    GoInRange cfg rps burst b now ↔ GoFits cfg rps burst b now := by
  rw [GoInRange, GoFits, clientBucket_tokens, ClientBucket.refill]
  split
  · exact refilled_in_range_iff (h.1.trans h.2) (toInt_refilled_goSum cfg b now)
  · exact and_iff_right (take_in_range h)

section
variable {checks : Bool} {cfg : BucketConfig} {b : RustBucket} {now : UInt64}

theorem rustBucket_some {cur : Int64} (h : b.refill checks cfg now = some cur) :
    (rustBucket checks cfg b now).1.tokens = (TokenBucket.take nanoToken cur).1 := by
  rw [rustBucket, RustBucket.allow, h]

theorem rustBucket_none (h : b.refill checks cfg now = none) : (rustBucket checks cfg b now).1.tokens = b.tokens := by
  rw [rustBucket, RustBucket.allow, h]

theorem rustSum_eq : b.tokens.toInt + (b.refillAmount cfg now).toInt = rustSum cfg b now := by
  rw [rustSum, RustBucket.refillAmount, SignedWord.toInt_ofIntClamp]

theorem rustSum_mem (h : InRange cfg b.tokens) (now : UInt64) :
    -2 ^ 63 ≤ rustSum cfg b now ∧ rustSum cfg b now < 2 ^ 64 := by
  have hlow := h.1
  have hhigh := b.tokens.toInt_lt
  rw [rustSum]
  omega

theorem overflows_iff (h : InRange cfg b.tokens) : b.overflows cfg now = true ↔ 2 ^ 63 ≤ rustSum cfg b now := by
  have hlow := (rustSum_mem h now).1
  rw [RustBucket.overflows, rustSum_eq, Bool.or_eq_true, decide_eq_true_iff, decide_eq_true_iff]
  omega

theorem refill_of_lt (h : InRange cfg b.tokens) (helapsed : 0 < b.elapsed now) (hsum : rustSum cfg b now < 2 ^ 63) :
    b.refill checks cfg now = some (TokenBucket.refilled cfg.capacity b.tokens (b.refillAmount cfg now)) := by
  have hfits : b.overflows cfg now ≠ true := fun hover => by
    have := (overflows_iff h).1 hover
    omega
  rw [RustBucket.refill, if_pos helapsed, if_neg]
  simp [hfits]

theorem refill_checked (h : InRange cfg b.tokens) (helapsed : 0 < b.elapsed now)
    (hsum : 2 ^ 63 ≤ rustSum cfg b now) : b.refill true cfg now = none := by
  rw [RustBucket.refill, if_pos helapsed, (overflows_iff h).2 hsum]
  rfl

theorem refill_unchecked (helapsed : 0 < b.elapsed now) : b.refill false cfg now =
      some (TokenBucket.refilled cfg.capacity b.tokens (b.refillAmount cfg now)) := by
  rw [RustBucket.refill, if_pos helapsed]
  rfl

theorem toInt_refilled_rustSum (cfg : BucketConfig) (b : RustBucket) (now : UInt64) :
    (TokenBucket.refilled cfg.capacity b.tokens (b.refillAmount cfg now)).toInt =
      min ((rustSum cfg b now).bmod (2 ^ 64)) cfg.capacity.toInt := by rw [TokenBucket.toInt_refilled, rustSum_eq]
end

theorem rustInRange_iff {checks : Bool} {b : RustBucket} {now : UInt64} (h : InRange cfg b.tokens) :
    RustInRange checks cfg rps burst b now ↔ RustFits checks cfg rps burst b now := by
  have hcapacity := h.1.trans h.2
  have hmem := rustSum_mem h now
  have hrefilled := toInt_refilled_rustSum cfg b now
  rw [RustInRange, RustFits]
  by_cases helapsed : 0 < b.elapsed now
  · rw [if_pos helapsed]
    by_cases hsum : rustSum cfg b now < 2 ^ 63
    · have hrefill := @refill_of_lt checks cfg b now h helapsed hsum
      rw [if_pos hsum, rustBucket_some hrefill, hrefill, Option.some.injEq]
      rw [bmod_of_mem hmem.1 hsum] at hrefilled
      exact refilled_in_range_iff hcapacity hrefilled
    · rw [if_neg hsum]
      cases checks with
      | true =>
        have hrefill := refill_checked h helapsed (Int.not_lt.1 hsum)
        -- a panic leaves the level as it is, but the bucket is not filled
        rw [rustBucket_none hrefill, hrefill]
        exact ⟨fun hkept => ⟨rfl, fun hidle => nomatch hkept.2 hidle⟩,
          fun hkept => ⟨h, fun hidle => absurd hidle hkept.2⟩⟩
      | false =>
        have hrefill := @refill_unchecked cfg b now helapsed
        -- the sum comes back below zero
        have hwrapped : (rustSum cfg b now).bmod (2 ^ 64) < 0 := by
          rw [Int.bmod_def]
          omega
        rw [rustBucket_some hrefill, hrefill, Option.some.injEq, refilled_in_range_iff hcapacity hrefilled]
        exact iff_of_false (fun hkept => by omega) nofun
  · have hrefill : b.refill checks cfg now = some b.tokens := by rw [RustBucket.refill, if_neg helapsed]
    rw [if_neg helapsed, rustBucket_some hrefill, hrefill, Option.some.injEq]
    exact and_iff_right (take_in_range h)

theorem goRun_iff {b : ClientBucket} (h : InRange cfg b.tokens) (readings : List Int64) : (clientBucket cfg).AllSteps
    (GoInRange cfg rps burst) b readings ↔ (clientBucket cfg).AllSteps (GoFits cfg rps burst) b readings := by
  apply Machine.allSteps_congr (fun b : ClientBucket => InRange cfg b.tokens)
  · intro b now h
    exact goInRange_iff h
  · intro b now _ hkept
    exact hkept.1
  · exact h

theorem rustRun_iff {checks : Bool} {b : RustBucket} (h : InRange cfg b.tokens) (readings : List UInt64) :
    (rustBucket checks cfg).AllSteps (RustInRange checks cfg rps burst) b readings ↔
      (rustBucket checks cfg).AllSteps (RustFits checks cfg rps burst) b readings := by
  apply Machine.allSteps_congr (fun b : RustBucket => InRange cfg b.tokens)
  · intro b now h
    exact rustInRange_iff h
  · intro b now _ hkept
    exact hkept.1
  · exact h

/-- In every run of the two buckets from a level in range, each call keeps it and gives an idle client a
full bucket exactly if the sums of all calls fit. -/
theorem buckets_in_range_iff (outside : ℚ → Int64) (rps : ℚ) (burst : Int64) (checks : Bool)
    (go : ClientBucket) (rust : RustBucket) (goReadings : List Int64) (rustReadings : List UInt64)
    (hgo : InRange (clientBucketConfig outside rps burst) go.tokens)
    (hrust : InRange (rustBucketConfig rps burst) rust.tokens) :
    ((clientBucket (clientBucketConfig outside rps burst)).AllSteps
          (GoInRange (clientBucketConfig outside rps burst) rps burst) go goReadings ∧
        (rustBucket checks (rustBucketConfig rps burst)).AllSteps
          (RustInRange checks (rustBucketConfig rps burst) rps burst) rust rustReadings) ↔
      (clientBucket (clientBucketConfig outside rps burst)).AllSteps
          (GoFits (clientBucketConfig outside rps burst) rps burst) go goReadings ∧
        (rustBucket checks (rustBucketConfig rps burst)).AllSteps
          (RustFits checks (rustBucketConfig rps burst) rps burst) rust rustReadings :=
  and_congr (goRun_iff hgo goReadings) (rustRun_iff hrust rustReadings)

theorem million_config (outside : ℚ → Int64) : clientBucketConfig outside (1000000 : Int64).toInt 1000000 =
    ⟨1000000000000000, 1000000⟩ ∧ rustBucketConfig (1000000 : Int64).toInt 1000000 = ⟨1000000000000000, 1000000⟩ := by
  have hround := round_burst (show 0 ≤ (1000000 : Int64).toInt by decide) (by decide) (.inl (by decide))
  rw [clientBucketConfig, rustBucketConfig, hround]
  simp only [int64OfFloat, i64OfFloat, Double.truncate_intCast]
  refine ⟨?_, by decide⟩
  rw [if_pos (by decide), if_pos (by decide)]
  decide

theorem buckets_in_range_second :
    (clientBucket (clientBucketConfig (fun _ => 0) (1000000 : Int64).toInt 1000000)).AllSteps
        (GoInRange (clientBucketConfig (fun _ => 0) (1000000 : Int64).toInt 1000000)
          (1000000 : Int64).toInt 1000000) ⟨0, 0⟩ [1000000000] ∧
      (rustBucket true (rustBucketConfig (1000000 : Int64).toInt 1000000)).AllSteps
        (RustInRange true (rustBucketConfig (1000000 : Int64).toInt 1000000)
          (1000000 : Int64).toInt 1000000) ⟨0, 0⟩ [1000000000] := by
  obtain ⟨hgo, hrust⟩ := million_config fun _ => 0
  refine (buckets_in_range_iff (fun _ => 0) (1000000 : Int64).toInt 1000000 true ⟨0, 0⟩ ⟨0, 0⟩
    [1000000000] [1000000000] ?_ ?_).2 ?_
  · rw [hgo]
    exact ⟨by decide, by decide⟩
  · rw [hrust]
    exact ⟨by decide, by decide⟩
  · rw [hgo, hrust]
    refine ⟨⟨?_, trivial⟩, ⟨?_, trivial⟩⟩
    · rw [GoFits, if_pos (by decide)]
      exact ⟨by decide, fun _ => by decide⟩
    · rw [RustFits, if_pos (by decide), if_pos (by decide)]
      exact ⟨by decide, fun _ => by decide⟩

theorem idle_client_overflows :
    ¬ ((clientBucket (clientBucketConfig (fun _ => 0) (1000000 : Int64).toInt 1000000)).AllSteps
        (GoInRange (clientBucketConfig (fun _ => 0) (1000000 : Int64).toInt 1000000)
          (1000000 : Int64).toInt 1000000) ⟨1000000000000000, 0⟩ [10800000000000]) ∧
      ¬ ((rustBucket true (rustBucketConfig (1000000 : Int64).toInt 1000000)).AllSteps
        (RustInRange true (rustBucketConfig (1000000 : Int64).toInt 1000000)
          (1000000 : Int64).toInt 1000000) ⟨1000000000000000, 0⟩ [10800000000000]) ∧
      ¬ ((rustBucket false (rustBucketConfig (1000000 : Int64).toInt 1000000)).AllSteps
        (RustInRange false (rustBucketConfig (1000000 : Int64).toInt 1000000)
          (1000000 : Int64).toInt 1000000) ⟨1000000000000000, 0⟩ [10800000000000]) := by
  obtain ⟨hgo, hrust⟩ := million_config fun _ => 0
  rw [hgo, hrust]
  refine ⟨fun h => ?_, fun h => ?_, fun h => ?_⟩
  · exact absurd h.1.1.1 (by decide)
  · exact absurd (h.1.2 ⟨by decide +kernel, by decide +kernel⟩) (by decide)
  · exact absurd h.1.1.1 (by decide)

end HelixRpc.Runtime
