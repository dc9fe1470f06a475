import HelixRpc.Foundation.Double
import HelixRpc.Foundation.TokenBucket

/-!
# The client bucket of the Go rate limiter

Model of `clientBucket` (`runtimes/go/ratelimit.go`).
-/

namespace HelixRpc.Runtime.Go

open Foundation

def nanoToken : Int64 := 1000000000

structure BucketConfig where
  capacity : Int64
  refillNs : Int64
  deriving DecidableEq

structure ClientBucket where
  tokens : Int64
  lastSeen : Int64
  deriving DecidableEq

/-- `int64` of a floating-point number. -/
def int64OfFloat (outside : ℚ → Int64) (q : ℚ) : Int64 :=
  if -2 ^ 63 ≤ Double.truncate q ∧ Double.truncate q < 2 ^ 63 then Int64.ofInt (Double.truncate q)
  else outside q

def clientBucketConfig (outside : ℚ → Int64) (rps : ℚ) (burst : Int64) : BucketConfig where
  capacity := int64OfFloat outside (Double.round (Double.round burst.toInt * 10 ^ 9))
  refillNs := int64OfFloat outside rps

def newClientBucket (cfg : BucketConfig) (now : Int64) : ClientBucket := ⟨cfg.capacity, now⟩

namespace ClientBucket

variable (cfg : BucketConfig) (b : ClientBucket) (now : Int64)

def refill : Int64 :=
  let elapsed := now - b.lastSeen
  if 0 < elapsed then TokenBucket.refilled cfg.capacity b.tokens (elapsed * cfg.refillNs) else b.tokens

def allow : ClientBucket × Int64 × Bool :=
  let cur := b.refill cfg now
  (⟨(TokenBucket.take nanoToken cur).1, now⟩,
    if cur < nanoToken then (cur / nanoToken, false) else (cur / nanoToken - 1, true))

end ClientBucket

def clientBucket (cfg : BucketConfig) : Machine ClientBucket Int64 (Int64 × Bool) := fun b now =>
  b.allow cfg now

theorem int64OfFloat_intCast (outside : ℚ → Int64) {n : Int} (hlow : -2 ^ 63 ≤ n) (hhigh : n < 2 ^ 63) :
    (int64OfFloat outside n).toInt = n := by
  rw [int64OfFloat, Double.truncate_intCast, if_pos ⟨hlow, hhigh⟩]
  exact SignedWord.toInt_ofInt_of_mem hlow hhigh

theorem round_burst {burst : Int} (h : 0 ≤ burst) (hfits : burst * 10 ^ 9 < 2 ^ 63) (hexact : burst * 10 ^ 9 < 2 ^ 62 ∨
    burst % 2 = 0) : Double.round (Double.round burst * 10 ^ 9) = ((burst * 10 ^ 9 : Int) : ℚ) := by
  have hburst : Double.round burst = burst := Double.round_intCast (abs_lt.2 ⟨by omega, by omega⟩)
  rw [hburst]
  rcases hexact with hsmall | heven
  · -- the mantissa is burst * 5 ^ 9
    have h' := Double.round_eq_self (m := burst * 5 ^ 9) (e := 9) (abs_lt.2 ⟨by omega, by omega⟩) (by omega)
    have heq : ((burst * 5 ^ 9 : Int) : ℚ) * 2 ^ (9 : ℤ) = burst * 10 ^ 9 := by
      push_cast
      norm_num
      ring
    rw [heq] at h'
    rw [h']
    push_cast
    rfl
  · obtain ⟨half, rfl⟩ := Int.dvd_of_emod_eq_zero heven
    have h' := Double.round_eq_self (m := half * 5 ^ 9) (e := 10) (abs_lt.2 ⟨by omega, by omega⟩) (by omega)
    have heq : ((half * 5 ^ 9 : Int) : ℚ) * 2 ^ (10 : ℤ) = ((2 * half : Int) : ℚ) * 10 ^ 9 := by
      push_cast
      norm_num
      ring
    rw [heq] at h'
    rw [h']
    push_cast
    rfl

theorem clientBucketConfig_toInt (outside : ℚ → Int64) (rate : Int64) {burst : Int64} (h : 0 ≤ burst.toInt)
    (hfits : burst.toInt * 10 ^ 9 < 2 ^ 63) (hexact : burst.toInt * 10 ^ 9 < 2 ^ 62 ∨ burst.toInt % 2 = 0) :
    (clientBucketConfig outside rate.toInt burst).capacity.toInt = burst.toInt * 10 ^ 9 ∧
    (clientBucketConfig outside rate.toInt burst).refillNs = rate := by
  constructor
  · rw [clientBucketConfig, round_burst h hfits hexact]
    exact int64OfFloat_intCast outside (by omega) hfits
  · rw [← Int64.toInt_inj]
    exact int64OfFloat_intCast outside rate.le_toInt rate.toInt_lt

/-- The number of admitted requests is at most the burst and what the rate gives from the creation to the
largest reading. -/
def AdmissionBound (cfg : BucketConfig) (rate burst : Int64) (creation : Int64) (readings : List Int64) : Prop :=
  10 ^ 9 * (TokenBucket.admitted (clientBucket cfg) Prod.snd (newClientBucket cfg creation) readings : Int)
    ≤ burst.toInt * 10 ^ 9 + rate.toInt * (TokenBucket.latest creation readings - creation.toInt)

section
variable {cfg : BucketConfig} {b : ClientBucket} {now : Int64}

theorem clientBucket_tokens :
    (clientBucket cfg b now).1.tokens = (TokenBucket.take nanoToken (b.refill cfg now)).1 := rfl

theorem clientBucket_lastSeen : (clientBucket cfg b now).1.lastSeen = now := rfl

theorem clientBucket_answer : (clientBucket cfg b now).2.2 = (TokenBucket.take nanoToken (b.refill cfg now)).2 := by
  simp only [clientBucket, ClientBucket.allow, TokenBucket.take]
  split <;> rfl

theorem toInt_nanoToken : nanoToken.toInt = 10 ^ 9 := by decide

theorem refill_le (hrate : 0 ≤ cfg.refillNs.toInt) (hforward : b.lastSeen ≤ now) : max (b.refill cfg now).toInt 0 ≤
      max b.tokens.toInt 0 + (now.toInt - b.lastSeen.toInt) * cfg.refillNs.toInt := by
  rw [Int64.le_iff_toInt_le] at hforward
  rw [ClientBucket.refill]
  split
  · rename_i helapsed
    exact TokenBucket.max_refilled_elapsed_le hrate helapsed (by omega)
  · have hcredit := Int.mul_nonneg (show 0 ≤ now.toInt - b.lastSeen.toInt by omega) hrate
    omega

theorem allow_pays (hrate : 0 ≤ cfg.refillNs.toInt) (hforward : b.lastSeen ≤ now) :
    max (clientBucket cfg b now).1.tokens.toInt 0 + 10 ^ 9 * (if (clientBucket cfg b now).2.2 then 1 else 0) ≤
      max b.tokens.toInt 0 + ((clientBucket cfg b now).1.lastSeen.toInt - b.lastSeen.toInt) * cfg.refillNs.toInt := by
  have htake := TokenBucket.max_take (show 0 ≤ nanoToken.toInt by decide) (b.refill cfg now)
  rw [toInt_nanoToken] at htake
  rw [clientBucket_tokens, clientBucket_lastSeen, clientBucket_answer, htake]
  exact refill_le hrate hforward

theorem admitted_le (hrate : 0 ≤ cfg.refillNs.toInt) (hcapacity : 0 ≤ cfg.capacity.toInt)
    {creation : Int64} {readings : List Int64}
    (hforward : (clientBucket cfg).AllSteps (fun b now => b.lastSeen ≤ now) (newClientBucket cfg creation) readings) :
    10 ^ 9 * (TokenBucket.admitted (clientBucket cfg) Prod.snd (newClientBucket cfg creation) readings : Int) ≤
      cfg.capacity.toInt + cfg.refillNs.toInt * (TokenBucket.latest creation readings - creation.toInt) := by
  have hle := TokenBucket.unit_mul_admitted_le_latest (clientBucket cfg) Prod.snd ClientBucket.lastSeen
    (fun b => max b.tokens.toInt 0) (10 ^ 9) hrate (fun b now => @allow_pays cfg b now hrate)
    (fun b now => .inl (@clientBucket_lastSeen cfg b now)) (le_max_right _ _) hforward
  dsimp only [newClientBucket] at hle ⊢
  rwa [max_eq_left hcapacity, Int.mul_comm _ cfg.refillNs.toInt] at hle
end

/-- Without a reading that is older than the stored one, the limiter keeps its rate and its burst. -/
theorem admitted_le_of_forward (outside : ℚ → Int64) (rate burst : Int64) (creation : Int64)
    (readings : List Int64) (hrate : 0 ≤ rate.toInt) (hburst : 0 ≤ burst.toInt)
    (hfits : burst.toInt * 10 ^ 9 < 2 ^ 63)
    (hexact : burst.toInt * 10 ^ 9 < 2 ^ 62 ∨ burst.toInt % 2 = 0)
    (hforward : (clientBucket (clientBucketConfig outside rate.toInt burst)).AllSteps (fun b now => b.lastSeen ≤ now)
      (newClientBucket (clientBucketConfig outside rate.toInt burst) creation) readings) :
    AdmissionBound (clientBucketConfig outside rate.toInt burst) rate burst creation readings := by
  obtain ⟨hcapacity, hrefill⟩ := clientBucketConfig_toInt outside rate hburst hfits hexact
  have hle := admitted_le (by rwa [hrefill]) (by rw [hcapacity]; omega) hforward
  rw [hcapacity, hrefill] at hle
  exact hle

theorem admitted_le_of_forward_second :
    AdmissionBound (clientBucketConfig (fun _ => 0) (1 : Int64).toInt 1) 1 1 0 [0, 1000000000] :=
  admitted_le_of_forward (fun _ => 0) 1 1 0 [0, 1000000000] (by decide) (by decide) (by decide)
    (.inl (by decide)) (show _ ∧ _ ∧ True from ⟨by decide, by decide, trivial⟩)

theorem older_reading_refills_again : ¬ AdmissionBound (clientBucketConfig (fun _ => 0) (1 : Int64).toInt 1) 1 1 0
      [1000000000, 0, 1000000000, 0, 1000000000] := by
  obtain ⟨hcapacity, hrefill⟩ := clientBucketConfig_toInt (fun _ => 0) 1
    (show 0 ≤ (1 : Int64).toInt by decide) (by decide) (.inl (by decide))
  have hcfg : clientBucketConfig (fun _ => 0) (1 : Int64).toInt 1 = ⟨1000000000, 1⟩ := by
    rw [BucketConfig.mk.injEq]
    exact ⟨Int64.toInt_inj.1 hcapacity, hrefill⟩
  rw [hcfg, AdmissionBound]
  decide

end HelixRpc.Runtime.Go
