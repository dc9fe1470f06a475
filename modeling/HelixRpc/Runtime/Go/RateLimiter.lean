import HelixRpc.Runtime.Go.ClientBucket
import HelixRpc.Runtime.Go.Router

/-!
# The rate limiter of the Go server

Model of `RateLimiter` (`runtimes/go/ratelimit.go`).
-/

namespace HelixRpc.Runtime.Go

open Foundation

inductive Float64 where
  | finite (q : ℚ)
  | infinite (negative : Bool)
  | notANumber

def Float64.nonpos : Float64 → Bool
  | .finite q => decide (q ≤ 0)
  | .infinite negative => negative
  | .notANumber => false

/-- `int64` of a floating-point number. -/
def Float64.toInt64 (outside : Float64 → Int64) : Float64 → Int64
  | .finite q => int64OfFloat (fun q => outside (.finite q)) q
  | x => outside x

structure RateLimitConfig where
  requestsPerSecond : Float64
  burstSize : Int64

structure RateLimiter where
  cfg : RateLimitConfig
  buckets : Text → Option ClientBucket

section
variable (outside : Float64 → Int64)

def newRateLimiter (cfg : RateLimitConfig) : RateLimiter :=
  let burstSize := if cfg.burstSize = 0 then max 1 (cfg.requestsPerSecond.toInt64 outside) else cfg.burstSize
  ⟨{ cfg with burstSize := burstSize }, fun _ => none⟩

def RateLimitConfig.bucketConfig (cfg : RateLimitConfig) : BucketConfig :=
  { clientBucketConfig (fun q => outside (.finite q)) 0 cfg.burstSize with
    refillNs := cfg.requestsPerSecond.toInt64 outside }

namespace RateLimiter

def loadOrStore (rl : RateLimiter) (key : Text) (b : ClientBucket) : RateLimiter × ClientBucket :=
  match rl.buckets key with
  | some actual => (rl, actual)
  | none => ({ rl with buckets := Function.update rl.buckets key (some b) }, b)

def bucket (rl : RateLimiter) (key : Text) (created : Int64) : RateLimiter × ClientBucket :=
  match rl.buckets key with
  | some b => (rl, b)
  | none => rl.loadOrStore key (newClientBucket (rl.cfg.bucketConfig outside) created)

def allow (rl : RateLimiter) (key : Text) (created now : Int64) : RateLimiter × Int64 × Bool :=
  let (rl, b) := rl.bucket outside key created
  let (b, answer) := b.allow (rl.cfg.bucketConfig outside) now
  ({ rl with buckets := Function.update rl.buckets key (some b) }, answer)

variable {outside} {rl : RateLimiter} {key other : Text}

end RateLimiter
end

end HelixRpc.Runtime.Go
