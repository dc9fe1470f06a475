import HelixRpc.Foundation.Machine
import HelixRpc.Foundation.SignedWord

/-!
# The circuit breaker of the Go runtime

Model of `CircuitBreaker` (`runtimes/go/retry.go`).
-/

namespace HelixRpc.Runtime.Go

open Foundation

inductive CircuitState where
  | closed
  | opened
  | halfOpen
  deriving DecidableEq

theorem CircuitState.eq_or (s : CircuitState) : s = .closed ∨ s = .opened ∨ s = .halfOpen := by
  cases s with
  | closed => exact .inl rfl
  | opened => exact .inr (.inl rfl)
  | halfOpen => exact .inr (.inr rfl)

theorem CircuitState.closed_ne_opened : CircuitState.closed ≠ .opened := by decide

theorem CircuitState.halfOpen_ne_opened : CircuitState.halfOpen ≠ .opened := by decide

structure BreakerConfig where
  maxFailures : Int64
  openTimeout : Int64
  halfOpenProbes : Int64

structure CircuitBreaker where
  state : CircuitState
  failures : Int64
  successes : Int64
  lastOpenTime : Int64
  deriving DecidableEq

def newCircuitBreaker : CircuitBreaker := ⟨.closed, 0, 0, 0⟩

/-- `time.Since` at a reading of the clock; a difference outside the range of a duration is clamped. -/
def timeSince (now openedAt : Int64) : Int64 := Int64.ofIntClamp (now.toInt - openedAt.toInt)

theorem le_timeSince_iff {timeout now opened : Int64} (h : 0 ≤ timeout.toInt) :
    timeout ≤ timeSince now opened ↔ timeout.toInt ≤ now.toInt - opened.toInt := by
  have hmax := timeout.toInt_lt
  rw [Int64.le_iff_toInt_le, timeSince, SignedWord.toInt_ofIntClamp]
  omega

namespace CircuitBreaker

variable (cfg : BreakerConfig) (cb : CircuitBreaker) (now : Int64)

def allow : CircuitBreaker × Bool :=
  match cb.state with
  | .closed => (cb, true)
  | .opened =>
    if cfg.openTimeout ≤ timeSince now cb.lastOpenTime then
      ({ cb with state := .halfOpen, successes := 0 }, true)
    else (cb, false)
  | .halfOpen => (cb, true)

def recordSuccess : CircuitBreaker :=
  match cb.state with
  | .halfOpen =>
    let probes := cb.successes + 1
    if cfg.halfOpenProbes ≤ probes then
      { cb with state := .closed, successes := probes, failures := 0 }
    else { cb with successes := probes }
  | .closed => { cb with failures := 0 }
  | .opened => cb

def forceOpen : CircuitBreaker := { cb with state := .opened, lastOpenTime := now }

def forceClose : CircuitBreaker := { cb with state := .closed, failures := 0 }

def recordFailure : CircuitBreaker :=
  let f := cb.failures + 1
  if cfg.maxFailures ≤ f then
    match cb.state with
    | .closed => { cb with state := .opened, failures := f, lastOpenTime := now }
    | .halfOpen => { cb with state := .opened, failures := f, lastOpenTime := now }
    | .opened => { cb with failures := f }
  else { cb with failures := f }

end CircuitBreaker

inductive BreakerCall where
  | allow
  | recordSuccess
  | recordFailure
  | forceOpen
  | forceClose
  deriving DecidableEq

def BreakerCall.isAutomatic : BreakerCall → Bool
  | .forceOpen => false
  | .forceClose => false
  | _ => true

structure TimedCall where
  call : BreakerCall
  now : Int64
  deriving DecidableEq

def breaker (cfg : BreakerConfig) : Machine CircuitBreaker TimedCall (Option Bool) := fun cb c =>
  match c.call with
  | .allow => ((cb.allow cfg c.now).1, some (cb.allow cfg c.now).2)
  | .recordSuccess => (cb.recordSuccess cfg, none)
  | .recordFailure => (cb.recordFailure cfg c.now, none)
  | .forceOpen => (cb.forceOpen c.now, none)
  | .forceClose => (cb.forceClose, none)

inductive BreakerStep (cfg : BreakerConfig) (cb : CircuitBreaker) (c : TimedCall) :
    CircuitBreaker → Option Bool → Prop where
  | pass (hcall : c.call = .allow) (hstate : cb.state ≠ .opened) : BreakerStep cfg cb c cb (some true)
  | refuse (hcall : c.call = .allow) (hstate : cb.state = .opened)
      (hearly : timeSince c.now cb.lastOpenTime < cfg.openTimeout) : BreakerStep cfg cb c cb (some false)
  | probe (hcall : c.call = .allow) (hstate : cb.state = .opened)
      (hlate : cfg.openTimeout ≤ timeSince c.now cb.lastOpenTime) :
      BreakerStep cfg cb c { cb with state := .halfOpen, successes := 0 } (some true)
  | reset (hcall : c.call = .recordSuccess) (hstate : cb.state = .closed) :
      BreakerStep cfg cb c { cb with failures := 0 } none
  | ignore (hcall : c.call = .recordSuccess) (hstate : cb.state = .opened) : BreakerStep cfg cb c cb none
  | count (hcall : c.call = .recordSuccess) (hstate : cb.state = .halfOpen)
      (hfew : cb.successes + 1 < cfg.halfOpenProbes) :
      BreakerStep cfg cb c { cb with successes := cb.successes + 1 } none
  | close (hcall : c.call = .recordSuccess) (hstate : cb.state = .halfOpen)
      (henough : cfg.halfOpenProbes ≤ cb.successes + 1) :
      BreakerStep cfg cb c { cb with state := .closed, successes := cb.successes + 1, failures := 0 } none
  | fail (hcall : c.call = .recordFailure)
      (hstate : cb.failures + 1 < cfg.maxFailures ∨ cb.state = .opened) :
      BreakerStep cfg cb c { cb with failures := cb.failures + 1 } none
  | trip (hcall : c.call = .recordFailure) (hlimit : cfg.maxFailures ≤ cb.failures + 1)
      (hstate : cb.state ≠ .opened) :
      BreakerStep cfg cb c
        { cb with state := .opened, failures := cb.failures + 1, lastOpenTime := c.now } none

theorem breaker_cases (cfg : BreakerConfig) (cb : CircuitBreaker) {c : TimedCall} (hauto : c.call.isAutomatic = true) :
    BreakerStep cfg cb c (breaker cfg cb c).1 (breaker cfg cb c).2 := by
  obtain ⟨call, now⟩ := c
  obtain ⟨state, failures, successes, lastOpenTime⟩ := cb
  cases call with
  | allow =>
    cases state with
    | closed => exact .pass rfl nofun
    | halfOpen => exact .pass rfl nofun
    | opened =>
      by_cases hlate : cfg.openTimeout ≤ timeSince now lastOpenTime
      · simp only [breaker, CircuitBreaker.allow, if_pos hlate]
        exact .probe rfl rfl hlate
      · simp only [breaker, CircuitBreaker.allow, if_neg hlate]
        exact .refuse rfl rfl (Int64.not_le.1 hlate)
  | recordSuccess =>
    cases state with
    | closed => exact .reset rfl rfl
    | opened => exact .ignore rfl rfl
    | halfOpen =>
      by_cases henough : cfg.halfOpenProbes ≤ successes + 1
      · simp only [breaker, CircuitBreaker.recordSuccess, if_pos henough]
        exact .close rfl rfl henough
      · simp only [breaker, CircuitBreaker.recordSuccess, if_neg henough]
        exact .count rfl rfl (Int64.not_le.1 henough)
  | recordFailure =>
    by_cases hlimit : cfg.maxFailures ≤ failures + 1
    · simp only [breaker, CircuitBreaker.recordFailure, if_pos hlimit]
      cases state with
      | closed => exact .trip rfl hlimit nofun
      | halfOpen => exact .trip rfl hlimit nofun
      | opened => exact .fail rfl (.inr rfl)
    · simp only [breaker, CircuitBreaker.recordFailure, if_neg hlimit]
      exact .fail rfl (.inl (Int64.not_le.1 hlimit))
  | forceOpen => cases hauto
  | forceClose => cases hauto

end HelixRpc.Runtime.Go
