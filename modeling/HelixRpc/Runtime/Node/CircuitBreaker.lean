import HelixRpc.Foundation.Machine
import Mathlib.Tactic.Linarith

/-!
# The circuit breaker of the Node runtime

Model of `CircuitBreaker` (`runtimes/node/src/circuitbreaker.ts`).
-/

namespace HelixRpc.Runtime.Node

open Foundation Machine

inductive BreakerState where
  | closed
  | opened
  | halfOpen
  deriving DecidableEq

structure BreakerConfig where
  maxFailures : ℚ
  timeout : ℚ

structure CircuitBreaker where
  state : BreakerState
  failureCount : Nat
  lastFailureTime : Int
  deriving DecidableEq

def newCircuitBreaker : CircuitBreaker := ⟨.closed, 0, 0⟩

def increment (n : Nat) : Nat := if n < 2 ^ 53 then n + 1 else n

namespace CircuitBreaker

variable (cfg : BreakerConfig) (cb : CircuitBreaker) (now : Int)

def checkState : CircuitBreaker :=
  if cb.state = .opened ∧ cfg.timeout < ((now - cb.lastFailureTime : Int) : ℚ) then
    { cb with state := .halfOpen }
  else cb

def onSuccess : CircuitBreaker := { cb with state := .closed, failureCount := 0 }

def onFailure : CircuitBreaker :=
  let cb := { cb with failureCount := increment cb.failureCount, lastFailureTime := now }
  if cb.state = .halfOpen ∨ cfg.maxFailures ≤ (cb.failureCount : ℚ) then { cb with state := .opened }
  else cb

end CircuitBreaker

inductive CallEvent where
  | execute
  | succeed (id : Nat)
  | fail (id : Nat)
  | getState
  deriving DecidableEq

structure TimedEvent where
  event : CallEvent
  now : Int
  deriving DecidableEq

structure BreakerRun where
  cb : CircuitBreaker
  inFlight : List Nat
  started : Nat
  deriving DecidableEq

def newRun : BreakerRun := ⟨newCircuitBreaker, [], 0⟩

variable (cfg : BreakerConfig)

/-- One event. -/
def breaker : Machine BreakerRun TimedEvent (Option Bool) := fun s e =>
  match e.event with
  | .execute =>
    let cb := s.cb.checkState cfg e.now
    if cb.state = .opened then ({ s with cb := cb }, some false)
    else (⟨cb, s.started :: s.inFlight, s.started + 1⟩, some true)
  | .succeed id =>
    if id ∈ s.inFlight then ({ s with cb := s.cb.onSuccess, inFlight := s.inFlight.erase id }, none)
    else (s, none)
  | .fail id =>
    if id ∈ s.inFlight then
      ({ s with cb := s.cb.onFailure cfg e.now, inFlight := s.inFlight.erase id }, none)
    else (s, none)
  | .getState => ({ s with cb := s.cb.checkState cfg e.now }, none)

def InWindow (s : BreakerRun) (now : Int) : Prop :=
  ((now - s.cb.lastFailureTime : Int) : ℚ) ≤ cfg.timeout

/-- Wherever a run has opened the breaker, and as long as the timeout has not
elapsed since the last recorded failure, a call of `execute` would be rejected. -/
def StaysOpen (events : List TimedEvent) : Prop :=
  ∀ before window rest, events = before ++ (window ++ rest) → ((breaker cfg).after newRun before).cb.state = .opened →
      (breaker cfg).AllSteps (fun s e => InWindow cfg s e.now) ((breaker cfg).after newRun before)
        window → ∀ now, InWindow cfg ((breaker cfg).after newRun (before ++ window)) now →
        (breaker cfg ((breaker cfg).after newRun (before ++ window)) ⟨.execute, now⟩).2 = some false

def NoSuccessWhileOpen (s : BreakerRun) (e : TimedEvent) : Prop :=
  ∀ id ∈ s.inFlight, e.event = .succeed id → s.cb.state = .opened → ¬ InWindow cfg s e.now

section
variable {cfg : BreakerConfig} {s : BreakerRun} {e : TimedEvent}

theorem checkState_of_inWindow {now : Int} (h : InWindow cfg s now) : s.cb.checkState cfg now = s.cb :=
  if_neg fun hlate => absurd hlate.2 (not_lt.2 h)

theorem execute_rejected {now : Int} (hopened : s.cb.state = .opened) (h : InWindow cfg s now) :
    breaker cfg s ⟨.execute, now⟩ = (s, some false) := by simp only [breaker, checkState_of_inWindow h, if_pos hopened]

theorem onFailure_opened (cfg : BreakerConfig) {cb : CircuitBreaker} (hopened : cb.state = .opened)
    (now : Int) : (cb.onFailure cfg now).state = .opened := by
  rw [CircuitBreaker.onFailure]
  dsimp only
  split
  · rfl
  · exact hopened

theorem step_opened (hopened : s.cb.state = .opened) (hwindow : InWindow cfg s e.now)
    (hno : NoSuccessWhileOpen cfg s e) : (breaker cfg s e).1.cb.state = .opened := by
  obtain ⟨event, now⟩ := e
  cases event with
  | execute =>
    rw [execute_rejected hopened hwindow]
    exact hopened
  | succeed id =>
    by_cases hid : id ∈ s.inFlight
    · exact absurd hwindow (hno id hid rfl hopened)
    · simp only [breaker, if_neg hid]
      exact hopened
  | fail id =>
    by_cases hid : id ∈ s.inFlight
    · simp only [breaker, if_pos hid]
      exact onFailure_opened cfg hopened now
    · simp only [breaker, if_neg hid]
      exact hopened
  | getState =>
    simp only [breaker, checkState_of_inWindow hwindow]
    exact hopened
end

theorem after_window {cfg : BreakerConfig} {s : BreakerRun} {window : List TimedEvent} (hopened : s.cb.state = .opened)
    (hwindow : (breaker cfg).AllSteps (fun s e => InWindow cfg s e.now) s window)
    (hno : (breaker cfg).AllSteps (NoSuccessWhileOpen cfg) s window) :
    ((breaker cfg).after s window).cb.state = .opened := by
  induction window generalizing s with
  | nil => exact hopened
  | cons e window ih => exact ih (step_opened hopened hwindow.1 hno.1) hwindow.2 hno.2

/-- An open breaker lets nothing through before its timeout, whatever the calls in flight do, exactly if
none of them succeeds in that time. -/
theorem stays_open_iff (cfg : BreakerConfig) (events : List TimedEvent) :
    StaysOpen cfg events ↔ (breaker cfg).AllSteps (NoSuccessWhileOpen cfg) newRun events := by
  constructor
  · intro hstays
    rw [allSteps_iff]
    rintro earlier ⟨event, now⟩ later hevents id hid hevent hopened hwindow
    cases hevent
    -- the success closes the breaker, and a call at the same time goes through
    have hrejected := hstays earlier [⟨.succeed id, now⟩] later hevents hopened ⟨hwindow, trivial⟩ now
    rw [after_snoc] at hrejected
    generalize (breaker cfg).after newRun earlier = s at *
    have hafter : (breaker cfg s ⟨.succeed id, now⟩).1 =
        { s with cb := s.cb.onSuccess, inFlight := s.inFlight.erase id } := by simp only [breaker, if_pos hid]
    rw [hafter] at hrejected
    have hcalled := hrejected hwindow
    simp [breaker, CircuitBreaker.checkState, CircuitBreaker.onSuccess, reduceCtorEq] at hcalled
  · rintro hno before window rest rfl hopened hwindow now hnow
    have hno' := (allSteps_append.1 (allSteps_append.1 hno).2).1
    have hafter := after_window hopened hwindow hno'
    rw [← after_append] at hafter
    rw [execute_rejected hafter hnow]

theorem late_success_closes : (breaker ⟨1, 5000⟩).answers newRun [⟨.execute, 0⟩, ⟨.execute, 1⟩, ⟨.fail 1, 2⟩,
    ⟨.execute, 3⟩, ⟨.succeed 0, 4⟩, ⟨.execute, 5⟩] = [some true, some true, none, some false, none, some true] ∧
    ¬ StaysOpen ⟨1, 5000⟩ [⟨.execute, 0⟩, ⟨.execute, 1⟩, ⟨.fail 1, 2⟩, ⟨.execute, 3⟩, ⟨.succeed 0, 4⟩,
    ⟨.execute, 5⟩] := by
  refine ⟨by decide, fun hstays => ?_⟩
  have hrejected := hstays [⟨.execute, 0⟩, ⟨.execute, 1⟩, ⟨.fail 1, 2⟩] [⟨.execute, 3⟩, ⟨.succeed 0, 4⟩]
    [⟨.execute, 5⟩] rfl (by decide) (by simp only [Machine.AllSteps, InWindow]; decide) 5 (by unfold InWindow; decide)
  exact absurd hrejected (by decide)

end HelixRpc.Runtime.Node
