import HelixRpc.Runtime.Go.RateLimiter

/-!
# Retries of the Go client

Model of `executeRetriesOnly` (`runtimes/go/retry.go`).
-/

namespace HelixRpc.Runtime.Go.Retry

open Foundation List Machine

structure RetryPolicy (Err : Type) where
  maxAttempts : Int
  initialBackoff : Int64
  maxBackoff : Int64
  backoffMultiplier : Float64
  retryableErrors : Option (Err → Bool)
  breaker : Bool

def scaled (backoff : Int64) : Float64 → Float64
  | .finite q => .finite (Double.round (Double.round backoff.toInt * q))
  | .infinite negative =>
    if backoff = 0 then .notANumber else .infinite (negative != decide (backoff < 0))
  | .notANumber => .notANumber

namespace RetryPolicy

variable {Err : Type} (outside : Float64 → Int64) (policy : RetryPolicy Err)

def nextBackoff (backoff : Int64) : Int64 :=
  let next := (scaled backoff policy.backoffMultiplier).toInt64 outside
  if policy.maxBackoff < next then policy.maxBackoff else next

def backoffAt : Nat → Int64
  | 0 => policy.initialBackoff
  | k + 1 => policy.nextBackoff outside (backoffAt k)

def retries (err : Err) : Bool :=
  match policy.retryableErrors with
  | none => true
  | some retryable => retryable err

end RetryPolicy

inductive LoopPoint (T Err : Type) where
  | call (attempt : Nat) (backoff : Int64)
  | sleep (attempt : Nat) (backoff : Int64)
  | returned (value : T) (err : Option Err)
  | panicked
  deriving DecidableEq

structure Loop (T Err : Type) where
  point : LoopPoint T Err
  results : List (T × Option Err)

def Loop.calls {T Err : Type} (l : Loop T Err) : Nat :=
  match l.point with
  | .call _ _ => l.results.length + 1
  | _ => l.results.length

inductive LoopInput (T Err : Type) where
  | operation (value : T) (err : Option Err)
  | wake
  | done (err : Err)

inductive Recorded where
  | success
  | failure
  deriving DecidableEq

section
variable {T Err : Type} (outside : Float64 → Int64) (policy : RetryPolicy Err) (zero : T)

def newLoop : Loop T Err :=
  if 1 ≤ policy.maxAttempts then ⟨.call 1 policy.initialBackoff, []⟩ else ⟨.returned zero none, []⟩

def afterFailure (attempt : Nat) (backoff : Int64) (value : T) (err : Err) : LoopPoint T Err :=
  if policy.retries err = false then .returned value (some err)
  else if attempt = policy.maxAttempts then .returned zero (some err)
  -- `rand.Int63n(int64(backoff))`
  else if backoff ≤ 0 then .panicked
  else .sleep attempt backoff

def loop : Machine (Loop T Err) (LoopInput T Err) (Option Recorded) := fun l input =>
  match l.point, input with
  | .call attempt backoff, .operation value err =>
    let results := l.results ++ [(value, err)]
    match err with
    | none => (⟨.returned value none, results⟩, if policy.breaker then some .success else none)
    | some err =>
      (⟨afterFailure policy zero attempt backoff value err, results⟩, if policy.breaker then some .failure else none)
  | .sleep attempt backoff, .wake =>
    ({ l with point := .call (attempt + 1) (policy.nextBackoff outside backoff) }, none)
  | .sleep _ _, .done err => ({ l with point := .returned zero (some err) }, none)
  | _, _ => (l, none)

def executeWithRetry (circuitOpen : Err) (allowed : Bool) : Loop T Err :=
  if policy.breaker && !allowed then ⟨.returned zero (some circuitOpen), []⟩ else newLoop policy zero

inductive LoopStep (l : Loop T Err) : LoopInput T Err → Loop T Err → Prop where
  | idle (input : LoopInput T Err) : LoopStep l input l
  | succeed {attempt : Nat} {backoff : Int64} (value : T) (hpoint : l.point = .call attempt backoff) :
      LoopStep l (.operation value none) ⟨.returned value none, l.results ++ [(value, none)]⟩
  | fail {attempt : Nat} {backoff : Int64} (value : T) (err : Err)
      (hpoint : l.point = .call attempt backoff) :
      LoopStep l (.operation value (some err))
        ⟨afterFailure policy zero attempt backoff value err, l.results ++ [(value, some err)]⟩
  | wake {attempt : Nat} {backoff : Int64} (hpoint : l.point = .sleep attempt backoff) :
      LoopStep l .wake { l with point := .call (attempt + 1) (policy.nextBackoff outside backoff) }
  | done {attempt : Nat} {backoff : Int64} (err : Err) (hpoint : l.point = .sleep attempt backoff) :
      LoopStep l (.done err) { l with point := .returned zero (some err) }

theorem loop_cases (l : Loop T Err) (input : LoopInput T Err) :
    LoopStep outside policy zero l input (loop outside policy zero l input).1 := by
  unfold loop
  split
  · rename_i attempt backoff value err hpoint
    cases err with
    | none => exact .succeed value hpoint
    | some err => exact .fail value err hpoint
  · rename_i attempt backoff hpoint
    exact .wake hpoint
  · rename_i attempt backoff err hpoint
    exact .done err hpoint
  · exact .idle _

section
variable {outside policy zero} {l l' : Loop T Err} {input : LoopInput T Err}

theorem LoopStep.of_returned (hstep : LoopStep outside policy zero l input l') {value : T} {err : Option Err}
    (h : l.point = .returned value err) : l' = l := by
  cases hstep with
  | idle => rfl
  | succeed _ hpoint => cases hpoint.symm.trans h
  | fail _ _ hpoint => cases hpoint.symm.trans h
  | wake hpoint => cases hpoint.symm.trans h
  | done _ hpoint => cases hpoint.symm.trans h

theorem LoopStep.value (hstep : LoopStep outside policy zero l input l')
    (h : ∀ value, l.point = .returned value none → (value, none) ∈ l.results) (value : T)
    (hreturned : l'.point = .returned value none) : (value, none) ∈ l'.results := by
  cases hstep with
  | idle => exact h value hreturned
  | succeed _ _ =>
    cases hreturned
    exact mem_append_right _ mem_cons_self
  | fail _ _ _ =>
    simp only [afterFailure] at hreturned
    split_ifs at hreturned <;> cases hreturned
  | wake _ => cases hreturned
  | done _ _ => cases hreturned
end

/-- The outcome is right so far: no panic, no more calls than attempts, and no value without a call that
returned it. -/
structure Sound (l : Loop T Err) : Prop where
  noPanic : l.point ≠ .panicked
  calls : l.calls ≤ policy.maxAttempts.toNat
  value : ∀ value, l.point = .returned value none → (value, none) ∈ l.results

structure Safe : Prop where
  attempts : 1 ≤ policy.maxAttempts
  backoffs : ∀ err, policy.retries err = true →
    ∀ k : Nat, (k + 1 : Int) < policy.maxAttempts → 0 < policy.backoffAt outside k

def Counted (l : Loop T Err) : Prop :=
  match l.point with
  | .call attempt backoff =>
    attempt = l.results.length + 1 ∧ (attempt : Int) ≤ policy.maxAttempts ∧
      backoff = policy.backoffAt outside l.results.length
  | .sleep attempt backoff =>
    attempt = l.results.length ∧ (attempt : Int) < policy.maxAttempts ∧
      policy.nextBackoff outside backoff = policy.backoffAt outside attempt
  | .returned value err =>
    (l.results.length : Int) ≤ policy.maxAttempts ∧ (err = none → (value, none) ∈ l.results)
  | .panicked => False

theorem sound_of_counted {l : Loop T Err} (h : Counted outside policy l) : Sound policy l := by
  unfold Counted at h
  cases hpoint : l.point with
  | call attempt backoff =>
    rw [hpoint] at h
    refine ⟨by simp [hpoint], ?_, by simp [hpoint]⟩
    simp only [Loop.calls, hpoint]
    omega
  | sleep attempt backoff =>
    rw [hpoint] at h
    refine ⟨by simp [hpoint], ?_, by simp [hpoint]⟩
    simp only [Loop.calls, hpoint]
    omega
  | returned value err =>
    rw [hpoint] at h
    refine ⟨by simp [hpoint], ?_, ?_⟩
    · simp only [Loop.calls, hpoint]
      omega
    · intro value' heq
      rw [hpoint] at heq
      cases heq
      exact h.2 rfl
  | panicked =>
    rw [hpoint] at h
    exact h.elim

section
variable {outside policy zero}

theorem counted_afterFailure (hsafe : Safe outside policy) {attempt : Nat} {backoff : Int64} {value : T}
    {err : Err} {results : List (T × Option Err)} (hlength : attempt = results.length)
    (hattempt : (attempt : Int) ≤ policy.maxAttempts) {k : Nat} (hk : attempt = k + 1)
    (hbackoff : backoff = policy.backoffAt outside k) :
    Counted outside policy ⟨afterFailure policy zero attempt backoff value err, results⟩ := by
  unfold afterFailure Counted
  split_ifs with hretries hlast hpositive
  · exact ⟨hlength ▸ hattempt, by simp⟩
  · exact ⟨hlength ▸ hattempt, by simp⟩
  · have hlater : (k + 1 : Int) < policy.maxAttempts := by omega
    have hpos := hsafe.backoffs err (Bool.of_not_eq_false hretries) k hlater
    exact absurd (hbackoff ▸ hpositive) (Int64.not_le.2 hpos)
  · refine ⟨hlength, by omega, ?_⟩
    rw [hbackoff, hk]
    rfl

theorem Counted.step (hsafe : Safe outside policy) {l l' : Loop T Err} (h : Counted outside policy l)
    {input : LoopInput T Err} (hstep : LoopStep outside policy zero l input l') : Counted outside policy l' := by
  cases hstep with
  | idle => exact h
  | succeed value hpoint =>
    simp only [Counted, hpoint] at h
    refine ⟨?_, fun _ => mem_append_right _ mem_cons_self⟩
    rw [length_append, length_singleton]
    push_cast
    omega
  | fail value err hpoint =>
    -- the results have one more entry now, and the counter is as many as they are
    simp only [Counted, hpoint] at h
    refine counted_afterFailure hsafe ?_ h.2.1 h.1 h.2.2
    rw [length_append, length_singleton, h.1]
  | wake hpoint =>
    simp only [Counted, hpoint] at h
    refine ⟨by rw [h.1], by push_cast; omega, ?_⟩
    rw [h.2.2, h.1]
  | done err hpoint =>
    simp only [Counted, hpoint] at h
    refine ⟨by rw [← h.1]; omega, fun hnone => ?_⟩
    cases hnone

theorem counted_after (hsafe : Safe outside policy) {l : Loop T Err} (h : Counted outside policy l)
    (inputs : List (LoopInput T Err)) : Counted outside policy ((loop outside policy zero).after l inputs) :=
  invariant_after (fun l input hl => hl.step hsafe (loop_cases outside policy zero l input)) h inputs

theorem counted_newLoop (hsafe : Safe outside policy) : Counted outside policy (newLoop policy zero) := by
  rw [newLoop, if_pos hsafe.attempts]
  exact ⟨rfl, hsafe.attempts, rfl⟩

def failedRounds (zero : T) (err : Err) : Nat → List (LoopInput T Err)
  | 0 => []
  | k + 1 => failedRounds zero err k ++ [.operation zero (some err), .wake]

theorem after_failedRounds {err : Err} (hretries : policy.retries err = true) {k : Nat}
    (hk : (k + 1 : Int) ≤ policy.maxAttempts) (hpos : ∀ j < k, 0 < policy.backoffAt outside j) :
    (loop outside policy zero).after (newLoop policy zero) (failedRounds zero err k) =
      ⟨.call (k + 1) (policy.backoffAt outside k), replicate k (zero, some err)⟩ := by
  -- each round takes the loop to the next backoff, with one result more
  induction k with
  | zero =>
    rw [newLoop, if_pos (by omega)]
    rfl
  | succ k ih =>
    have hearlier := ih (by push_cast at hk; omega) fun j hj => hpos j (Nat.lt_succ_of_lt hj)
    have hbackoff := Int64.not_le.2 (hpos k (Nat.lt_succ_self k))
    have hlast : ((k + 1 : Nat) : Int) ≠ policy.maxAttempts := by push_cast at hk ⊢; omega
    rw [failedRounds, after_append, hearlier, replicate_succ']
    simp only [Machine.after, loop, afterFailure, hretries, hlast, hbackoff, if_false, Bool.true_eq_false]
    rfl
end

end

/-- The outcome is right whatever the operation does, exactly if there is an attempt and the
backoff is positive before each of the others. -/
theorem executeWithRetry_sound_iff {T Err : Type} (outside : Float64 → Int64) (policy : RetryPolicy Err) (zero : T)
    (circuitOpen : Err) : (∀ (allowed : Bool) (inputs : List (LoopInput T Err)),
    Sound policy ((loop outside policy zero).after (executeWithRetry policy zero circuitOpen allowed) inputs)) ↔
    Safe outside policy := by
  constructor
  · intro h
    have hstart : executeWithRetry policy zero circuitOpen true = newLoop policy zero := by
      rw [executeWithRetry, Bool.not_true, Bool.and_false, if_neg (by decide)]
    have hattempts : 1 ≤ policy.maxAttempts := by
      by_contra hnone
      have hsound := h true []
      rw [hstart, newLoop, if_neg hnone] at hsound
      exact absurd (hsound.value zero rfl) not_mem_nil
    refine ⟨hattempts, fun err hretries k => ?_⟩
    induction k using Nat.strong_induction_on with
    | _ k ih =>
      intro hk
      by_contra hbackoff
      -- the first backoff that is not positive makes the loop panic
      have hrounds : (loop outside policy zero).after (newLoop policy zero) (failedRounds zero err k) = _ :=
        after_failedRounds hretries hk.le fun j hj => ih j hj (by omega)
      have hsound := h true (failedRounds zero err k ++ [.operation zero (some err)])
      rw [hstart, after_snoc, hrounds] at hsound
      have hlast : ((k + 1 : Nat) : Int) ≠ policy.maxAttempts := by push_cast; omega
      refine hsound.noPanic ?_
      simp only [loop, afterFailure, hretries, hlast, Int64.not_lt.1 hbackoff, if_false, if_true, Bool.true_eq_false]
  · intro hsafe allowed inputs
    refine sound_of_counted outside policy (counted_after hsafe ?_ inputs)
    rw [executeWithRetry]
    split_ifs with hrefused
    · exact ⟨by simp only [length_nil]; have := hsafe.attempts; omega, by simp⟩
    · exact counted_newLoop hsafe

def doubling (maxAttempts : Int) (initialBackoff maxBackoff : Int64) : RetryPolicy Unit :=
  ⟨maxAttempts, initialBackoff, maxBackoff, .finite 2, none, false⟩

def runDoubling (maxAttempts : Int) (initialBackoff maxBackoff : Int64) (inputs : List (LoopInput Unit Unit)) :
    Loop Unit Unit :=
  let policy := doubling maxAttempts initialBackoff maxBackoff
  (loop (fun _ => 0) policy ()).after (executeWithRetry policy () () true) inputs

theorem executeWithRetry_unsound : (runDoubling 0 1000 1000 [] = ⟨.returned () none, []⟩ ∧
    ¬ Sound (doubling 0 1000 1000) (runDoubling 0 1000 1000 [])) ∧ ¬ Sound (doubling 2 0 1000) (runDoubling 2 0 1000
    [.operation () (some ())]) ∧ ¬ Sound (doubling 3 1000 0) (runDoubling 3 1000 0 [.operation () (some ()), .wake,
    .operation () (some ())]) := by
  refine ⟨⟨rfl, fun h => ?_⟩, fun h => ?_, fun h => ?_⟩
  · exact absurd (h.value () rfl) not_mem_nil
  · exact h.noPanic rfl
  · exact h.noPanic (by decide +kernel)

end HelixRpc.Runtime.Go.Retry
