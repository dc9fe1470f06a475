import HelixRpc.Runtime.Go.Retry

/-!
# Retries of the Rust and Python clients

Model of `execute_retries_only` (`runtimes/rust/src/retry.rs`).
-/

namespace HelixRpc.Runtime

open Foundation Runtime.Go Runtime.Go.Retry

structure Rust.RetryPolicy (B : Type) where
  maxAttempts : Nat
  initialBackoff : B
  nextBackoff : B → Option B
  hedgeDelay : Bool
  hedgeBucket : Bool
  breaker : Bool

structure Python.RetryPolicy (B Exc : Type) where
  maxAttempts : Int
  initialBackoff : B
  nextBackoff : B → B
  typeError : Exc
  hedgeDelay : Bool
  hedgeBucket : Bool
  breaker : Bool

namespace PortRetry

variable {B T Err : Type}

structure LoopPolicy (B Err : Type) where
  maxAttempts : Int
  initialBackoff : B
  nextBackoff : B → Option B
  noAttempt : Err
  breaker : Bool

inductive Completion where
  | succeeded
  | failed
  | interrupted
  deriving DecidableEq

def Completion.record : Completion → Recorded
  | .succeeded => .success
  | .failed => .failure
  | .interrupted => .failure

def Completion.report : Completion → Option Recorded
  | .interrupted => none
  | completion => some completion.record

def recordIf (breaker : Bool) (completion : Completion) : Option Recorded :=
  if breaker then some completion.record else none

inductive LoopPoint (B T Err : Type) where
  | call (attempt : Nat) (backoff : B)
  | sleep (attempt : Nat) (backoff : B)
  | returned (result : Except Err T)
  | ended

structure Loop (B T Err : Type) where
  point : LoopPoint B T Err
  completed : List Completion

inductive LoopInput (T Err : Type) where
  | operation (outcome : Except Err T)
  | interrupted
  | wake
  | sleepFails (err : Err)

section
variable (policy : LoopPolicy B Err)

def newLoop : Loop B T Err :=
  if 1 ≤ policy.maxAttempts then ⟨.call 1 policy.initialBackoff, []⟩
  else ⟨.returned (.error policy.noAttempt), []⟩

def afterFailure (attempt : Nat) (backoff : B) (err : Err) : LoopPoint B T Err :=
  if attempt = policy.maxAttempts then .returned (.error err) else .sleep attempt backoff

def loop : Machine (Loop B T Err) (LoopInput T Err) (Option Recorded) := fun l input =>
  match l.point, input with
  | .call _ _, .operation (.ok value) =>
    (⟨.returned (.ok value), l.completed ++ [.succeeded]⟩, recordIf policy.breaker .succeeded)
  | .call attempt backoff, .operation (.error err) =>
    (⟨afterFailure policy attempt backoff err, l.completed ++ [.failed]⟩, recordIf policy.breaker .failed)
  | .call _ _, .interrupted => (⟨.ended, l.completed ++ [.interrupted]⟩, none)
  | .sleep attempt backoff, .wake =>
    match policy.nextBackoff backoff with
    | none => ({ l with point := .ended }, none)
    | some next => ({ l with point := .call (attempt + 1) next }, none)
  | .sleep _ _, .sleepFails err => ({ l with point := .returned (.error err) }, none)
  | _, _ => (l, none)

inductive LoopStep (l : Loop B T Err) : LoopInput T Err → Loop B T Err → Option Recorded → Prop where
  | idle (input : LoopInput T Err) : LoopStep l input l none
  | succeed {attempt : Nat} {backoff : B} (value : T) (hpoint : l.point = .call attempt backoff) :
      LoopStep l (.operation (.ok value)) ⟨.returned (.ok value), l.completed ++ [.succeeded]⟩
        (recordIf policy.breaker .succeeded)
  | fail {attempt : Nat} {backoff : B} (err : Err) (hpoint : l.point = .call attempt backoff) :
      LoopStep l (.operation (.error err))
        ⟨afterFailure policy attempt backoff err, l.completed ++ [.failed]⟩ (recordIf policy.breaker .failed)
  | interrupt {attempt : Nat} {backoff : B} (hpoint : l.point = .call attempt backoff) :
      LoopStep l .interrupted ⟨.ended, l.completed ++ [.interrupted]⟩ none
  | overflow {attempt : Nat} {backoff : B} (hpoint : l.point = .sleep attempt backoff)
      (hnext : policy.nextBackoff backoff = none) : LoopStep l .wake { l with point := .ended } none
  | wake {attempt : Nat} {backoff next : B} (hpoint : l.point = .sleep attempt backoff)
      (hnext : policy.nextBackoff backoff = some next) :
      LoopStep l .wake { l with point := .call (attempt + 1) next } none
  | sleepFails {attempt : Nat} {backoff : B} (err : Err) (hpoint : l.point = .sleep attempt backoff) :
      LoopStep l (.sleepFails err) { l with point := .returned (.error err) } none

variable (l : Loop B T Err)

theorem loop_cases (input : LoopInput T Err) :
    LoopStep policy l input (loop policy l input).1 (loop policy l input).2 := by
  unfold loop
  split
  · rename_i hpoint
    exact .succeed _ hpoint
  · rename_i hpoint
    exact .fail _ hpoint
  · rename_i hpoint
    exact .interrupt hpoint
  · rename_i hpoint
    split
    · rename_i hnext
      exact .overflow hpoint hnext
    · rename_i hnext
      exact .wake hpoint hnext
  · rename_i hpoint
    exact .sleepFails _ hpoint
  · exact .idle _

def Loop.result : Option (Except Err T) :=
  match l.point with
  | .returned result => some result
  | _ => none

theorem loop_of_result {l : Loop B T Err} {result : Except Err T} (h : l.result = some result)
    (input : LoopInput T Err) : loop policy l input = (l, none) := by
  cases hpoint : l.point with
  | returned => simp only [loop, hpoint]
  | _ => simp [Loop.result, hpoint] at h

def Loop.Bounded : Prop :=
  match l.point with
  | .call attempt _ => (attempt : Int) ≤ policy.maxAttempts
  | .sleep attempt _ => (attempt : Int) < policy.maxAttempts
  | .returned _ => True
  | .ended => False

def Loop.rank : Nat :=
  match l.point with
  | .call attempt _ => 2 * (policy.maxAttempts - attempt).toNat + 2
  | .sleep attempt _ => 2 * (policy.maxAttempts - attempt).toNat + 1
  | _ => 0

theorem bounded_newLoop : Loop.Bounded policy (newLoop policy : Loop B T Err) := by
  unfold newLoop
  split_ifs with h
  · exact h
  · trivial

variable {policy} {l l' : Loop B T Err} {input : LoopInput T Err} {answer : Option Recorded}

theorem Loop.Bounded.step (htotal : ∀ backoff, policy.nextBackoff backoff ≠ none) (h : l.Bounded policy)
    (hinput : input ≠ .interrupted) (hstep : LoopStep policy l input l' answer) : l'.Bounded policy := by
  cases hstep with
  | idle => exact h
  | succeed value hpoint => trivial
  | fail err hpoint =>
    simp only [Loop.Bounded, hpoint] at h
    unfold Loop.Bounded afterFailure
    split_ifs with hlast
    · trivial
    · exact lt_of_le_of_ne h hlast
  | interrupt hpoint => exact absurd rfl hinput
  | overflow hpoint hnext => exact absurd hnext (htotal _)
  | wake hpoint hnext =>
    simp only [Loop.Bounded, hpoint] at h
    simp only [Loop.Bounded]
    omega
  | sleepFails err hpoint => trivial

theorem LoopStep.rank_lt (hstep : LoopStep policy l input l' answer) (h : l.Bounded policy) :
    l' = l ∨ l'.rank policy < l.rank policy := by
  cases hstep with
  | idle => exact .inl rfl
  | succeed value hpoint =>
    right
    simp only [Loop.rank, hpoint]
    omega
  | fail err hpoint =>
    right
    simp only [Loop.rank, hpoint, afterFailure]
    split_ifs
    · simp only
      omega
    · simp only
      omega
  | interrupt hpoint =>
    right
    simp only [Loop.rank, hpoint]
    omega
  | overflow hpoint hnext =>
    right
    simp only [Loop.rank, hpoint]
    omega
  | wake hpoint hnext =>
    right
    simp only [Loop.Bounded, hpoint] at h
    simp only [Loop.rank, hpoint]
    omega
  | sleepFails err hpoint =>
    right
    simp only [Loop.rank, hpoint]
    omega

theorem Loop.Bounded.result_of_rest (h : l.Bounded policy) (htotal : ∀ backoff, policy.nextBackoff backoff ≠ none)
    (hrest : ∀ input : LoopInput T Err, input ≠ .interrupted → (loop policy l input).1 = l) : l.result.isSome := by
  cases hpoint : l.point with
  | call attempt backoff =>
    have hcall := congrArg Loop.completed (hrest (.operation (.error policy.noAttempt)) nofun)
    simp [loop, hpoint] at hcall
  | sleep attempt backoff =>
    have hwake := congrArg Loop.point (hrest .wake nofun)
    cases hnext : policy.nextBackoff backoff with
    | none => exact absurd hnext (htotal backoff)
    | some next => simp [loop, hpoint, hnext] at hwake
  | returned result => simp [Loop.result, hpoint]
  | ended => simp [Loop.Bounded, hpoint] at h
end

theorem LoopStep.completed {policy : LoopPolicy B Err} {l l' : Loop B T Err} {input : LoopInput T Err}
    {answer : Option Recorded} (hstep : LoopStep policy l input l' answer) (hbreaker : policy.breaker = true) :
    ∃ new : Option Completion, l'.completed = l.completed ++ new.toList ∧ answer = new.bind Completion.report := by
  cases hstep with
  | idle => exact ⟨none, (List.append_nil _).symm, rfl⟩
  | succeed value hpoint => exact ⟨some .succeeded, rfl, by rw [recordIf, hbreaker]; rfl⟩
  | fail err hpoint => exact ⟨some .failed, rfl, by rw [recordIf, hbreaker]; rfl⟩
  | interrupt hpoint => exact ⟨some .interrupted, rfl, rfl⟩
  | overflow hpoint hnext => exact ⟨none, (List.append_nil _).symm, rfl⟩
  | wake hpoint hnext => exact ⟨none, (List.append_nil _).symm, rfl⟩
  | sleepFails err hpoint => exact ⟨none, (List.append_nil _).symm, rfl⟩

end PortRetry

def Rust.RetryPolicy.loopPolicy {B : Type} (policy : Rust.RetryPolicy B) : PortRetry.LoopPolicy B Text :=
  ⟨policy.maxAttempts, policy.initialBackoff, policy.nextBackoff, [], policy.breaker⟩

def Python.RetryPolicy.loopPolicy {B Exc : Type} (policy : Python.RetryPolicy B Exc) : PortRetry.LoopPolicy B Exc :=
  ⟨policy.maxAttempts, policy.initialBackoff, fun backoff => some (policy.nextBackoff backoff), policy.typeError,
    policy.breaker⟩

end HelixRpc.Runtime
