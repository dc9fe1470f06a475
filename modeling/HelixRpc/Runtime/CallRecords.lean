import HelixRpc.Foundation.Journal
import HelixRpc.Runtime.Go.Hedging
import HelixRpc.Runtime.PortHedging

/-!
# What the breaker is told

An execution of `ExecuteWithRetry` (Go) or `execute_with_retry` (Rust and Python) behind the breaker, with or without
hedging as the policy says.
-/

namespace HelixRpc.Runtime

open Foundation List Machine
open HelixRpc.Runtime.PortRetry (Completion)
open HelixRpc.Runtime.Go (Text)
open HelixRpc.Runtime.Go.Retry (Recorded)
variable {σ ι B T Err Exc : Type}

/-- An execution: how it begins, its steps with their calls of the breaker, and how the calls of the operation
have ended. -/
structure Execution (σ ι : Type) where
  start : σ
  work : Machine σ ι (Option Recorded)
  completed : σ → List Completion

structure Execution.Accounts (x : Execution σ ι) (tell : Completion → Option Recorded) : Prop where
  empty : x.completed x.start = []
  journals : ∃ Inv : σ → Prop, Inv x.start ∧ x.work.Journals Inv x.completed tell

theorem silent {old new : List Completion} (h : new = old) (tell : Completion → Option Recorded) :
    ∃ entry : Option Completion, new.Perm (old ++ entry.toList) ∧ (none : Option Recorded) = entry.bind tell := by
  refine ⟨none, ?_, rfl⟩
  rw [h, Option.toList_none, append_nil]

namespace Go

def Retry.Loop.completed (l : Retry.Loop T Err) : List Completion := l.results.map fun result =>
    match result.2 with
    | none => .succeeded
    | some _ => .failed

section
variable (outside : Float64 → Int64) (policy : Retry.RetryPolicy Err) (zero : T)

theorem completed_newLoop : (Retry.newLoop policy zero).completed = [] := by
  unfold Retry.newLoop
  split_ifs
  all_goals rfl

variable {policy}

theorem loop_journals (hbreaker : policy.breaker = true) : Machine.Journals (Retry.loop outside policy zero)
    (fun _ => True) Retry.Loop.completed (some ∘ Completion.record) := by
  refine fun l input _ => ⟨trivial, ?_⟩
  unfold Retry.loop
  split
  · rename_i attempt backoff value err hpoint
    cases err with
    | none =>
      refine ⟨some .succeeded, Perm.of_eq ?_, if_pos hbreaker⟩
      exact map_append
    | some err =>
      refine ⟨some .failed, Perm.of_eq ?_, if_pos hbreaker⟩
      exact map_append
  all_goals exact silent rfl _
end

namespace Hedging

open Retry
variable (outside : Float64 → Int64) (policy : RetryPolicy Err) (zero : T)

def System.completed (s : System T Err) : List Completion := s.workers.flatMap fun w => w.loop.completed

def recorded (s : System T Err) : Event T Err → Option Recorded
  | .worker i input =>
    if s.crashed then none
    else
      match s.workers[i]? with
      | none => none
      | some w => (loop outside policy zero w.loop input).2
  | _ => none

def recording : Machine (System T Err) (Event T Err) (Option Recorded) := fun s e =>
  ((hedging outside policy zero s e).1, recorded outside policy zero s e)

variable {outside policy zero} (s : System T Err)

theorem workerStep_journals (hbreaker : policy.breaker = true) {i : Nat} {w : Worker T Err}
    (hworker : s.workers[i]? = some w) (input : LoopInput T Err) :
    ∃ new : Option Completion, ((workerStep outside policy zero s i input).completed).Perm (s.completed ++ new.toList) ∧
        (loop outside policy zero w.loop input).2 = new.bind (some ∘ Completion.record) := by
  obtain ⟨-, new, hnew, hanswer⟩ := loop_journals outside zero hbreaker w.loop input trivial
  have hset := flatMap_set_perm (fun w : Worker T Err => w.loop.completed)
    (b := { w with loop := (loop outside policy zero w.loop input).1 }) hworker hnew
  simp only [workerStep, hworker]
  cases input with
  | operation value err => exact ⟨new, hset, hanswer⟩
  | wake => exact ⟨new, hset, hanswer⟩
  | done err =>
    dsimp only
    split_ifs
    · exact ⟨new, hset, hanswer⟩
    · -- the loop does not see a context that is not done, and it would not have told anything
      have hnone : (loop outside policy zero w.loop (.done err)).2 = none := by
        unfold loop
        cases w.loop.point <;> rfl
      rw [hnone]
      exact silent rfl _

theorem completed_sendStep (i : Nat) : (sendStep s i).completed = s.completed := by
  unfold sendStep
  split
  · rfl
  · rename_i w hworker
    split
    · split_ifs
      · exact flatMap_set_eq (fun w => w.loop.completed) (b := { w with sent := true }) hworker rfl
      · rfl
    · rfl

theorem workers_receiveStep : (receiveStep zero s).workers = s.workers := by
  unfold receiveStep
  dsimp only
  split
  · rfl
  · split <;> first | rfl | (split <;> rfl)

theorem workers_giveUpStep : (giveUpStep zero s).workers = s.workers := by
  unfold giveUpStep
  split
  · rfl
  · split <;> rfl

theorem workers_consumeStep (now : Int64) : (consumeStep s now).workers = s.workers := by
  unfold consumeStep
  split
  · split
    · rfl
    · dsimp only
      split_ifs <;> rfl
  · rfl

theorem recording_journals (hbreaker : policy.breaker = true) :
    (recording outside policy zero).Journals (fun _ => True) System.completed (some ∘ Completion.record) := by
  refine fun s e _ => ⟨trivial, ?_⟩
  simp only [recording, hedging, recorded]
  by_cases hcrashed : s.crashed = true
  · simp only [if_pos hcrashed]
    cases e <;> exact silent rfl _
  · simp only [if_neg hcrashed]
    cases e with
    | worker i input =>
      dsimp only
      cases hworker : s.workers[i]? with
      | none =>
        simp only [workerStep, hworker]
        exact silent rfl _
      | some w => exact workerStep_journals s hbreaker hworker input
    | send i => exact silent (completed_sendStep s i) _
    | enter =>
      dsimp only
      split <;> exact silent rfl _
    | delay =>
      dsimp only
      split <;> exact silent rfl _
    | cancel err => exact silent rfl _
    | receive => exact silent (congrArg (flatMap _) (workers_receiveStep s)) _
    | timeout =>
      dsimp only
      split
      · split_ifs <;> exact silent rfl _
      · exact silent rfl _
    | giveUp => exact silent (congrArg (flatMap _) (workers_giveUpStep s)) _
    | consume now => exact silent (congrArg (flatMap _) (workers_consumeStep s now)) _
    | launch =>
      dsimp only
      split
      · refine silent ?_ _
        simp [System.completed, completed_newLoop]
      · exact silent rfl _
    | others now => exact silent rfl _

end Hedging

def execution (outside : Float64 → Int64) (policy : Retry.RetryPolicy Err) (zero : T) (hedgeDelay : Int64)
    (bucket : Option (HedgeConfig × HedgeBucket)) :
    Execution (Retry.Loop T Err ⊕ Hedging.System T Err) (Retry.LoopInput T Err ⊕ Hedging.Event T Err) where
  start := if 0 < hedgeDelay then .inr (Hedging.executeWithHedging policy zero bucket)
    else .inl (Retry.newLoop policy zero)
  work := either (Retry.loop outside policy zero) (Hedging.recording outside policy zero)
  completed := Sum.elim Retry.Loop.completed Hedging.System.completed

theorem execution_accounts {outside : Float64 → Int64} {policy : Retry.RetryPolicy Err} {zero : T}
    {hedgeDelay : Int64} {bucket : Option (HedgeConfig × HedgeBucket)} (hbreaker : policy.breaker = true) :
    (execution outside policy zero hedgeDelay bucket).Accounts (some ∘ Completion.record) where
  empty := by
    unfold execution
    dsimp only
    split_ifs
    · simp [Hedging.System.completed, Hedging.executeWithHedging, completed_newLoop]
    · exact completed_newLoop policy zero
  journals := by
    refine ⟨Sum.elim (fun _ => True) (fun _ => True), ?_,
      (loop_journals outside zero hbreaker).either (Hedging.recording_journals hbreaker)⟩
    cases (execution outside policy zero hedgeDelay bucket).start <;> trivial

end Go

section
open PortRetry PortHedging
variable {ω κ : Type}

theorem PortRetry.loop_journals {policy : LoopPolicy B Err} (hbreaker : policy.breaker = true) :
    (loop policy : Machine (Loop B T Err) (LoopInput T Err) _).Journals (fun _ => True) Loop.completed
      Completion.report := by
  refine fun l input _ => ⟨trivial, ?_⟩
  obtain ⟨new, hnew, hanswer⟩ := (loop_cases policy l input).completed hbreaker
  exact ⟨new, Perm.of_eq hnew, hanswer⟩

theorem PortRetry.completed_newLoop (policy : LoopPolicy B Err) : (newLoop policy : Loop B T Err).completed = [] := by
  unfold newLoop
  split_ifs
  all_goals rfl

namespace PortHedging

def System.completed (completed : ω → List Completion) (s : System ω T Err) : List Completion :=
  s.attempts.flatMap completed

variable {a : Attempt ω κ T Err} {completed : ω → List Completion} {tell : Completion → Option Recorded}

theorem completed_launch (hstart : completed a.start = []) (s : System ω T Err) :
    (s.launch a).completed completed = s.completed completed := by
  simp [System.completed, System.launch, hstart]

theorem hedging_journals (hwork : a.work.Journals (fun _ => True) completed tell) (hstart : completed a.start = [])
    (returnsEarly bucket : Bool) :
    (hedging a returnsEarly bucket).Journals (fun _ => True) (System.completed completed) tell := by
  refine fun s e _ => ⟨trivial, ?_⟩
  cases e with
  | work i input =>
    simp only [hedging, next, recorded]
    cases hattempt : s.attempts[i]? with
    | none => exact silent rfl _
    | some w =>
      obtain ⟨-, new, hnew, hanswer⟩ := hwork w input trivial
      exact ⟨new, flatMap_set_perm completed hattempt hnew, hanswer⟩
  | receive =>
    simp only [hedging, next]
    split
    · exact silent rfl _
    · cases s.main.receive returnsEarly _ <;> exact silent rfl _
  | timeout =>
    simp only [hedging, next]
    split <;> exact silent rfl _
  | consume answer =>
    simp only [hedging, next]
    split
    · split_ifs
      · exact silent (completed_launch hstart _) _
      · exact silent rfl _
    · exact silent rfl _

theorem completed_newSystem (hstart : completed a.start = []) : (newSystem a).completed completed = [] :=
  completed_launch hstart _

end PortHedging

namespace Rust

def Call.completed : Call T → List Completion
  | .running => []
  | .finished (.ok _) => [.succeeded]
  | .finished (.error _) => [.failed]
  | .panicked => [.interrupted]

theorem spawnedCall_journals : (spawnedCall (T := T)).Journals (fun _ => True) Call.completed fun _ => none := by
  refine fun c input _ => ⟨trivial, ?_⟩
  cases c with
  | running =>
    cases input with
    | returns outcome =>
      cases outcome with
      | ok value => exact ⟨some .succeeded, .refl _, rfl⟩
      | error err => exact ⟨some .failed, .refl _, rfl⟩
    | panics => exact ⟨some .interrupted, .refl _, rfl⟩
  | finished outcome => exact silent rfl _
  | panicked => exact silent rfl _

variable (policy : RetryPolicy B)

def execution : Execution (Loop B T Text ⊕ System (Call T) T Text)
    (LoopInput T Text ⊕ PortHedging.Event (CallInput T)) where
  start := if policy.hedgeDelay then .inr (newSystem (attempt T)) else .inl (newLoop policy.loopPolicy)
  work := either (loop policy.loopPolicy) (executeWithHedging policy)
  completed := Sum.elim Loop.completed (System.completed Call.completed)

def tells (completion : Completion) : Option Recorded := if policy.hedgeDelay then none else completion.report

theorem execution_accounts (hbreaker : policy.breaker = true) :
    (execution policy : Execution (Loop B T Text ⊕ _) _).Accounts (tells policy) := by
  unfold execution tells
  cases policy.hedgeDelay with
  | true =>
    refine ⟨completed_newSystem rfl, Sum.elim (fun _ => False) (fun _ => True), trivial, ?_⟩
    exact Machine.Journals.either (fun _ _ hno => hno.elim) (hedging_journals spawnedCall_journals rfl _ _)
  | false =>
    refine ⟨completed_newLoop _, Sum.elim (fun _ => True) (fun _ => False), trivial, ?_⟩
    exact (loop_journals hbreaker).either fun _ _ hno => hno.elim

end Rust

namespace Python

variable (policy : RetryPolicy B Exc)

def execution : Execution (Loop B T Exc ⊕ System (Loop B T Exc) T Exc)
    (LoopInput T Exc ⊕ PortHedging.Event (LoopInput T Exc))
    where
  start := if policy.hedgeDelay then .inr (newSystem (runAttempt policy T)) else .inl (newLoop policy.loopPolicy)
  work := either (loop policy.loopPolicy) (executeWithHedging policy)
  completed := Sum.elim Loop.completed (System.completed Loop.completed)

theorem execution_accounts (hbreaker : policy.breaker = true) :
    (execution policy : Execution (Loop B T Exc ⊕ _) _).Accounts Completion.report where
  empty := by
    unfold execution
    dsimp only
    split_ifs
    · exact completed_newSystem (completed_newLoop _)
    · exact completed_newLoop _
  journals := by
    refine ⟨Sum.elim (fun _ => True) (fun _ => True), ?_,
      (loop_journals hbreaker).either (hedging_journals (loop_journals hbreaker) (completed_newLoop _) _ _)⟩
    cases (execution policy : Execution (Loop B T Exc ⊕ _) _).start <;> trivial

end Python
end

end HelixRpc.Runtime
