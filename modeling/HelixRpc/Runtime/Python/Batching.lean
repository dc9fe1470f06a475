import HelixRpc.Foundation.Quiescence
import HelixRpc.Runtime.Go.Router

/-!
# The batch scheduler of the Python runtime

Model of `BatchScheduler` (`runtimes/python/helix_rt/batching.py`).
-/

namespace HelixRpc.Runtime.Python.Batching

open Foundation Runtime.Go
variable {Req Resp Exc : Type}

structure BatchRequest (Req : Type) where
  caller : Nat
  req : Req

inductive BatchError (Exc : Type) where
  | raised (exc : Exc)
  | valueError (message : Text)

abbrev Answer (Resp Exc : Type) := Except (BatchError Exc) Resp

inductive Future (Resp Exc : Type) where
  | pending
  | set (answer : Answer Resp Exc)
  | cancelled

inductive InvokePoint (Resp Exc : Type) where
  | atLock
  | awaiting
  | returned (answer : Answer Resp Exc)
  | dropped
  | cancelled

structure Caller (Req Resp Exc : Type) where
  req : Req
  future : Future Resp Exc
  point : InvokePoint Resp Exc

inductive TaskPoint (Req : Type) where
  | sleeping
  | atLock
  | processing (batch : List (BatchRequest Req))
  | ended

def TaskPoint.Pending : TaskPoint Req → Prop
  | .sleeping => True
  | .atLock => True
  | _ => False

def TaskPoint.batch : TaskPoint Req → Option (List (BatchRequest Req))
  | .processing batch => some batch
  | _ => none

def batchAnswers (requests : Nat) : Except Exc (List Resp) → List (Answer Resp Exc)
  | .error exc => List.replicate requests (.error (.raised exc))
  | .ok resps =>
    if resps.length ≠ requests then
      List.replicate requests
        (.error (.valueError "Batch Handler returned mismatched response list length".toList))
    else resps.map .ok

structure Flush (Req Resp Exc : Type) where
  batch : List (BatchRequest Req)
  outcome : Except Exc (List Resp)

def Flush.replies (f : Flush Req Resp Exc) : List (Nat × Answer Resp Exc) :=
  (f.batch.map BatchRequest.caller).zip (batchAnswers f.batch.length f.outcome)

/-- All parties, with what was queued, the batches that were taken, what the handler has done, and what futures
were set to. -/
structure Scheduler (Req Resp Exc : Type) where
  queue : List (BatchRequest Req)
  timerTask : Option Nat
  tasks : List (TaskPoint Req)
  callers : List (Caller Req Resp Exc)
  queued : List (BatchRequest Req)
  taken : List (List (BatchRequest Req))
  finished : List (Flush Req Resp Exc)
  settled : List (Nat × Answer Resp Exc)

def newScheduler : Scheduler Req Resp Exc := ⟨[], none, [], [], [], [], [], []⟩

inductive Event (Req Resp Exc : Type) where
  | invoke (req : Req)
  | cancel (i : Nat)
  | enter (i : Nat)
  | wake (t : Nat)
  | expire (t : Nat)
  | handled (t : Nat) (outcome : Except Exc (List Resp))
  | resume (i : Nat)

def Event.Internal : Event Req Resp Exc → Prop
  | .invoke _ => False
  | .cancel _ => False
  | _ => True

/-- `if not br.future.done()`, with the future then set: the callers, and what futures were set to. -/
def settle (futures : List (Caller Req Resp Exc) × List (Nat × Answer Resp Exc)) (reply : Nat × Answer Resp Exc) :
    List (Caller Req Resp Exc) × List (Nat × Answer Resp Exc) :=
  match futures.1[reply.1]? with
  | none => futures
  | some c =>
    match c.future with
    | .pending => (futures.1.set reply.1 { c with future := .set reply.2 }, futures.2 ++ [reply])
    | _ => futures

namespace Scheduler

variable (maxSize : Nat) (s : Scheduler Req Resp Exc)

def setCaller (i : Nat) (c : Caller Req Resp Exc) : Scheduler Req Resp Exc := { s with callers := s.callers.set i c }

def cancelTimer : List (TaskPoint Req) :=
  match s.timerTask with
  | none => s.tasks
  | some t =>
    match s.tasks[t]? with
    | some .ended => s.tasks
    | _ => s.tasks.set t .ended

def enqueue (i : Nat) (c : Caller Req Resp Exc) : Scheduler Req Resp Exc :=
  { s.setCaller i { c with point := .awaiting } with
    queue := s.queue ++ [⟨i, c.req⟩]
    queued := s.queued ++ [⟨i, c.req⟩] }

def dispatch : Scheduler Req Resp Exc :=
  if maxSize ≤ s.queue.length then
    { s with
      queue := []
      tasks := s.cancelTimer ++ [.processing s.queue]
      taken := s.taken ++ [s.queue] }
  else if s.queue.length = 1 then
    { s with timerTask := some s.tasks.length, tasks := s.tasks ++ [.sleeping] }
  else s

def enter (i : Nat) : Option (Scheduler Req Resp Exc) := s.callers[i]?.bind fun c =>
    match c.point with
    | .atLock => some ((s.enqueue i c).dispatch maxSize)
    | _ => none

def wake (t : Nat) : Option (Scheduler Req Resp Exc) :=
  match s.tasks[t]? with
  | some .sleeping => some { s with tasks := s.tasks.set t .atLock }
  | _ => none

def expire (t : Nat) : Option (Scheduler Req Resp Exc) :=
  match s.tasks[t]? with
  | some .atLock =>
    if s.queue.isEmpty then some { s with tasks := s.tasks.set t .ended }
    else
      some
        { s with
          queue := []
          tasks := s.tasks.set t (.processing s.queue)
          taken := s.taken ++ [s.queue] }
  | _ => none

def handled (t : Nat) (outcome : Except Exc (List Resp)) : Option (Scheduler Req Resp Exc) :=
  match s.tasks[t]? with
  | some (.processing batch) =>
    let f : Flush Req Resp Exc := ⟨batch, outcome⟩
    let futures := f.replies.foldl settle (s.callers, s.settled)
    some
      { s with
        tasks := s.tasks.set t .ended
        callers := futures.1
        finished := s.finished ++ [f]
        settled := futures.2 }
  | _ => none

def resume (i : Nat) : Option (Scheduler Req Resp Exc) := s.callers[i]?.bind fun c =>
    match c.point, c.future with
    | .awaiting, .set answer => some (s.setCaller i { c with point := .returned answer })
    | _, _ => none

/-- The task of a caller is cancelled, and with it the future that it awaits, unless that is done. -/
def cancel (i : Nat) : Option (Scheduler Req Resp Exc) := s.callers[i]?.bind fun c =>
    match c.point, c.future with
    | .atLock, _ => some (s.setCaller i { c with point := .dropped })
    | .awaiting, .pending => some (s.setCaller i { c with future := .cancelled, point := .cancelled })
    | .awaiting, _ => some (s.setCaller i { c with point := .cancelled })
    | _, _ => none

def invoke (req : Req) : Scheduler Req Resp Exc := { s with callers := s.callers ++ [⟨req, .pending, .atLock⟩] }

def next : Event Req Resp Exc → Option (Scheduler Req Resp Exc)
  | .invoke req => some (s.invoke req)
  | .cancel i => s.cancel i
  | .enter i => s.enter maxSize i
  | .wake t => s.wake t
  | .expire t => s.expire t
  | .handled t outcome => s.handled t outcome
  | .resume i => s.resume i

end Scheduler

def batching (maxSize : Nat) : Machine (Scheduler Req Resp Exc) (Event Req Resp Exc) Unit :=
  Machine.guarded (Scheduler.next maxSize)

section
variable (maxSize : Nat)

inductive Arrival (s : Scheduler Req Resp Exc) : Scheduler Req Resp Exc → Prop where
  | invoke (req : Req) : Arrival s (s.invoke req)
  | drop {i : Nat} {c : Caller Req Resp Exc} (hcaller : s.callers[i]? = some c) (hpoint : c.point = .atLock) :
      Arrival s (s.setCaller i { c with point := .dropped })
  | cancelFuture {i : Nat} {c : Caller Req Resp Exc} (hcaller : s.callers[i]? = some c)
      (hpoint : c.point = .awaiting) (hfuture : c.future = .pending) :
      Arrival s (s.setCaller i { c with future := .cancelled, point := .cancelled })
  | cancel {i : Nat} {c : Caller Req Resp Exc} (hcaller : s.callers[i]? = some c)
      (hpoint : c.point = .awaiting) (hfuture : c.future ≠ .pending) :
      Arrival s (s.setCaller i { c with point := .cancelled })

inductive Move (s : Scheduler Req Resp Exc) : Scheduler Req Resp Exc → Prop where
  | full {i : Nat} {c : Caller Req Resp Exc} (hcaller : s.callers[i]? = some c) (hpoint : c.point = .atLock)
      (hfull : maxSize ≤ s.queue.length + 1) :
      Move s
        { s.enqueue i c with
          queue := []
          tasks := s.cancelTimer ++ [.processing (s.queue ++ [⟨i, c.req⟩])]
          taken := s.taken ++ [s.queue ++ [⟨i, c.req⟩]] }
  | first {i : Nat} {c : Caller Req Resp Exc} (hcaller : s.callers[i]? = some c) (hpoint : c.point = .atLock)
      (hroom : s.queue.length + 1 < maxSize) (hqueue : s.queue = []) :
      Move s
        { s.enqueue i c with timerTask := some s.tasks.length, tasks := s.tasks ++ [.sleeping] }
  | more {i : Nat} {c : Caller Req Resp Exc} (hcaller : s.callers[i]? = some c) (hpoint : c.point = .atLock)
      (hroom : s.queue.length + 1 < maxSize) (hqueue : s.queue ≠ []) : Move s (s.enqueue i c)
  | wake {t : Nat} (htask : s.tasks[t]? = some .sleeping) : Move s { s with tasks := s.tasks.set t .atLock }
  | nothing {t : Nat} (htask : s.tasks[t]? = some .atLock) (hqueue : s.queue = []) :
      Move s { s with tasks := s.tasks.set t .ended }
  | take {t : Nat} (htask : s.tasks[t]? = some .atLock) (hqueue : s.queue ≠ []) : Move s
        { s with
          queue := []
          tasks := s.tasks.set t (.processing s.queue)
          taken := s.taken ++ [s.queue] }
  | handled {t : Nat} {batch : List (BatchRequest Req)} (outcome : Except Exc (List Resp))
      (htask : s.tasks[t]? = some (.processing batch)) :
      Move s
        { s with
          tasks := s.tasks.set t .ended
          callers := ((Flush.replies ⟨batch, outcome⟩).foldl settle (s.callers, s.settled)).1
          finished := s.finished ++ [⟨batch, outcome⟩]
          settled := ((Flush.replies ⟨batch, outcome⟩).foldl settle (s.callers, s.settled)).2 }
  | resume {i : Nat} {c : Caller Req Resp Exc} {answer : Answer Resp Exc} (hcaller : s.callers[i]? = some c)
      (hpoint : c.point = .awaiting) (hfuture : c.future = .set answer) :
      Move s (s.setCaller i { c with point := .returned answer })

variable {maxSize} {s s' : Scheduler Req Resp Exc} {e : Event Req Resp Exc}

theorem move_of_enter {i : Nat} {c : Caller Req Resp Exc} (hcaller : s.callers[i]? = some c)
    (hpoint : c.point = .atLock) : Move maxSize s ((s.enqueue i c).dispatch maxSize) := by
  have hlength : (s.enqueue i c).queue.length = s.queue.length + 1 := by simp [Scheduler.enqueue]
  unfold Scheduler.dispatch
  rw [hlength]
  split_ifs with hfull hfirst
  · exact .full hcaller hpoint hfull
  · exact .first hcaller hpoint (Nat.lt_of_not_le hfull) (List.length_eq_zero_iff.1 (by omega))
  · refine .more hcaller hpoint (Nat.lt_of_not_le hfull) fun hqueue => hfirst ?_
    rw [hqueue]
    rfl

theorem move_of_next (he : e.Internal) (h : s.next maxSize e = some s') : Move maxSize s s' := by
  cases e with
  | invoke => exact he.elim
  | cancel => exact he.elim
  | enter i =>
    obtain ⟨c, hcaller, h⟩ := Option.bind_eq_some_iff.1 h
    split at h
    · rename_i hpoint
      cases h
      exact move_of_enter hcaller hpoint
    · cases h
  | wake t =>
    simp only [Scheduler.next, Scheduler.wake] at h
    split at h
    · rename_i htask
      cases h
      exact .wake htask
    · cases h
  | expire t =>
    simp only [Scheduler.next, Scheduler.expire] at h
    split at h
    · rename_i htask
      split_ifs at h with hempty
      · cases h
        exact .nothing htask (List.isEmpty_iff.1 hempty)
      · cases h
        exact .take htask fun hqueue => hempty (List.isEmpty_iff.2 hqueue)
    · cases h
  | handled t outcome =>
    simp only [Scheduler.next, Scheduler.handled] at h
    split at h
    · rename_i htask
      cases h
      exact .handled outcome htask
    · cases h
  | resume i =>
    obtain ⟨c, hcaller, h⟩ := Option.bind_eq_some_iff.1 h
    split at h
    · rename_i hpoint hfuture
      cases h
      exact .resume hcaller hpoint hfuture
    · cases h

theorem arrival_of_next (he : ¬ e.Internal) (h : s.next maxSize e = some s') : Arrival s s' := by
  cases e with
  | invoke req =>
    cases h
    exact .invoke req
  | cancel i =>
    obtain ⟨c, hcaller, h⟩ := Option.bind_eq_some_iff.1 h
    split at h
    · rename_i hpoint
      cases h
      exact .drop hcaller hpoint
    · rename_i hpoint hfuture
      cases h
      exact .cancelFuture hcaller hpoint hfuture
    · rename_i hpoint hfuture
      cases h
      exact .cancel hcaller hpoint hfuture
    · cases h
  | _ => exact absurd trivial he
end

end HelixRpc.Runtime.Python.Batching
