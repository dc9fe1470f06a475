import HelixRpc.Foundation.Quiescence
import HelixRpc.Runtime.Go.Router
import Mathlib.Data.List.Nodup
import Mathlib.Logic.Relation

/-!
# The batch scheduler of the Go runtime

Model of `BatchScheduler` (`runtimes/go/batching.go`).
-/

namespace HelixRpc.Runtime.Go.Batching

open Foundation Option
variable {Req Resp : Type}

structure BatchRequest (Req : Type) where
  caller : Nat
  req : Req

structure BatchResponse (Resp : Type) where
  resp : Option Resp
  err : Option Text

inductive InvokePoint (Resp : Type) where
  | sending
  | waiting
  | answered (res : BatchResponse Resp)
  | gaveUp (err : Text)

structure Caller (Req Resp : Type) where
  req : Req
  ctxErr : Option Text
  point : InvokePoint Resp
  respCh : Option (BatchResponse Resp)

structure Timer where
  armed : Bool
  firing : Nat
  tick : Bool

namespace Timer

def stopAndDrain (t : Timer) : Timer :=
  if t.armed then { t with armed := false } else { t with tick := false }

def reset (t : Timer) : Timer := { t with armed := true }

end Timer

def newTimer : Timer := ⟨true, 0, false⟩

def startTimer : Option Timer → Timer
  | none => newTimer
  | some t => t.stopAndDrain.reset

inductive RunPoint (Resp : Type) where
  | receive
  | select
  | handler
  | replies (left : List (Nat × BatchResponse Resp))

def RunPoint.left : RunPoint Resp → List (Nat × BatchResponse Resp)
  | .replies left => left
  | _ => []

def mismatch (responses requests : Nat) : Text :=
  "batch handler returned ".toList ++ Nat.toDigits 10 responses ++ " responses for ".toList ++
    Nat.toDigits 10 requests ++ " requests".toList

def flushReplies (requests : Nat) (resps : List Resp) : Option Text → List (BatchResponse Resp)
  | some err => List.replicate requests ⟨none, some err⟩
  | none =>
    if resps.length ≠ requests then List.replicate requests ⟨none, some (mismatch resps.length requests)⟩
    else resps.map fun resp => ⟨some resp, none⟩

structure Flush (Req Resp : Type) where
  batch : List (BatchRequest Req)
  resps : List Resp
  err : Option Text

def Flush.replies (f : Flush Req Resp) : List (Nat × BatchResponse Resp) :=
  (f.batch.map BatchRequest.caller).zip (flushReplies f.batch.length f.resps f.err)

structure Scheduler (Req Resp : Type) where
  reqCh : List (BatchRequest Req)
  point : RunPoint Resp
  batch : List (BatchRequest Req)
  timer : Option Timer
  timerChan : Bool
  callers : List (Caller Req Resp)
  accepted : List (BatchRequest Req)
  flushes : List (Flush Req Resp)
  sent : List (Nat × BatchResponse Resp)

def newBatchScheduler : Scheduler Req Resp := ⟨[], .receive, [], none, false, [], [], [], []⟩

inductive Event (Req Resp : Type) where
  | invoke (req : Req)
  | cancel (i : Nat) (err : Text)
  | send (i : Nat)
  | handOff (i : Nat)
  | receive
  | expire
  | deliver
  | tick
  | handled (resps : List Resp) (err : Option Text)
  | reply
  | take (i : Nat)
  | giveUp (i : Nat)

def Event.Internal : Event Req Resp → Prop
  | .invoke _ => False
  | .cancel _ _ => False
  | _ => True

namespace Scheduler

section
variable (maxBatchSize : Nat) (s : Scheduler Req Resp)

def capacity : Nat := maxBatchSize * 100

variable (i : Nat)

def setCaller (c : Caller Req Resp) : Scheduler Req Resp := { s with callers := s.callers.set i c }

def accept (c : Caller Req Resp) : Scheduler Req Resp := { s.setCaller i { c with point := .waiting } with
    reqCh := s.reqCh ++ [⟨i, c.req⟩]
    accepted := s.accepted ++ [⟨i, c.req⟩] }

def flushPoint : RunPoint Resp := if s.batch.isEmpty then .receive else .handler

def appended : Scheduler Req Resp :=
  if maxBatchSize ≤ s.batch.length then { s with point := s.flushPoint } else { s with point := .select }

def receive : Option (Scheduler Req Resp) :=
  match s.point, s.reqCh with
  | .receive, br :: rest =>
    some (appended maxBatchSize
      { s with
        reqCh := rest
        batch := s.batch ++ [br]
        timer := some (startTimer s.timer)
        timerChan := true })
  | .select, br :: rest => some (appended maxBatchSize { s with reqCh := rest, batch := s.batch ++ [br] })
  | _, _ => none

def endFlush : Scheduler Req Resp := { s with
    point := .receive
    batch := []
    timer := s.timer.map Timer.stopAndDrain
    timerChan := if s.timer.isSome then false else s.timerChan }

def replying : List (Nat × BatchResponse Resp) → Scheduler Req Resp
  | [] => s.endFlush
  | left => { s with point := .replies left }

def send : Option (Scheduler Req Resp) := s.callers[i]?.bind fun c =>
    match c.point with
    | .sending => if s.reqCh.length < capacity maxBatchSize then some (s.accept i c) else none
    | _ => none

def handOff : Option (Scheduler Req Resp) := s.callers[i]?.bind fun c =>
    match c.point with
    | .sending => if capacity maxBatchSize = 0 then (s.accept i c).receive maxBatchSize else none
    | _ => none

def expire : Option (Scheduler Req Resp) := s.timer.bind fun t =>
    if t.armed then some { s with timer := some { t with armed := false, firing := t.firing + 1 } } else none

def deliver : Option (Scheduler Req Resp) := s.timer.bind fun t =>
    if 0 < t.firing then some { s with timer := some { t with firing := t.firing - 1, tick := true } } else none

def tick : Option (Scheduler Req Resp) :=
  match s.point, s.timer with
  | .select, some t =>
    if s.timerChan && t.tick then
      some { s with timer := some { t with tick := false }, point := s.flushPoint }
    else none
  | _, _ => none

def handled (resps : List Resp) (err : Option Text) : Option (Scheduler Req Resp) :=
  match s.point with
  | .handler =>
    let f : Flush Req Resp := ⟨s.batch, resps, err⟩
    some (replying { s with flushes := s.flushes ++ [f] } f.replies)
  | _ => none

def reply : Option (Scheduler Req Resp) :=
  match s.point with
  | .replies ((i, res) :: left) =>
    s.callers[i]?.bind fun c =>
      match c.respCh with
      | none =>
        some (replying { s.setCaller i { c with respCh := some res } with sent := s.sent ++ [(i, res)] } left)
      | some _ => none
  | _ => none

def take : Option (Scheduler Req Resp) := s.callers[i]?.bind fun c =>
    match c.point, c.respCh with
    | .waiting, some res => some (s.setCaller i { c with point := .answered res, respCh := none })
    | _, _ => none

def giveUp : Option (Scheduler Req Resp) := s.callers[i]?.bind fun c =>
    match c.point, c.ctxErr with
    | .waiting, some err => some (s.setCaller i { c with point := .gaveUp err })
    | _, _ => none

def cancel (err : Text) : Option (Scheduler Req Resp) :=
  s.callers[i]?.map fun c => s.setCaller i { c with ctxErr := c.ctxErr.or (some err) }

def invoke (req : Req) : Scheduler Req Resp := { s with callers := s.callers ++ [⟨req, none, .sending, none⟩] }

def next : Event Req Resp → Option (Scheduler Req Resp)
  | .invoke req => some (s.invoke req)
  | .cancel i err => s.cancel i err
  | .send i => s.send maxBatchSize i
  | .handOff i => s.handOff maxBatchSize i
  | .receive => s.receive maxBatchSize
  | .expire => s.expire
  | .deliver => s.deliver
  | .tick => s.tick
  | .handled resps err => s.handled resps err
  | .reply => s.reply
  | .take i => s.take i
  | .giveUp i => s.giveUp i
end

end Scheduler

def batching (maxBatchSize : Nat) : Machine (Scheduler Req Resp) (Event Req Resp) Unit :=
  Machine.guarded (Scheduler.next maxBatchSize)

section
variable (maxBatchSize : Nat)

inductive Appended (batch : List (BatchRequest Req)) : RunPoint Resp → Prop where
  | full (h : maxBatchSize ≤ batch.length) : Appended batch .handler
  | room (h : batch.length < maxBatchSize) : Appended batch .select

inductive Arrival (s : Scheduler Req Resp) : Scheduler Req Resp → Prop where
  | invoke (req : Req) : Arrival s (s.invoke req)
  | cancel {i : Nat} {c : Caller Req Resp} (err : Text) (hcaller : s.callers[i]? = some c) :
      Arrival s (s.setCaller i { c with ctxErr := c.ctxErr.or (some err) })

inductive Move (s : Scheduler Req Resp) : Scheduler Req Resp → Prop where
  | accept {i : Nat} {c : Caller Req Resp} (hcaller : s.callers[i]? = some c) (hpoint : c.point = .sending) :
      Move s (s.accept i c)
  | first {br : BatchRequest Req} {rest : List (BatchRequest Req)} {point : RunPoint Resp}
      (hreqCh : s.reqCh = br :: rest) (hpoint : s.point = .receive)
      (hnext : Appended maxBatchSize (s.batch ++ [br]) point) :
      Move s
        { s with
          reqCh := rest
          point := point
          batch := s.batch ++ [br]
          timer := some (startTimer s.timer)
          timerChan := true }
  | more {br : BatchRequest Req} {rest : List (BatchRequest Req)} {point : RunPoint Resp}
      (hreqCh : s.reqCh = br :: rest) (hpoint : s.point = .select)
      (hnext : Appended maxBatchSize (s.batch ++ [br]) point) :
      Move s { s with reqCh := rest, point := point, batch := s.batch ++ [br] }
  | expire {t : Timer} (htimer : s.timer = some t) (harmed : t.armed = true) :
      Move s { s with timer := some { t with armed := false, firing := t.firing + 1 } }
  | deliver {t : Timer} (htimer : s.timer = some t) (hfiring : 0 < t.firing) :
      Move s { s with timer := some { t with firing := t.firing - 1, tick := true } }
  | tick {t : Timer} (htimer : s.timer = some t) (hpoint : s.point = .select) :
      Move s { s with timer := some { t with tick := false }, point := s.flushPoint }
  | handled (resps : List Resp) (err : Option Text) (hpoint : s.point = .handler) : Move s
        (Scheduler.replying { s with flushes := s.flushes ++ [⟨s.batch, resps, err⟩] }
          (Flush.replies ⟨s.batch, resps, err⟩))
  | reply {i : Nat} {res : BatchResponse Resp} {left : List (Nat × BatchResponse Resp)}
      {c : Caller Req Resp} (hpoint : s.point = .replies ((i, res) :: left))
      (hcaller : s.callers[i]? = some c) (hroom : c.respCh = none) :
      Move s
        (Scheduler.replying { s.setCaller i { c with respCh := some res } with sent := s.sent ++ [(i, res)] } left)
  | take {i : Nat} {c : Caller Req Resp} {res : BatchResponse Resp} (hcaller : s.callers[i]? = some c)
      (hpoint : c.point = .waiting) (hres : c.respCh = some res) :
      Move s (s.setCaller i { c with point := .answered res, respCh := none })
  | giveUp {i : Nat} {c : Caller Req Resp} {err : Text} (hcaller : s.callers[i]? = some c)
      (hpoint : c.point = .waiting) (herr : c.ctxErr = some err) :
      Move s (s.setCaller i { c with point := .gaveUp err })

variable {maxBatchSize} {s s' : Scheduler Req Resp} {e : Event Req Resp}

theorem appended_eq (maxBatchSize : Nat) (s : Scheduler Req Resp) {batch : List (BatchRequest Req)}
    {br : BatchRequest Req} (h : s.batch = batch ++ [br]) : ∃ point, Appended maxBatchSize (batch ++ [br]) point ∧
    s.appended maxBatchSize = { s with point := point } := by
  unfold Scheduler.appended
  split_ifs with hfull
  · refine ⟨.handler, .full (h ▸ hfull), ?_⟩
    rw [Scheduler.flushPoint, h]
    simp
  · exact ⟨.select, .room (h ▸ Nat.lt_of_not_le hfull), rfl⟩

theorem move_of_receive (h : s.receive maxBatchSize = some s') : Move maxBatchSize s s' := by
  unfold Scheduler.receive at h
  split at h
  · rename_i br rest hpoint hreqCh
    cases h
    obtain ⟨point, hnext, heq⟩ := appended_eq maxBatchSize
      { s with reqCh := rest, batch := s.batch ++ [br], timer := some (startTimer s.timer), timerChan := true } rfl
    rw [heq]
    exact .first hreqCh hpoint hnext
  · rename_i br rest hpoint hreqCh
    cases h
    obtain ⟨point, hnext, heq⟩ := appended_eq maxBatchSize { s with reqCh := rest, batch := s.batch ++ [br] } rfl
    rw [heq]
    exact .more hreqCh hpoint hnext
  · cases h

theorem moves_of_next (he : e.Internal) (h : s.next maxBatchSize e = some s') :
    Relation.TransGen (Move maxBatchSize) s s' := by
  cases e with
  | invoke => exact he.elim
  | cancel => exact he.elim
  | send i =>
    obtain ⟨c, hcaller, h⟩ := bind_eq_some_iff.1 h
    split at h
    · rename_i hpoint
      split_ifs at h
      cases h
      exact .single (.accept hcaller hpoint)
    · cases h
  | handOff i =>
    -- the request is accepted and received in one step
    obtain ⟨c, hcaller, h⟩ := bind_eq_some_iff.1 h
    split at h
    · rename_i hpoint
      split_ifs at h
      exact .tail (.single (.accept hcaller hpoint)) (move_of_receive h)
    · cases h
  | receive => exact .single (move_of_receive h)
  | expire =>
    obtain ⟨t, htimer, h⟩ := bind_eq_some_iff.1 h
    split_ifs at h with harmed
    cases h
    exact .single (.expire htimer harmed)
  | deliver =>
    obtain ⟨t, htimer, h⟩ := bind_eq_some_iff.1 h
    split_ifs at h with hfiring
    cases h
    exact .single (.deliver htimer hfiring)
  | tick =>
    simp only [Scheduler.next, Scheduler.tick] at h
    split at h
    · rename_i t hpoint htimer
      split_ifs at h
      cases h
      exact .single (.tick htimer hpoint)
    · cases h
  | handled resps err =>
    simp only [Scheduler.next, Scheduler.handled] at h
    split at h
    · rename_i hpoint
      cases h
      exact .single (.handled resps err hpoint)
    · cases h
  | reply =>
    simp only [Scheduler.next, Scheduler.reply] at h
    split at h
    · rename_i hpoint
      obtain ⟨c, hcaller, h⟩ := bind_eq_some_iff.1 h
      split at h
      · rename_i hroom
        cases h
        exact .single (.reply hpoint hcaller hroom)
      · cases h
    · cases h
  | take i =>
    obtain ⟨c, hcaller, h⟩ := bind_eq_some_iff.1 h
    split at h
    · rename_i hpoint hres
      cases h
      exact .single (.take hcaller hpoint hres)
    · cases h
  | giveUp i =>
    obtain ⟨c, hcaller, h⟩ := bind_eq_some_iff.1 h
    split at h
    · rename_i hpoint herr
      cases h
      exact .single (.giveUp hcaller hpoint herr)
    · cases h

theorem arrival_of_next (he : ¬ e.Internal) (h : s.next maxBatchSize e = some s') : Arrival s s' := by
  cases e with
  | invoke req =>
    cases h
    exact .invoke req
  | cancel i err =>
    obtain ⟨c, hcaller, rfl⟩ := map_eq_some_iff.1 h
    exact .cancel err hcaller
  | _ => exact absurd trivial he
end

end HelixRpc.Runtime.Go.Batching
