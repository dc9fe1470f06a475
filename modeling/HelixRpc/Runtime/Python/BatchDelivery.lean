import HelixRpc.Foundation.Parties
import HelixRpc.Runtime.Python.Batching

/-!
# Delivery of batched requests in the Python runtime

What holds of the batch scheduler in all interleavings.
-/

namespace HelixRpc.Runtime.Python.Batching

open Foundation List Option Machine
variable {Req Resp Exc : Type} {maxSize i t : Nat} {s s' : Scheduler Req Resp Exc} {c c₀ : Caller Req Resp Exc}
  {p p₀ : TaskPoint Req} {tasks : List (TaskPoint Req)}

def Waits (tasks : List (TaskPoint Req)) (t : Nat) : Prop := ∃ p, tasks[t]? = some p ∧ p.Pending

theorem waits_iff (h : tasks[t]? = some p) : Waits tasks t ↔ p.Pending := by simp [Waits, h]

theorem waits_set (h : tasks[t]? = some p₀) (p : TaskPoint Req) (t' : Nat) :
    Waits (tasks.set t p) t' ↔ if t = t' then p.Pending else Waits tasks t' := by
  unfold Waits
  simp only [Parties.getElem?_set_some h]
  split_ifs with ht
  · simp
  · rfl

theorem waits_snoc (tasks : List (TaskPoint Req)) (p : TaskPoint Req) (t : Nat) :
    Waits (tasks ++ [p]) t ↔ Waits tasks t ∨ t = tasks.length ∧ p.Pending := by
  constructor
  · rintro ⟨p', htask, hpending⟩
    rcases Parties.getElem?_snoc_cases htask with hold | ⟨rfl, rfl⟩
    · exact .inl ⟨p', hold, hpending⟩
    · exact .inr ⟨rfl, hpending⟩
  · rintro (⟨p', htask, hpending⟩ | ⟨rfl, hpending⟩)
    · have hlt := (List.getElem?_eq_some_iff.1 htask).1
      exact ⟨p', (getElem?_append_left hlt).trans htask, hpending⟩
    · exact ⟨p, getElem?_concat_length, hpending⟩

structure Timers (maxSize : Nat) (s : Scheduler Req Resp Exc) : Prop where
  room : s.queue.length < maxSize
  timer : s.queue ≠ [] → s.timerTask ≠ none
  waits : ∀ t, Waits s.tasks t ↔ s.timerTask = some t ∧ s.queue ≠ []
  single : maxSize ≤ 1 → s.timerTask = none
  sizes : ∀ batch ∈ s.taken, batch.length ≤ maxSize

namespace Timers

variable (h : Timers maxSize s)
include h in
theorem cancelTimer_cases (hfull : maxSize ≤ s.queue.length + 1) : (s.queue = [] ∧ s.cancelTimer = s.tasks) ∨
      ∃ t p, s.timerTask = some t ∧ s.tasks[t]? = some p ∧ p.Pending ∧ s.cancelTimer = s.tasks.set t .ended := by
  unfold Scheduler.cancelTimer
  by_cases hqueue : s.queue = []
  · -- one request is enough, and then there are no timers
    rw [hqueue] at hfull
    rw [h.single hfull]
    exact .inl ⟨hqueue, rfl⟩
  · obtain ⟨t, htimer⟩ := ne_none_iff_exists'.1 (h.timer hqueue)
    obtain ⟨p, htask, hpending⟩ := (h.waits t).2 ⟨htimer, hqueue⟩
    refine .inr ⟨t, p, htimer, htask, hpending, ?_⟩
    rw [htimer]
    cases p with
    | sleeping => simp only [htask]
    | atLock => simp only [htask]
    | _ => exact hpending.elim

include h in
theorem not_waits_cancelTimer (hfull : maxSize ≤ s.queue.length + 1) (t : Nat) : ¬ Waits s.cancelTimer t := by
  rcases h.cancelTimer_cases hfull with ⟨hqueue, heq⟩ | ⟨t', p, htimer, htask, -, heq⟩
  · rw [heq, h.waits]
    exact fun hwaits => hwaits.2 hqueue
  · rw [heq, waits_set htask]
    split_ifs with ht
    · exact id
    · rw [h.waits, htimer]
      exact fun hwaits => ht (some.inj hwaits.1)

include h in
theorem sizes_snoc {batch : List (BatchRequest Req)} (hbatch : batch.length ≤ maxSize) :
    ∀ batch' ∈ s.taken ++ [batch], batch'.length ≤ maxSize := by
  intro batch' hmem
  rcases mem_append.1 hmem with hearlier | hlast
  · exact h.sizes batch' hearlier
  · rwa [mem_singleton.1 hlast]

include h in
theorem set (htask : s.tasks[t]? = some p₀) (hpending : p.Pending ↔ p₀.Pending) :
    Timers maxSize { s with tasks := s.tasks.set t p } := by
  refine ⟨h.room, h.timer, fun t' => ?_, h.single, h.sizes⟩
  rw [waits_set htask]
  split_ifs with ht
  · rw [hpending, ← waits_iff htask, ← ht]
    exact h.waits t
  · exact h.waits t'

include h in
theorem move (hsize : 1 ≤ maxSize) (hmove : Move maxSize s s') : Timers maxSize s' := by
  have hsome : ∀ br : BatchRequest Req, s.queue ++ [br] ≠ [] :=
    fun br => append_ne_nil_of_right_ne_nil _ (cons_ne_nil _ _)
  have hlength : ∀ br : BatchRequest Req, (s.queue ++ [br]).length = s.queue.length + 1 :=
    fun br => length_append
  cases hmove with
  | full hcaller hpoint hfull =>
    refine ⟨hsize, fun hqueue => absurd rfl hqueue, fun t => ?_, h.single, h.sizes_snoc ?_⟩
    · rw [waits_snoc]
      refine iff_of_false ?_ fun hqueue => hqueue.2 rfl
      rintro (hold | ⟨-, hnew⟩)
      · exact h.not_waits_cancelTimer hfull t hold
      · exact hnew
    · rw [hlength]
      exact h.room
  | first hcaller hpoint hroom hqueue =>
    refine ⟨?_, fun _ => nofun, fun t => ?_, fun hsmall => absurd hsmall (by omega), h.sizes⟩
    · exact lt_of_eq_of_lt (hlength _) hroom
    · rw [waits_snoc, h.waits]
      simp [hqueue, TaskPoint.Pending, Scheduler.enqueue, eq_comm]
  | more hcaller hpoint hroom hqueue =>
    refine ⟨lt_of_eq_of_lt (hlength _) hroom, fun _ => h.timer hqueue, fun t => ?_, h.single, h.sizes⟩
    exact (h.waits t).trans (and_congr_right fun _ => iff_of_true hqueue (hsome _))
  | wake htask => exact h.set htask Iff.rfl
  | @nothing t htask hqueue =>
    -- a timer is left only while there is a request in the queue
    exact absurd hqueue ((h.waits t).1 ⟨_, htask, trivial⟩).2
  | @take t htask hqueue =>
    refine ⟨hsize, fun hqueue => absurd rfl hqueue, fun t' => ?_, h.single, h.sizes_snoc (Nat.le_of_lt h.room)⟩
    have htimer := ((h.waits t).1 ⟨_, htask, trivial⟩).1
    refine iff_of_false ?_ fun hqueue => hqueue.2 rfl
    rw [waits_set htask]
    split_ifs with ht
    · exact id
    · rw [h.waits, htimer]
      exact fun hwaits => ht (some.inj hwaits.1)
  | handled outcome htask =>
    have hset := h.set htask (p := .ended) Iff.rfl
    exact ⟨hset.room, hset.timer, hset.waits, hset.single, hset.sizes⟩
  | resume hcaller hpoint hfuture => exact ⟨h.room, h.timer, h.waits, h.single, h.sizes⟩

end Timers

def Scheduler.processing (s : Scheduler Req Resp Exc) : List (List (BatchRequest Req)) :=
  s.tasks.filterMap TaskPoint.batch

/-- A request that was queued was taken, or is in the queue; and each batch that was taken is with one task, or is
finished. -/
structure Accounts (s : Scheduler Req Resp Exc) : Prop where
  order : s.queued = s.taken.flatten ++ s.queue
  batches : (s.processing ++ s.finished.map Flush.batch).Perm s.taken

def Caller.Queued (c : Caller Req Resp Exc) : Prop := c.point ≠ .atLock ∧ c.point ≠ .dropped

def Registered (callers : List (Caller Req Resp Exc)) (queued : List (BatchRequest Req)) : Prop :=
  Parties.Entered BatchRequest.caller (fun c br => c.req = br.req) Caller.Queued callers queued

@[simp] theorem length_batchAnswers (requests : Nat) (outcome : Except Exc (List Resp)) :
    (batchAnswers requests outcome).length = requests := by
  unfold batchAnswers
  split
  · exact length_replicate
  · split_ifs with h
    · exact length_replicate
    · rw [length_map]
      exact not_not.1 h

theorem map_fst_replies (f : Flush Req Resp Exc) : f.replies.map Prod.fst = f.batch.map BatchRequest.caller := by
  apply map_fst_zip
  simp

theorem Accounts.task (h : Accounts s) (htask : s.tasks[t]? = some p₀) (p : TaskPoint Req) :
    (p₀.batch.toList ++ ((s.tasks.set t p).filterMap TaskPoint.batch ++ s.finished.map Flush.batch)).Perm
      (p.batch.toList ++ s.taken) := by
  rw [← append_assoc]
  refine ((Parties.filterMap_set_perm TaskPoint.batch htask p).append_right _).trans ?_
  rw [append_assoc]
  exact h.batches.append_left _

theorem Timers.processing_cancelTimer (h : Timers maxSize s) (hfull : maxSize ≤ s.queue.length + 1) :
    (s.cancelTimer.filterMap TaskPoint.batch).Perm s.processing := by
  rcases h.cancelTimer_cases hfull with ⟨-, heq⟩ | ⟨t, p, -, htask, hpending, heq⟩
  · rw [heq]
    exact List.Perm.refl _
  · have hperm := Parties.filterMap_set_perm TaskPoint.batch htask .ended
    cases p with
    | sleeping => exact heq ▸ hperm
    | atLock => exact heq ▸ hperm
    | _ => exact hpending.elim

/-- A request goes from the queue into a batch, and the batch from its task to the ones that are
finished. -/
theorem Accounts.move (h : Accounts s) (htimers : Timers maxSize s) (hmove : Move maxSize s s') : Accounts s' := by
  have henqueue : ∀ br : BatchRequest Req, s.queued ++ [br] = s.taken.flatten ++ (s.queue ++ [br]) := by
    intro br
    rw [h.order, append_assoc]
  have htaken : ∀ batch : List (BatchRequest Req), (s.taken ++ [batch]).flatten ++ [] = s.taken.flatten ++ batch := by
    simp
  cases hmove with
  | full hcaller hpoint hfull =>
    refine ⟨(henqueue _).trans (htaken _).symm, ?_⟩
    change ((s.cancelTimer ++ [_]).filterMap TaskPoint.batch ++ s.finished.map Flush.batch).Perm _
    rw [filterMap_append, append_assoc]
    refine ((htimers.processing_cancelTimer hfull).append_right _).trans ?_
    refine Perm.trans ?_ (h.batches.append_right _)
    rw [append_assoc]
    exact perm_append_comm.append_left _
  | first hcaller hpoint hroom hqueue =>
    refine ⟨henqueue _, ?_⟩
    change ((s.tasks ++ [TaskPoint.sleeping]).filterMap TaskPoint.batch ++ s.finished.map Flush.batch).Perm s.taken
    rw [filterMap_append]
    exact (append_nil (s.tasks.filterMap TaskPoint.batch)).symm ▸ h.batches
  | more hcaller hpoint hroom hqueue => exact ⟨henqueue _, h.batches⟩
  | wake htask => exact ⟨h.order, h.task htask .atLock⟩
  | nothing htask hqueue => exact ⟨h.order, h.task htask .ended⟩
  | take htask hqueue =>
    exact ⟨h.order.trans (htaken _).symm, (h.task htask (.processing s.queue)).trans perm_append_comm⟩
  | @handled t batch outcome htask =>
    refine ⟨h.order, ?_⟩
    change ((s.tasks.set t .ended).filterMap TaskPoint.batch ++ (s.finished ++ [_]).map Flush.batch).Perm s.taken
    rw [map_append, ← append_assoc]
    exact perm_append_comm.trans (h.task htask .ended)
  | resume hcaller hpoint hfuture => exact ⟨h.order, h.batches⟩

theorem Accounts.queued_of_mem (h : Accounts s) {message : Nat × Answer Resp Exc}
    (hmem : message ∈ s.finished.flatMap Flush.replies) : message.1 ∈ s.queued.map BatchRequest.caller := by
  obtain ⟨f, hf, hreply⟩ := mem_flatMap.1 hmem
  have hcaller : message.1 ∈ f.batch.map BatchRequest.caller := by
    rw [← map_fst_replies]
    exact mem_map_of_mem hreply
  obtain ⟨br, hbr, hkey⟩ := mem_map.1 hcaller
  have htaken : f.batch ∈ s.taken := h.batches.subset (mem_append_right _ (mem_map_of_mem hf))
  rw [← hkey, h.order, map_append]
  exact mem_append_left _ (mem_map_of_mem (mem_flatten.2 ⟨f.batch, htaken, hbr⟩))

def Caller.got (c : Caller Req Resp Exc) : List (Answer Resp Exc) :=
  match c.future with
  | .set answer => [answer]
  | _ => []

/-- A caller that has not returned has a future that was not cancelled, and one that has returned has returned
its result. -/
def Caller.Consistent (c : Caller Req Resp Exc) : Prop :=
  match c.point with
  | .atLock => c.future ≠ .cancelled
  | .awaiting => c.future ≠ .cancelled
  | .returned answer => c.future = .set answer
  | _ => True

structure Mail (given : List (Nat × Answer Resp Exc))
    (futures : List (Caller Req Resp Exc) × List (Nat × Answer Resp Exc)) : Prop where
  got : Parties.Received Caller.got futures.1 futures.2
  consistent : ∀ c ∈ futures.1, c.Consistent
  replies : ∀ message ∈ futures.2, message ∈ given
  done : ∀ message ∈ given, ∀ c, futures.1[message.1]? = some c → c.future ≠ .pending

section
variable {callers : List (Caller Req Resp Exc)} {settled given : List (Nat × Answer Resp Exc)}
  {futures : List (Caller Req Resp Exc) × List (Nat × Answer Resp Exc)}

theorem settle_cases (futures : List (Caller Req Resp Exc) × List (Nat × Answer Resp Exc))
    (reply : Nat × Answer Resp Exc) : (settle futures reply = futures ∧ ∀ c, futures.1[reply.1]? = some c →
    c.future ≠ .pending) ∨ ∃ c, futures.1[reply.1]? = some c ∧ c.future = .pending ∧
    settle futures reply = (futures.1.set reply.1 { c with future := .set reply.2 }, futures.2 ++ [reply]) := by
  unfold settle
  cases hcaller : futures.1[reply.1]? with
  | none => exact .inl ⟨rfl, nofun⟩
  | some c =>
    dsimp only
    split
    · rename_i hfuture
      exact .inr ⟨c, rfl, hfuture, rfl⟩
    · rename_i hfuture
      exact .inl ⟨rfl, fun c' hc' => some.inj hc' ▸ hfuture⟩

theorem foldl_settle_keeps {P : List (Caller Req Resp Exc) × List (Nat × Answer Resp Exc) → Prop}
    (h : ∀ futures reply, P futures → P (settle futures reply)) (replies : List (Nat × Answer Resp Exc))
    (hfutures : P futures) : P (replies.foldl settle futures) :=
  foldlRecOn replies settle hfutures fun futures hs reply _ => h futures reply hs

theorem Mail.settle (h : Mail given futures) (reply : Nat × Answer Resp Exc) :
    Mail (given ++ [reply]) (settle futures reply) := by
  rcases settle_cases futures reply with ⟨hsame, hdone⟩ | ⟨c, hcaller, hfuture, hset⟩
  · rw [hsame]
    refine ⟨h.got, h.consistent, fun message hmem => mem_append_left _ (h.replies message hmem), ?_⟩
    intro message hmem
    rcases mem_append.1 hmem with hearlier | hlast
    · exact h.done message hearlier
    · rwa [mem_singleton.1 hlast]
  · rw [hset]
    refine ⟨h.got.post hcaller (by simp [Caller.got, hfuture]), fun c' hc' => ?_, fun message hmem => ?_,
      fun message hmem c' hc' => ?_⟩
    · rcases mem_or_eq_of_mem_set hc' with hother | rfl
      · exact h.consistent c' hother
      · -- a caller that has returned has no pending future
        have hold := h.consistent c (mem_of_getElem? hcaller)
        unfold Caller.Consistent at hold ⊢
        cases hpoint : c.point with
        | returned answer =>
          simp only [hpoint, hfuture] at hold
          cases hold
        | atLock => exact nofun
        | awaiting => exact nofun
        | _ => trivial
    · exact (mem_append.1 hmem).elim (fun hearlier => mem_append_left _ (h.replies message hearlier))
        (mem_append_right _)
    · rw [Parties.getElem?_set_some hcaller] at hc'
      split_ifs at hc' with hi
      · cases hc'
        exact nofun
      · rcases mem_append.1 hmem with hearlier | hlast
        · exact h.done message hearlier c' hc'
        · exact absurd (congrArg Prod.fst (mem_singleton.1 hlast)).symm hi

theorem Mail.foldl (h : Mail given futures) (replies : List (Nat × Answer Resp Exc)) :
    Mail (given ++ replies) (replies.foldl Batching.settle futures) := by
  induction replies generalizing given futures with
  | nil => rwa [append_nil]
  | cons reply replies ih =>
    have hlater := ih (h.settle reply)
    rwa [append_assoc] at hlater

theorem Mail.set (h : Mail given (callers, settled)) (hcaller : callers[i]? = some c₀) (hgot : c.got = c₀.got)
    (hconsistent : c.Consistent) (hpending : c.future = .pending → c₀.future = .pending) :
    Mail given (callers.set i c, settled) := by
  refine ⟨h.got.update hcaller hgot, fun c' hc' => ?_, h.replies, fun message hmem c' hc' => ?_⟩
  · rcases mem_or_eq_of_mem_set hc' with hother | rfl
    · exact h.consistent c' hother
    · exact hconsistent
  · rw [Parties.getElem?_set_some hcaller] at hc'
    split_ifs at hc' with hi
    · cases hc'
      exact fun hfuture => h.done message hmem c₀ (hi ▸ hcaller) (hpending hfuture)
    · exact h.done message hmem c' hc'
end

structure Inv (maxSize : Nat) (s : Scheduler Req Resp Exc) : Prop where
  timers : Timers maxSize s
  accounts : Accounts s
  registered : Registered s.callers s.queued
  mail : Mail (s.finished.flatMap Flush.replies) (s.callers, s.settled)

theorem inv_newScheduler (hsize : 1 ≤ maxSize) : Inv maxSize (newScheduler : Scheduler Req Resp Exc) :=
  ⟨⟨hsize, fun hqueue => absurd rfl hqueue, by simp [newScheduler, Waits], fun _ => rfl, nofun⟩,
    ⟨rfl, List.Perm.refl _⟩, Parties.entered_nil, ⟨Parties.received_nil, nofun, nofun, nofun⟩⟩

theorem Inv.arrival (h : Inv maxSize s) (harrival : Arrival s s') : Inv maxSize s' := by
  have htimers := h.timers
  have hset : ∀ {i : Nat} {c₀ c : Caller Req Resp Exc}, s.callers[i]? = some c₀ → c.req = c₀.req →
      (c.Queued ↔ c₀.Queued) → c.got = c₀.got → c.Consistent → (c.future = .pending → c₀.future = .pending) →
      Inv maxSize (s.setCaller i c) :=
    fun hcaller hreq hqueued hgot hconsistent hpending =>
      ⟨⟨htimers.room, htimers.timer, htimers.waits, htimers.single, htimers.sizes⟩,
        ⟨h.accounts.order, h.accounts.batches⟩, h.registered.update hcaller (fun _ hof => hreq.trans hof) hqueued,
        h.mail.set hcaller hgot hconsistent hpending⟩
  cases harrival with
  | invoke req =>
    -- nothing was set for a caller that was not there
    have hnew : ∀ message ∈ s.finished.flatMap Flush.replies, message.1 ≠ s.callers.length :=
      fun message hmem heq => h.registered.length_not_mem (heq ▸ h.accounts.queued_of_mem hmem)
    refine ⟨⟨htimers.room, htimers.timer, htimers.waits, htimers.single, htimers.sizes⟩,
      ⟨h.accounts.order, h.accounts.batches⟩, h.registered.arrive fun hqueued => hqueued.1 rfl,
      h.mail.got.arrive rfl fun hmem => ?_, fun c hc => ?_, h.mail.replies, fun message hmem c hc => ?_⟩
    · obtain ⟨message, hsettled, heq⟩ := mem_map.1 hmem
      exact hnew message (h.mail.replies message hsettled) heq
    · rcases mem_append.1 hc with hold | hlast
      · exact h.mail.consistent c hold
      · rw [mem_singleton.1 hlast]
        exact nofun
    · rcases Parties.getElem?_snoc_cases hc with hold | ⟨heq, -⟩
      · exact h.mail.done message hmem c hold
      · exact absurd heq (hnew message hmem)
  | drop hcaller hpoint => exact hset hcaller rfl (by simp [Caller.Queued, hpoint]) rfl trivial id
  | cancelFuture hcaller hpoint hfuture =>
    exact hset hcaller rfl (by simp [Caller.Queued, hpoint]) (by simp [Caller.got, hfuture]) trivial nofun
  | cancel hcaller hpoint hfuture => exact hset hcaller rfl (by simp [Caller.Queued, hpoint]) rfl trivial id

theorem Inv.enqueue (h : Inv maxSize s) (hcaller : s.callers[i]? = some c) (hpoint : c.point = .atLock) :
    Registered (s.enqueue i c).callers (s.enqueue i c).queued ∧
      Mail (s.finished.flatMap Flush.replies) ((s.enqueue i c).callers, s.settled) := by
  have hconsistent := h.mail.consistent c (mem_of_getElem? hcaller)
  simp only [Caller.Consistent, hpoint] at hconsistent
  exact ⟨h.registered.enter (b := ⟨i, c.req⟩) hcaller (fun hqueued => hqueued.1 hpoint) rfl ⟨nofun, nofun⟩,
    h.mail.set hcaller rfl hconsistent id⟩

theorem Inv.move (h : Inv maxSize s) (hsize : 1 ≤ maxSize) (hmove : Move maxSize s s') : Inv maxSize s' := by
  suffices hcallers : Registered s'.callers s'.queued ∧
      Mail (s'.finished.flatMap Flush.replies) (s'.callers, s'.settled) from
    ⟨h.timers.move hsize hmove, h.accounts.move h.timers hmove, hcallers.1, hcallers.2⟩
  cases hmove with
  | full hcaller hpoint hfull => exact h.enqueue hcaller hpoint
  | first hcaller hpoint hroom hqueue => exact h.enqueue hcaller hpoint
  | more hcaller hpoint hroom hqueue => exact h.enqueue hcaller hpoint
  | @handled t batch outcome htask =>
    constructor
    · refine foldl_settle_keeps (P := fun futures => Registered futures.1 s.queued)
        (fun futures reply hfutures => ?_) (Flush.replies ⟨batch, outcome⟩) h.registered
      rcases settle_cases futures reply with ⟨hsame, -⟩ | ⟨c, hcaller, -, hset⟩
      · rwa [hsame]
      · rw [hset]
        exact hfutures.update hcaller (fun _ => id) Iff.rfl
    · rw [flatMap_append, flatMap_singleton]
      exact h.mail.foldl _
  | resume hcaller hpoint hfuture =>
    exact ⟨h.registered.update hcaller (fun _ => id) (by simp [Caller.Queued, hpoint]),
      h.mail.set hcaller rfl hfuture id⟩
  | _ => exact ⟨h.registered, h.mail⟩

theorem Inv.next (h : Inv maxSize s) (hsize : 1 ≤ maxSize) {e : Event Req Resp Exc}
    (hnext : s.next maxSize e = some s') : Inv maxSize s' := by
  by_cases he : e.Internal
  · exact h.move hsize (move_of_next he hnext)
  · exact h.arrival (arrival_of_next he hnext)

def Caller.rank (c : Caller Req Resp Exc) : Nat :=
  match c.point with
  | .atLock => 5
  | .awaiting => 1
  | _ => 0

def TaskPoint.rank : TaskPoint Req → Nat
  | .sleeping => 3
  | .atLock => 2
  | .processing _ => 1
  | .ended => 0

def Scheduler.rank (s : Scheduler Req Resp Exc) : Nat :=
  (s.callers.map Caller.rank).sum + (s.tasks.map TaskPoint.rank).sum

theorem rank_enter (hcaller : s.callers[i]? = some c) (hpoint : c.point = .atLock)
    (hcallers : s'.callers = s.callers.set i { c with point := .awaiting })
    (htasks : (s'.tasks.map TaskPoint.rank).sum ≤ (s.tasks.map TaskPoint.rank).sum + 3) : s'.rank < s.rank := by
  have hsum := sum_map_set Caller.rank hcaller { c with point := .awaiting }
  simp only [Caller.rank, hpoint] at hsum
  unfold Scheduler.rank
  rw [hcallers]
  omega

theorem rank_setTask (htask : s.tasks[t]? = some p₀) (p : TaskPoint Req) (hlower : p.rank < p₀.rank)
    (hcallers : (s'.callers.map Caller.rank).sum = (s.callers.map Caller.rank).sum)
    (htasks : s'.tasks = s.tasks.set t p) : s'.rank < s.rank := by
  have hsum := sum_map_set TaskPoint.rank htask p
  unfold Scheduler.rank
  rw [hcallers, htasks]
  omega

theorem rank_cancelTimer (s : Scheduler Req Resp Exc) :
    (s.cancelTimer.map TaskPoint.rank).sum ≤ (s.tasks.map TaskPoint.rank).sum := by
  unfold Scheduler.cancelTimer
  split
  · exact Nat.le_refl _
  · rename_i t htimer
    split
    · exact Nat.le_refl _
    · cases htask : s.tasks[t]? with
      | none =>
        have hset : s.tasks.set t .ended = s.tasks := set_eq_of_length_le (List.getElem?_eq_none_iff.1 htask)
        simp [hset]
      | some p =>
        have hsum := sum_map_set TaskPoint.rank htask .ended
        simp only [TaskPoint.rank] at hsum ⊢
        omega

theorem rank_foldl_settle (callers : List (Caller Req Resp Exc)) (settled replies : List (Nat × Answer Resp Exc)) :
    ((replies.foldl settle (callers, settled)).1.map Caller.rank).sum = (callers.map Caller.rank).sum := by
  refine foldl_settle_keeps (P := fun futures => (futures.1.map Caller.rank).sum = (callers.map Caller.rank).sum)
    (fun futures reply hfutures => ?_) replies rfl
  rcases settle_cases futures reply with ⟨hsame, -⟩ | ⟨c, hcaller, -, hset⟩
  · rw [hsame]
    exact hfutures
  · have hsum := sum_map_set Caller.rank hcaller { c with future := .set reply.2 }
    rw [hset, ← hfutures]
    exact Nat.add_right_cancel hsum

theorem rank_lt_of_move (hmove : Move maxSize s s') : s'.rank < s.rank := by
  have hsnoc : ∀ (tasks : List (TaskPoint Req)) (p : TaskPoint Req),
      ((tasks ++ [p]).map TaskPoint.rank).sum = (tasks.map TaskPoint.rank).sum + p.rank := by simp
  cases hmove with
  | full hcaller hpoint hfull =>
    refine rank_enter hcaller hpoint rfl ?_
    have hcancel := rank_cancelTimer s
    rw [hsnoc, TaskPoint.rank]
    omega
  | first hcaller hpoint hroom hqueue => exact rank_enter hcaller hpoint rfl (Nat.le_of_eq (hsnoc _ _))
  | more hcaller hpoint hroom hqueue => exact rank_enter hcaller hpoint rfl (Nat.le_add_right _ _)
  | wake htask => exact rank_setTask htask .atLock (Nat.lt_succ_self 2) rfl rfl
  | nothing htask hqueue => exact rank_setTask htask .ended Nat.two_pos rfl rfl
  | take htask hqueue => exact rank_setTask htask (.processing s.queue) (Nat.lt_succ_self 1) rfl rfl
  | handled outcome htask => exact rank_setTask htask .ended Nat.zero_lt_one (rank_foldl_settle _ _ _) rfl
  | @resume i c answer hcaller hpoint hfuture =>
    have hsum := sum_map_set Caller.rank hcaller { c with point := .returned answer }
    simp only [Caller.rank, hpoint] at hsum
    simp only [Scheduler.rank, Scheduler.setCaller]
    omega

structure Finished (s : Scheduler Req Resp Exc) : Prop where
  returned : ∀ c ∈ s.callers, c.point ≠ .atLock ∧ c.point ≠ .awaiting
  queue : s.queue = []
  batches : (s.finished.map Flush.batch).Perm s.taken

theorem Inv.finished (h : Inv maxSize s)
    (hidle : ∀ e : Event Req Resp Exc, e.Internal → s.next maxSize e = none) : Finished s := by
  -- every task has a step left unless it has ended
  have htasks : ∀ p ∈ s.tasks, p = .ended := by
    intro p hp
    obtain ⟨t, htask⟩ := mem_iff_getElem?.1 hp
    cases p with
    | sleeping =>
      have hstep := hidle (.wake t) trivial
      simp [Scheduler.next, Scheduler.wake, htask] at hstep
    | atLock =>
      have hstep := hidle (.expire t) trivial
      simp only [Scheduler.next, Scheduler.expire, htask] at hstep
      split_ifs at hstep
    | processing batch =>
      have hstep := hidle (.handled t (.ok [])) trivial
      simp [Scheduler.next, Scheduler.handled, htask] at hstep
    | ended => rfl
  have hqueue : s.queue = [] := by
    by_contra hsome
    obtain ⟨t, htimer⟩ := ne_none_iff_exists'.1 (h.timers.timer hsome)
    obtain ⟨p, htask, hpending⟩ := (h.timers.waits t).2 ⟨htimer, hsome⟩
    rw [htasks p (mem_of_getElem? htask)] at hpending
    exact hpending
  have hbatches : (s.finished.map Flush.batch).Perm s.taken := by
    have hprocessing : s.processing = [] := filterMap_eq_nil_iff.2 fun p hp => by rw [htasks p hp]; rfl
    have hperm := h.accounts.batches
    rwa [hprocessing, nil_append] at hperm
  refine ⟨fun c hmem => ?_, hqueue, hbatches⟩
  obtain ⟨i, hcaller⟩ := mem_iff_getElem?.1 hmem
  refine ⟨fun hlock => ?_, fun hawaiting => ?_⟩
  · have hstep := hidle (.enter i) trivial
    simp [Scheduler.next, Scheduler.enter, hcaller, hlock] at hstep
  -- the request is in a batch that is finished, so the future is done
  have hqueued : i ∈ s.queued.map BatchRequest.caller :=
    h.registered.parties i c hcaller (by simp [Caller.Queued, hawaiting])
  obtain ⟨br, hbr, rfl⟩ := mem_map.1 hqueued
  rw [h.accounts.order, hqueue, append_nil] at hbr
  obtain ⟨batch, hbatch, hbr⟩ := mem_flatten.1 hbr
  obtain ⟨f, hf, rfl⟩ := mem_map.1 (hbatches.symm.subset hbatch)
  have hreply : br.caller ∈ f.replies.map Prod.fst := by
    rw [map_fst_replies]
    exact mem_map_of_mem hbr
  obtain ⟨message, hmessage, heq⟩ := mem_map.1 hreply
  have hdone := h.mail.done message (mem_flatMap.2 ⟨f, hf, hmessage⟩) c (heq ▸ hcaller)
  have hconsistent := h.mail.consistent c hmem
  simp only [Caller.Consistent, hawaiting] at hconsistent
  cases hfuture : c.future with
  | pending => exact hdone hfuture
  | set answer =>
    have hstep := hidle (.resume br.caller) trivial
    simp [Scheduler.next, Scheduler.resume, hcaller, hawaiting, hfuture] at hstep
  | cancelled => exact hconsistent hfuture

/-- What the caller of the `k`-th request of a batch is to get: the `k`-th response if the handler has returned
as many as there are requests, and an exception otherwise. -/
def Flush.Answers (f : Flush Req Resp Exc) (k i : Nat) (answer : Answer Resp Exc) : Prop :=
  (∃ br, f.batch[k]? = some br ∧ br.caller = i) ∧ match f.outcome with
    | .ok resps =>
      if resps.length = f.batch.length then ∃ resp, resps[k]? = some resp ∧ answer = .ok resp
      else ∃ exc, answer = .error exc
    | .error _ => ∃ exc, answer = .error exc

theorem Flush.answers_of_mem {f : Flush Req Resp Exc} {answer : Answer Resp Exc} (h : (i, answer) ∈ f.replies) :
    ∃ k, f.Answers k i answer := by
  obtain ⟨k, hk⟩ := mem_iff_getElem?.1 h
  obtain ⟨hcaller, hanswer⟩ := getElem?_zip_eq_some.1 hk
  rw [getElem?_map, map_eq_some_iff] at hcaller
  change _ = some answer at hanswer
  refine ⟨k, hcaller, ?_⟩
  unfold batchAnswers at hanswer
  cases houtcome : f.outcome with
  | error exc =>
    simp only [houtcome] at hanswer
    exact ⟨_, eq_of_mem_replicate (mem_of_getElem? hanswer)⟩
  | ok resps =>
    simp only [houtcome] at hanswer ⊢
    split_ifs at hanswer with hlength
    · rw [if_neg hlength]
      exact ⟨_, eq_of_mem_replicate (mem_of_getElem? hanswer)⟩
    · rw [if_pos (not_not.1 hlength)]
      rw [getElem?_map, map_eq_some_iff] at hanswer
      obtain ⟨resp, hresp, heq⟩ := hanswer
      exact ⟨resp, hresp, heq.symm⟩

theorem Timers.processing_kept (h : Timers maxSize s) (hmove : Move maxSize s s')
    {batch : List (BatchRequest Req)} (htask : s.tasks[t]? = some (.processing batch)) :
    s'.tasks[t]? = some (.processing batch) ∨ ∃ outcome, s'.finished = s.finished ++ [⟨batch, outcome⟩] := by
  have hlt := (List.getElem?_eq_some_iff.1 htask).1
  -- another task goes on
  have hother : ∀ {t' : Nat} {p₀ : TaskPoint Req} (p : TaskPoint Req), s.tasks[t']? = some p₀ →
      p₀ ≠ .processing batch → (s.tasks.set t' p)[t]? = some (.processing batch) := by
    intro t' p₀ p htask' hne
    rw [Parties.getElem?_set_some htask', if_neg]
    · exact htask
    · rintro rfl
      exact hne (some.inj (htask'.symm.trans htask))
  cases hmove with
  | full hcaller hpoint hfull =>
    left
    dsimp only
    rcases h.cancelTimer_cases hfull with ⟨-, heq⟩ | ⟨t', p, -, htask', hpending, heq⟩
    · rw [heq, getElem?_append_left hlt]
      exact htask
    · rw [heq, getElem?_append_left (by rwa [length_set])]
      exact hother .ended htask' fun hp => (hp ▸ hpending : TaskPoint.Pending (.processing batch))
  | first hcaller hpoint hroom hqueue => exact .inl ((getElem?_append_left hlt).trans htask)
  | wake htask' => exact .inl (hother .atLock htask' nofun)
  | nothing htask' hqueue => exact .inl (hother .ended htask' nofun)
  | take htask' hqueue => exact .inl (hother (.processing s.queue) htask' nofun)
  | @handled t' batch' outcome htask' =>
    by_cases hsame : batch' = batch
    · exact .inr ⟨outcome, by rw [hsame]⟩
    · exact .inl (hother .ended htask' fun hp => hsame (by injection hp))
  | _ => exact .inl htask

structure Delivery (maxSize : Nat) (s : Scheduler Req Resp Exc) : Prop where
  order : s.queued = s.taken.flatten ++ s.queue
  once : (s.queued.map BatchRequest.caller).Nodup
  requests : ∀ br ∈ s.queued, ∃ c, s.callers[br.caller]? = some c ∧ c.req = br.req
  sizes : ∀ batch ∈ s.taken, batch.length ≤ maxSize
  batches : (s.processing ++ s.finished.map Flush.batch).Perm s.taken
  processing : ∀ (t : Nat) (batch : List (BatchRequest Req)), s.tasks[t]? = some (.processing batch) →
    ∀ e, (batching maxSize s e).1.tasks[t]? = some (.processing batch) ∨
      ∃ outcome, (batching maxSize s e).1.finished = s.finished ++ [⟨batch, outcome⟩]
  answers : ∀ (i : Nat) (c : Caller Req Resp Exc), s.callers[i]? = some c → (Parties.postedTo s.settled i).length ≤ 1 ∧
      ∀ answer, c.point = .returned answer →
        answer ∈ Parties.postedTo s.settled i ∧ ∃ f ∈ s.finished, ∃ k, f.Answers k i answer

theorem Inv.delivery (h : Inv maxSize s) : Delivery maxSize s := by
  refine ⟨h.accounts.order, h.registered.once, fun br hbr => ?_, h.timers.sizes, h.accounts.batches,
    fun t batch htask e => ?_, fun i c hcaller => ?_⟩
  · obtain ⟨c, hcaller, hreq, -⟩ := h.registered.entries br hbr
    exact ⟨c, hcaller, hreq⟩
  · simp only [batching, guarded]
    cases hnext : s.next maxSize e with
    | none => exact .inl htask
    | some s' =>
      by_cases he : e.Internal
      · exact h.timers.processing_kept (move_of_next he hnext) htask
      · cases arrival_of_next he hnext <;> exact .inl htask
  · have hgot := h.mail.got i c hcaller
    refine ⟨?_, fun answer hreturned => ?_⟩
    · rw [← hgot]
      unfold Caller.got
      split
      · exact Nat.le_refl 1
      · exact Nat.zero_le 1
    · have hconsistent := h.mail.consistent c (mem_of_getElem? hcaller)
      simp only [Caller.Consistent, hreturned] at hconsistent
      have hmem : answer ∈ Parties.postedTo s.settled i := by
        rw [← hgot, Caller.got, hconsistent]
        exact mem_singleton_self answer
      refine ⟨hmem, ?_⟩
      obtain ⟨f, hf, hreply⟩ := mem_flatMap.1 (h.mail.replies _ (Parties.mem_postedTo.1 hmem))
      exact ⟨f, hf, Flush.answers_of_mem hreply⟩

/-- After any steps, no queued request is lost or in two batches, no batch that is being processed is cancelled, each
caller gets the answer for its request, and by itself the scheduler comes to rest with all calls returned. -/
theorem batching_delivered (maxSize : Nat) (hsize : 1 ≤ maxSize) (events : List (Event Req Resp Exc)) :
    Delivery maxSize ((batching maxSize).after newScheduler events) ∧
      (batching maxSize).Settles Event.Internal Finished ((batching maxSize).after newScheduler events) := by
  have hkeep : ∀ s (e : Event Req Resp Exc) s', s.next maxSize e = some s' → Inv maxSize s → Inv maxSize s' :=
    fun _ _ _ hnext hs => hs.next hsize hnext
  have hinv : Inv maxSize ((batching maxSize).after newScheduler events) :=
    invariant_after (guarded_keeps hkeep) (inv_newScheduler hsize) events
  exact ⟨hinv.delivery, guarded_settles hkeep (fun _ _ _ he hnext _ => rank_lt_of_move (move_of_next he hnext))
    (fun _ hs hidle => hs.finished hidle) hinv⟩

theorem batching_delivered_pair :
    let events : List (Event Nat Nat Unit) :=
      [.invoke 7, .invoke 8, .enter 0, .enter 1, .handled 1 (.ok [70, 80]), .resume 0, .resume 1]
    1 ≤ 2 ∧ Delivery 2 ((batching 2).after newScheduler events) ∧
      (batching 2).Settles Event.Internal Finished ((batching 2).after newScheduler events) :=
  ⟨by decide, batching_delivered 2 (by decide) _⟩

end HelixRpc.Runtime.Python.Batching
