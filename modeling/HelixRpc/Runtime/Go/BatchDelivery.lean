import HelixRpc.Foundation.Parties
import HelixRpc.Runtime.Go.Batching

/-!
# Delivery of batched requests in the Go runtime

What holds of the batch scheduler in all interleavings.
-/

namespace HelixRpc.Runtime.Go.Batching

open Foundation List Option Bool Machine
variable {Req Resp : Type} {maxBatchSize i : Nat} {s s' : Scheduler Req Resp} {c c₀ : Caller Req Resp}
  {res : BatchResponse Resp} {point : RunPoint Resp} {batch : List (BatchRequest Req)} {br : BatchRequest Req}
  {left : List (Nat × BatchResponse Resp)}

def Scheduler.unhandled (s : Scheduler Req Resp) : List (BatchRequest Req) :=
  match s.point with
  | .replies _ => []
  | _ => s.batch

def Caller.got (c : Caller Req Resp) : List (BatchResponse Resp) :=
  match c.point with
  | .answered res => res :: c.respCh.toList
  | _ => c.respCh.toList

/-- What was accepted was flushed, is in the batch or in the channel, and what was flushed was answered or is
being answered. -/
structure Accounts (s : Scheduler Req Resp) : Prop where
  order : s.accepted = s.flushes.flatMap Flush.batch ++ s.unhandled ++ s.reqCh
  replies : s.sent ++ s.point.left = s.flushes.flatMap Flush.replies

def Registered (s : Scheduler Req Resp) : Prop :=
  Parties.Entered BatchRequest.caller (fun c br => c.req = br.req) (fun c => c.point ≠ .sending) s.callers s.accepted

structure Mail (s : Scheduler Req Resp) : Prop where
  got : Parties.Received Caller.got s.callers s.sent
  errors : ∀ c ∈ s.callers, ∀ err, c.point = .gaveUp err → c.ctxErr = some err

def Timer.Alive (t : Timer) : Prop := t.armed = true ∨ 0 < t.firing ∨ t.tick = true

def Placed (maxBatchSize : Nat) (s : Scheduler Req Resp) : Prop :=
  match s.point with
  | .receive => s.batch = []
  | .select => s.batch ≠ [] ∧ s.batch.length < maxBatchSize ∧ s.timerChan = true ∧ ∃ t, s.timer = some t ∧ t.Alive
  | .handler => s.batch ≠ [] ∧ s.batch.length ≤ max 1 maxBatchSize
  | .replies left => left ≠ []

def Sized (maxBatchSize : Nat) (s : Scheduler Req Resp) : Prop := ∀ f ∈ s.flushes, f.batch.length ≤ max 1 maxBatchSize

section
variable (s : Scheduler Req Resp)

@[simp] theorem length_flushReplies (requests : Nat) (resps : List Resp) (err : Option Text) :
    (flushReplies requests resps err).length = requests := by
  unfold flushReplies
  split
  · exact length_replicate
  · split_ifs with h
    · exact length_replicate
    · rw [length_map]
      exact not_not.1 h

theorem map_fst_replies (f : Flush Req Resp) : f.replies.map Prod.fst = f.batch.map BatchRequest.caller := by
  apply map_fst_zip
  simp

theorem map_fst_flatMap_replies (flushes : List (Flush Req Resp)) : (flushes.flatMap Flush.replies).map Prod.fst =
      (flushes.flatMap Flush.batch).map BatchRequest.caller := by
  rw [map_flatMap, map_flatMap]
  exact congrArg (fun g => flushes.flatMap g) (funext map_fst_replies)

@[simp] theorem replying_reqCh (left : List (Nat × BatchResponse Resp)) : (s.replying left).reqCh = s.reqCh := by
  cases left <;> rfl

@[simp] theorem replying_callers (left : List (Nat × BatchResponse Resp)) : (s.replying left).callers = s.callers := by
  cases left <;> rfl

@[simp] theorem replying_accepted (left : List (Nat × BatchResponse Resp)) :
    (s.replying left).accepted = s.accepted := by
  cases left <;> rfl

@[simp] theorem replying_flushes (left : List (Nat × BatchResponse Resp)) : (s.replying left).flushes = s.flushes := by
  cases left <;> rfl

@[simp] theorem replying_sent (left : List (Nat × BatchResponse Resp)) : (s.replying left).sent = s.sent := by
  cases left <;> rfl

@[simp] theorem replying_left (left : List (Nat × BatchResponse Resp)) : (s.replying left).point.left = left := by
  cases left <;> rfl

@[simp] theorem replying_unhandled (left : List (Nat × BatchResponse Resp)) : (s.replying left).unhandled = [] := by
  cases left <;> rfl

theorem placed_replying (maxBatchSize : Nat) (left : List (Nat × BatchResponse Resp)) :
    Placed maxBatchSize (s.replying left) := by
  cases left with
  | nil => exact rfl
  | cons first left => exact cons_ne_nil first left
end

theorem Appended.left_eq_nil (h : Appended maxBatchSize batch point) : point.left = [] := by
  cases h <;> rfl

theorem Appended.unhandled (h : Appended maxBatchSize batch point) (hpoint : s.point = point) :
    s.unhandled = s.batch := by
  unfold Scheduler.unhandled
  cases h <;> rw [hpoint]

theorem Accounts.arrival (h : Accounts s) (harrival : Arrival s s') : Accounts s' := by
  cases harrival <;> exact ⟨h.order, h.replies⟩

/-- A request goes from the channel to the batch, and from the batch to the ones that are answered. -/
theorem Accounts.move (h : Accounts s) (hplaced : Placed maxBatchSize s) (hmove : Move maxBatchSize s s') :
    Accounts s' := by
  obtain ⟨horder, hreplies⟩ := h
  cases hmove with
  | accept hcaller hpoint =>
    refine ⟨?_, hreplies⟩
    change s.accepted ++ _ = s.flushes.flatMap Flush.batch ++ s.unhandled ++ (s.reqCh ++ _)
    rw [horder, append_assoc]
  | first hreqCh hpoint hnext =>
    refine ⟨?_, ?_⟩
    · rw [hnext.unhandled rfl]
      simp only [horder, Scheduler.unhandled, hpoint, hreqCh]
      simp
    · rw [hnext.left_eq_nil]
      simpa only [hpoint, RunPoint.left] using hreplies
  | more hreqCh hpoint hnext =>
    refine ⟨?_, ?_⟩
    · rw [hnext.unhandled rfl]
      simp only [horder, Scheduler.unhandled, hpoint, hreqCh]
      simp
    · rw [hnext.left_eq_nil]
      simpa only [hpoint, RunPoint.left] using hreplies
  | expire htimer harmed => exact ⟨horder, hreplies⟩
  | deliver htimer hfiring => exact ⟨horder, hreplies⟩
  | tick htimer hpoint =>
    simp only [Placed, hpoint] at hplaced
    have hflush : s.flushPoint = .handler := by
      rw [Scheduler.flushPoint, isEmpty_eq_false_iff.2 hplaced.1]
      rfl
    refine ⟨?_, ?_⟩
    · simpa only [hflush, Scheduler.unhandled, hpoint] using horder
    · simpa only [hflush, hpoint, RunPoint.left] using hreplies
  | handled resps err hpoint =>
    simp only [Scheduler.unhandled, hpoint, RunPoint.left, append_nil] at horder hreplies
    refine ⟨?_, ?_⟩
    · simpa using horder
    · simp [hreplies]
  | reply hpoint hcaller hroom =>
    simp only [Scheduler.unhandled, hpoint, RunPoint.left] at horder hreplies
    refine ⟨?_, ?_⟩
    · simpa [Scheduler.setCaller] using horder
    · simpa [Scheduler.setCaller] using hreplies
  | take hcaller hpoint hres => exact ⟨horder, hreplies⟩
  | giveUp hcaller hpoint herr => exact ⟨horder, hreplies⟩

theorem placed_appended (hpoint : s.point = point) (hnext : Appended maxBatchSize s.batch point) (hbatch : s.batch ≠ [])
    (hlength : s.batch.length ≤ max 1 maxBatchSize) (htimer : s.timerChan = true ∧ ∃ t, s.timer = some t ∧ t.Alive) :
    Placed maxBatchSize s := by
  cases hnext with
  | full hfull =>
    simp only [Placed, hpoint]
    exact ⟨hbatch, hlength⟩
  | room hroom =>
    simp only [Placed, hpoint]
    exact ⟨hbatch, hroom, htimer⟩

theorem alive_startTimer (timer : Option Timer) : (startTimer timer).Alive := by
  cases timer <;> exact .inl rfl

theorem Placed.timer (h : Placed maxBatchSize s) {t : Timer} (halive : t.Alive) :
    Placed maxBatchSize { s with timer := some t } := by
  unfold Placed at h ⊢
  cases hpoint : s.point with
  | select =>
    simp only [hpoint] at h ⊢
    exact ⟨h.1, h.2.1, h.2.2.1, t, rfl, halive⟩
  | _ =>
    simp only [hpoint] at h ⊢
    exact h

theorem Placed.move (h : Placed maxBatchSize s) (hmove : Move maxBatchSize s s') : Placed maxBatchSize s' := by
  cases hmove with
  | accept hcaller hpoint => exact h
  | first hreqCh hpoint hnext =>
    simp only [Placed, hpoint] at h
    refine placed_appended rfl hnext (append_ne_nil_of_right_ne_nil _ (cons_ne_nil _ _)) ?_
      ⟨rfl, _, rfl, alive_startTimer _⟩
    rw [h, nil_append, length_singleton]
    omega
  | more hreqCh hpoint hnext =>
    simp only [Placed, hpoint] at h
    refine placed_appended rfl hnext (append_ne_nil_of_right_ne_nil _ (cons_ne_nil _ _)) ?_ h.2.2
    rw [length_append, length_singleton]
    omega
  | expire htimer harmed => exact h.timer (.inr (.inl (Nat.succ_pos _)))
  | deliver htimer hfiring => exact h.timer (.inr (.inr rfl))
  | tick htimer hpoint =>
    simp only [Placed, hpoint] at h
    simp only [Placed, Scheduler.flushPoint, isEmpty_eq_false_iff.2 h.1]
    exact ⟨h.1, by omega⟩
  | handled resps err hpoint => exact placed_replying _ _ _
  | reply hpoint hcaller hroom => exact placed_replying _ _ _
  | take hcaller hpoint hres => exact h
  | giveUp hcaller hpoint herr => exact h

theorem Sized.move (h : Sized maxBatchSize s) (hplaced : Placed maxBatchSize s)
    (hmove : Move maxBatchSize s s') : Sized maxBatchSize s' := by
  cases hmove with
  | handled resps err hpoint =>
    simp only [Placed, hpoint] at hplaced
    intro f hf
    rw [replying_flushes, mem_append, mem_singleton] at hf
    rcases hf with hearlier | rfl
    · exact h f hearlier
    · exact hplaced.2
  | reply hpoint hcaller hroom =>
    intro f hf
    rw [replying_flushes] at hf
    exact h f hf
  | _ => exact h

theorem Registered.arrival (h : Registered s) (harrival : Arrival s s') : Registered s' := by
  cases harrival with
  | invoke req => exact h.arrive fun hsent => hsent rfl
  | cancel err hcaller => exact h.update hcaller (fun _ => id) Iff.rfl

theorem Registered.move (h : Registered s) (hmove : Move maxBatchSize s s') : Registered s' := by
  cases hmove with
  | @accept i c hcaller hpoint =>
    exact h.enter (b := ⟨i, c.req⟩) hcaller (fun hsent => hsent hpoint) rfl nofun
  | handled resps err hpoint =>
    unfold Registered
    rw [replying_callers, replying_accepted]
    exact h
  | reply hpoint hcaller hroom =>
    unfold Registered
    rw [replying_callers, replying_accepted]
    exact h.update hcaller (fun _ => id) Iff.rfl
  | take hcaller hpoint hres => exact h.update hcaller (fun _ => id) (by simp [hpoint])
  | giveUp hcaller hpoint herr => exact h.update hcaller (fun _ => id) (by simp [hpoint])
  | _ => exact h

theorem Accounts.accepted_of_mem (h : Accounts s) (hi : i ∈ (s.sent ++ s.point.left).map Prod.fst) :
    i ∈ s.accepted.map BatchRequest.caller := by
  rw [h.replies, map_fst_flatMap_replies] at hi
  rw [h.order, append_assoc, map_append]
  exact mem_append_left _ hi

theorem Mail.set (h : Mail s) (hcaller : s.callers[i]? = some c₀) (hgot : c.got = c₀.got)
    (herr : ∀ err, c.point = .gaveUp err → c.ctxErr = some err) : Mail (s.setCaller i c) := by
  refine ⟨h.got.update hcaller hgot, fun c' hc' => ?_⟩
  rcases mem_or_eq_of_mem_set hc' with hother | rfl
  · exact h.errors c' hother
  · exact herr

theorem Mail.arrival (h : Mail s) (haccounts : Accounts s) (hregistered : Registered s)
    (harrival : Arrival s s') : Mail s' := by
  cases harrival with
  | invoke req =>
    refine ⟨h.got.arrive rfl fun hmem => ?_, fun c hc err hgaveUp => ?_⟩
    · -- nothing was sent to a caller that was not there
      refine hregistered.length_not_mem (haccounts.accepted_of_mem ?_)
      rw [map_append]
      exact mem_append_left _ hmem
    · rcases mem_append.1 hc with hold | hnew
      · exact h.errors c hold err hgaveUp
      · cases mem_singleton.1 hnew
        cases hgaveUp
  | cancel err hcaller =>
    refine h.set hcaller rfl fun err' hgaveUp => ?_
    rw [h.errors _ (mem_of_getElem? hcaller) err' hgaveUp]
    rfl

theorem Mail.move (h : Mail s) (hmove : Move maxBatchSize s s') : Mail s' := by
  cases hmove with
  | @accept i c hcaller hpoint =>
    have hset : Mail (s.setCaller i { c with point := .waiting }) := h.set hcaller (by simp [Caller.got, hpoint]) nofun
    exact ⟨hset.got, hset.errors⟩
  | handled resps err hpoint =>
    refine ⟨?_, ?_⟩
    · rw [replying_callers, replying_sent]
      exact h.got
    · rw [replying_callers]
      exact h.errors
  | @reply i res left c hpoint hcaller hroom =>
    refine ⟨?_, ?_⟩
    · rw [replying_callers, replying_sent]
      refine h.got.post hcaller ?_
      unfold Caller.got
      cases c.point <;> simp [hroom]
    · rw [replying_callers]
      intro c' hc'
      rcases mem_or_eq_of_mem_set hc' with hother | rfl
      · exact h.errors c' hother
      · exact h.errors c (mem_of_getElem? hcaller)
  | take hcaller hpoint hres => exact h.set hcaller (by simp [Caller.got, hpoint, hres]) nofun
  | giveUp hcaller hpoint herr =>
    refine h.set hcaller (by simp [Caller.got, hpoint]) fun err' heq => ?_
    cases heq
    exact herr
  | _ => exact ⟨h.got, h.errors⟩

structure Inv (maxBatchSize : Nat) (s : Scheduler Req Resp) : Prop where
  accounts : Accounts s
  registered : Registered s
  mail : Mail s
  placed : Placed maxBatchSize s
  sized : Sized maxBatchSize s

theorem inv_newBatchScheduler : Inv maxBatchSize (newBatchScheduler : Scheduler Req Resp) :=
  ⟨⟨rfl, rfl⟩, Parties.entered_nil, ⟨Parties.received_nil, nofun⟩, rfl, nofun⟩

theorem Inv.arrival (h : Inv maxBatchSize s) (harrival : Arrival s s') : Inv maxBatchSize s' := by
  refine ⟨h.accounts.arrival harrival, h.registered.arrival harrival,
    h.mail.arrival h.accounts h.registered harrival, ?_, ?_⟩
  · cases harrival <;> exact h.placed
  · cases harrival <;> exact h.sized

theorem Inv.move (h : Inv maxBatchSize s) (hmove : Move maxBatchSize s s') : Inv maxBatchSize s' :=
  ⟨h.accounts.move h.placed hmove, h.registered.move hmove, h.mail.move hmove, h.placed.move hmove,
    h.sized.move h.placed hmove⟩

theorem Inv.next (h : Inv maxBatchSize s) {e : Event Req Resp} (hnext : s.next maxBatchSize e = some s') :
    Inv maxBatchSize s' := by
  by_cases he : e.Internal
  · have hmoves := moves_of_next he hnext
    clear hnext
    induction hmoves with
    | single hfirst => exact h.move hfirst
    | tail _ hlast ih => exact ih.move hlast
  · exact h.arrival (arrival_of_next he hnext)

theorem Inv.nodup_replies (h : Inv maxBatchSize s) : ((s.sent ++ s.point.left).map Prod.fst).Nodup := by
  have honce := h.registered.once
  rw [h.accounts.order, append_assoc, map_append] at honce
  rw [h.accounts.replies, map_fst_flatMap_replies]
  exact (nodup_append.1 honce).1

theorem Inv.replies_free (h : Inv maxBatchSize s) (hpoint : s.point = .replies ((i, res) :: left)) :
    ∃ c, s.callers[i]? = some c ∧ c.respCh = none := by
  have hleft : s.point.left = (i, res) :: left := by rw [hpoint]; rfl
  have hmem : i ∈ (s.sent ++ s.point.left).map Prod.fst := by
    rw [hleft]
    exact mem_map_of_mem (mem_append_right _ mem_cons_self)
  obtain ⟨br, hbr, hcaller⟩ := mem_map.1 (h.accounts.accepted_of_mem hmem)
  obtain ⟨c, hc, -⟩ := h.registered.entries br hbr
  rw [hcaller] at hc
  have hunsent : i ∉ s.sent.map Prod.fst := by
    have hnodup := h.nodup_replies
    rw [hleft, map_append, nodup_append] at hnodup
    exact fun hsent => hnodup.2.2 i hsent i mem_cons_self rfl
  refine ⟨c, hc, ?_⟩
  have hgot := (h.mail.got i c hc).trans (Parties.postedTo_eq_nil hunsent)
  unfold Caller.got at hgot
  split at hgot
  · cases hgot
  · exact toList_eq_nil_iff.1 hgot

theorem Inv.got_length (h : Inv maxBatchSize s) (hcaller : s.callers[i]? = some c) : c.got.length ≤ 1 := by
  have hnodup := h.nodup_replies
  rw [map_append] at hnodup
  rw [h.mail.got i c hcaller]
  exact Parties.length_postedTo_le_one (nodup_append.1 hnodup).1 i

/-- What the caller of the `k`-th request of a batch is to get: the `k`-th response if the handler has returned
as many as there are requests, and an error otherwise. -/
def Flush.Answers (f : Flush Req Resp) (k i : Nat) (res : BatchResponse Resp) : Prop :=
  (∃ br, f.batch[k]? = some br ∧ br.caller = i) ∧ if f.err = none ∧ f.resps.length = f.batch.length then
      ∃ resp, f.resps[k]? = some resp ∧ res = ⟨some resp, none⟩
    else res.resp = none ∧ res.err.isSome

theorem Flush.answers_of_mem {f : Flush Req Resp} (h : (i, res) ∈ f.replies) : ∃ k, f.Answers k i res := by
  obtain ⟨k, hk⟩ := mem_iff_getElem?.1 h
  obtain ⟨hcaller, hres⟩ := getElem?_zip_eq_some.1 hk
  rw [getElem?_map, map_eq_some_iff] at hcaller
  refine ⟨k, hcaller, ?_⟩
  change _ = some res at hres
  unfold flushReplies at hres
  split at hres
  · rename_i err herr
    rw [if_neg (by simp [herr]), eq_of_mem_replicate (mem_of_getElem? hres)]
    exact ⟨rfl, rfl⟩
  · rename_i herr
    split_ifs at hres with hlength
    · rw [if_neg fun hboth => hlength hboth.2, eq_of_mem_replicate (mem_of_getElem? hres)]
      exact ⟨rfl, rfl⟩
    · rw [if_pos ⟨herr, not_not.1 hlength⟩]
      rw [getElem?_map, map_eq_some_iff] at hres
      obtain ⟨resp, hresp, heq⟩ := hres
      exact ⟨resp, hresp, heq.symm⟩

theorem Inv.answers (h : Inv maxBatchSize s) (hcaller : s.callers[i]? = some c) (hgot : res ∈ c.got) :
    ∃ f ∈ s.flushes, ∃ k, f.Answers k i res := by
  rw [h.mail.got i c hcaller, Parties.mem_postedTo] at hgot
  have hreplies : (i, res) ∈ s.flushes.flatMap Flush.replies := by
    rw [← h.accounts.replies]
    exact mem_append_left _ hgot
  obtain ⟨f, hf, hreply⟩ := mem_flatMap.1 hreplies
  exact ⟨f, hf, Flush.answers_of_mem hreply⟩

theorem Inv.unhandled_length (h : Inv maxBatchSize s) : s.unhandled.length ≤ max 1 maxBatchSize := by
  have hplaced := h.placed
  unfold Placed at hplaced
  unfold Scheduler.unhandled
  cases hpoint : s.point with
  | receive =>
    simp only [hpoint] at hplaced ⊢
    rw [hplaced]
    exact Nat.zero_le _
  | select =>
    simp only [hpoint] at hplaced ⊢
    omega
  | handler =>
    simp only [hpoint] at hplaced ⊢
    exact hplaced.2
  | replies left => exact Nat.zero_le _

def Caller.rank (c : Caller Req Resp) : Nat :=
  match c.point with
  | .sending => 12
  | .waiting => 1
  | _ => 0

def Timer.rank (t : Timer) : Nat := 2 * t.armed.toNat + t.firing

namespace Scheduler

variable (s : Scheduler Req Resp)

def runRank : Nat :=
  match s.point with
  | .receive => 0
  | .select => 6 * s.batch.length + 1
  | .handler => 6 * s.batch.length
  | .replies left => left.length

def timerRank : Nat := (s.timer.map Timer.rank).getD 0

def rank : Nat := (s.callers.map Caller.rank).sum + 10 * s.reqCh.length + s.runRank + s.timerRank

end Scheduler

@[simp] theorem stopAndDrain_firing (t : Timer) : t.stopAndDrain.firing = t.firing := by
  unfold Timer.stopAndDrain
  split_ifs <;> rfl

@[simp] theorem stopAndDrain_armed (t : Timer) : t.stopAndDrain.armed = false := by
  unfold Timer.stopAndDrain
  split_ifs with harmed
  · rfl
  · exact not_eq_true _ ▸ harmed

theorem rank_startTimer (s : Scheduler Req Resp) : (startTimer s.timer).rank ≤ s.timerRank + 2 := by
  unfold Scheduler.timerRank
  cases s.timer with
  | none => exact Nat.le_refl 2
  | some t =>
    change 2 * 1 + t.stopAndDrain.firing ≤ 2 * t.armed.toNat + t.firing + 2
    rw [stopAndDrain_firing]
    omega

theorem timerRank_endFlush (s : Scheduler Req Resp) : s.endFlush.timerRank ≤ s.timerRank := by
  unfold Scheduler.endFlush Scheduler.timerRank
  cases s.timer with
  | none => exact Nat.le_refl _
  | some t =>
    change 2 * t.stopAndDrain.armed.toNat + t.stopAndDrain.firing ≤ 2 * t.armed.toNat + t.firing
    rw [stopAndDrain_armed, stopAndDrain_firing, toNat_false]
    omega

theorem rank_replying (s : Scheduler Req Resp) (left : List (Nat × BatchResponse Resp)) : (s.replying left).rank ≤
      (s.callers.map Caller.rank).sum + 10 * s.reqCh.length + left.length + s.timerRank := by
  cases left with
  | nil => exact Nat.add_le_add_left (timerRank_endFlush s) _
  | cons first left => exact Nat.le_refl _

theorem rank_setCaller (hcaller : s.callers[i]? = some c₀) (c : Caller Req Resp) :
    (s.setCaller i c).rank + c₀.rank = s.rank + c.rank := by
  have hsum := sum_map_set Caller.rank hcaller c
  change ((s.callers.set i c).map Caller.rank).sum + 10 * s.reqCh.length + s.runRank + s.timerRank + _ =
    (s.callers.map Caller.rank).sum + 10 * s.reqCh.length + s.runRank + s.timerRank + _
  omega

theorem runRank_appended (h : Appended maxBatchSize (s.batch ++ [br]) point) (hbatch : s'.batch = s.batch ++ [br])
    (hpoint : s'.point = point) : s'.runRank ≤ 6 * s.batch.length + 7 := by
  have hlength : s'.batch.length = s.batch.length + 1 := by rw [hbatch, length_append, length_singleton]
  cases h with
  | full hfull =>
    simp only [Scheduler.runRank, hpoint]
    omega
  | room hroom =>
    simp only [Scheduler.runRank, hpoint]
    omega

theorem rank_lt_of_received (hcallers : s'.callers = s.callers) (hreqCh : s.reqCh = br :: s'.reqCh)
    (hrun : s'.runRank ≤ s.runRank + 7) (htimer : s'.timerRank ≤ s.timerRank + 2) : s'.rank < s.rank := by
  unfold Scheduler.rank
  rw [hcallers, hreqCh, length_cons]
  omega

theorem rank_lt_of_move (hplaced : Placed maxBatchSize s) (hmove : Move maxBatchSize s s') : s'.rank < s.rank := by
  cases hmove with
  | @accept i c hcaller hpoint =>
    have hset := rank_setCaller hcaller { c with point := .waiting }
    have haccept : (s.accept i c).rank = (s.setCaller i { c with point := .waiting }).rank + 10 := by
      change ((s.callers.set i _).map Caller.rank).sum + 10 * (s.reqCh ++ [_]).length + s.runRank + s.timerRank =
        ((s.callers.set i _).map Caller.rank).sum + 10 * s.reqCh.length + s.runRank + s.timerRank + 10
      rw [length_append, length_singleton]
      omega
    simp only [Caller.rank, hpoint] at hset
    omega
  | first hreqCh hpoint hnext =>
    simp only [Placed, hpoint] at hplaced
    refine rank_lt_of_received rfl hreqCh ?_ (rank_startTimer s)
    refine Nat.le_trans (runRank_appended hnext rfl rfl) ?_
    simp only [Scheduler.runRank, hpoint, hplaced, length_nil]
    omega
  | more hreqCh hpoint hnext =>
    refine rank_lt_of_received rfl hreqCh ?_ (Nat.le_add_right _ _)
    refine Nat.le_trans (runRank_appended hnext rfl rfl) ?_
    simp only [Scheduler.runRank, hpoint]
    omega
  | @expire t htimer harmed =>
    refine Nat.add_lt_add_left ?_ _
    simp only [Scheduler.timerRank, htimer, map_some, getD_some, Timer.rank, harmed, toNat_false, toNat_true]
    omega
  | @deliver t htimer hfiring =>
    refine Nat.add_lt_add_left ?_ _
    simp only [Scheduler.timerRank, htimer, map_some, getD_some, Timer.rank]
    omega
  | @tick t htimer hpoint =>
    simp only [Placed, hpoint] at hplaced
    simp only [Scheduler.rank, Scheduler.runRank, Scheduler.timerRank, Scheduler.flushPoint, hpoint, htimer,
      isEmpty_eq_false_iff.2 hplaced.1, map_some, getD_some, Timer.rank]
    simp only [false_eq_true, if_false]
    omega
  | handled resps err hpoint =>
    simp only [Placed, hpoint] at hplaced
    have hpos := length_pos_iff.2 hplaced.1
    refine Nat.lt_of_le_of_lt (rank_replying _ _) ?_
    have hlength : (Flush.replies ⟨s.batch, resps, err⟩).length = s.batch.length := by
      rw [← length_map Prod.fst, map_fst_replies, length_map]
    rw [hlength]
    simp only [Scheduler.rank, Scheduler.runRank, Scheduler.timerRank, hpoint]
    omega
  | @reply i res left c hpoint hcaller hroom =>
    have hset := rank_setCaller hcaller { c with respCh := some res }
    refine Nat.lt_of_le_of_lt (rank_replying _ _) ?_
    simp only [Scheduler.rank, Scheduler.setCaller, Scheduler.runRank, Scheduler.timerRank, hpoint,
      length_cons, Caller.rank] at hset ⊢
    omega
  | @take i c res hcaller hpoint hres =>
    have hset := rank_setCaller hcaller { c with point := .answered res, respCh := none }
    simp only [Caller.rank, hpoint] at hset
    omega
  | @giveUp i c err hcaller hpoint herr =>
    have hset := rank_setCaller hcaller { c with point := .gaveUp err }
    simp only [Caller.rank, hpoint] at hset
    omega

theorem Inv.rank_lt (h : Inv maxBatchSize s) {e : Event Req Resp} (he : e.Internal)
    (hnext : s.next maxBatchSize e = some s') : s'.rank < s.rank := by
  have hmoves := moves_of_next he hnext
  suffices hboth : s'.rank < s.rank ∧ Placed maxBatchSize s' from hboth.1
  clear hnext
  induction hmoves with
  | single hfirst => exact ⟨rank_lt_of_move h.placed hfirst, h.placed.move hfirst⟩
  | tail _ hlast ih => exact ⟨Nat.lt_trans (rank_lt_of_move ih.2 hlast) ih.1, ih.2.move hlast⟩

def Caller.Returned (c : Caller Req Resp) : Prop := c.point ≠ .sending ∧ c.point ≠ .waiting

structure Finished (s : Scheduler Req Resp) : Prop where
  returned : ∀ c ∈ s.callers, c.Returned
  flushed : s.accepted = s.flushes.flatMap Flush.batch

theorem Inv.point_of_idle (h : Inv maxBatchSize s)
    (hidle : ∀ e : Event Req Resp, e.Internal → s.next maxBatchSize e = none) : s.point = .receive := by
  have hplaced := h.placed
  unfold Placed at hplaced
  cases hpoint : s.point with
  | receive => rfl
  | select =>
    simp only [hpoint] at hplaced
    obtain ⟨-, -, hchan, t, htimer, harmed | hfiring | htick⟩ := hplaced
    · have hstep := hidle .expire trivial
      simp [Scheduler.next, Scheduler.expire, htimer, harmed] at hstep
    · have hstep := hidle .deliver trivial
      simp [Scheduler.next, Scheduler.deliver, htimer, hfiring] at hstep
    · have hstep := hidle .tick trivial
      simp [Scheduler.next, Scheduler.tick, hpoint, htimer, hchan, htick] at hstep
  | handler =>
    have hstep := hidle (.handled [] none) trivial
    simp [Scheduler.next, Scheduler.handled, hpoint] at hstep
  | replies left =>
    simp only [hpoint] at hplaced
    obtain ⟨⟨i, res⟩, rest, rfl⟩ := exists_cons_of_ne_nil hplaced
    obtain ⟨c, hcaller, hroom⟩ := h.replies_free hpoint
    have hstep := hidle .reply trivial
    simp [Scheduler.next, Scheduler.reply, hpoint, hcaller, hroom] at hstep

theorem Inv.finished (h : Inv maxBatchSize s)
    (hidle : ∀ e : Event Req Resp, e.Internal → s.next maxBatchSize e = none) : Finished s := by
  have hpoint := h.point_of_idle hidle
  have hreqCh : s.reqCh = [] := by
    by_contra hsome
    obtain ⟨br, rest, hreqCh⟩ := exists_cons_of_ne_nil hsome
    have hstep := hidle .receive trivial
    simp [Scheduler.next, Scheduler.receive, hpoint, hreqCh] at hstep
  have hbatch : s.unhandled = [] := by
    have hplaced := h.placed
    simp only [Placed, hpoint] at hplaced
    simp only [Scheduler.unhandled, hpoint, hplaced]
  have hflushed : s.accepted = s.flushes.flatMap Flush.batch := by
    rw [h.accounts.order, hbatch, hreqCh, append_nil, append_nil]
  refine ⟨fun c hmem => ?_, hflushed⟩
  obtain ⟨i, hcaller⟩ := mem_iff_getElem?.1 hmem
  have hsent : c.point ≠ .sending := by
    intro hsending
    by_cases hcapacity : Scheduler.capacity maxBatchSize = 0
    · have hstep := hidle (.handOff i) trivial
      simp [Scheduler.next, Scheduler.handOff, Scheduler.receive, Scheduler.accept, Scheduler.setCaller, hcaller,
        hsending, hcapacity, hpoint, hreqCh] at hstep
    · have hstep := hidle (.send i) trivial
      simp [Scheduler.next, Scheduler.send, hcaller, hsending, hreqCh, hcapacity] at hstep
  refine ⟨hsent, fun hwaiting => ?_⟩
  -- the request was flushed and all responses were sent, so there is one for this caller
  have hanswered : i ∈ s.sent.map Prod.fst := by
    have hall := h.accounts.replies
    simp only [hpoint, RunPoint.left, append_nil] at hall
    rw [hall, map_fst_flatMap_replies, ← hflushed]
    exact h.registered.parties i c hcaller hsent
  obtain ⟨⟨j, res⟩, hmessage, rfl⟩ := mem_map.1 hanswered
  have hgot : res ∈ c.got := by
    rw [h.mail.got _ c hcaller]
    exact Parties.mem_postedTo.2 hmessage
  simp only [Caller.got, hwaiting, mem_toList] at hgot
  have hstep := hidle (.take j) trivial
  simp [Scheduler.next, Scheduler.take, hcaller, hwaiting, hgot] at hstep

structure Delivery (maxBatchSize : Nat) (s : Scheduler Req Resp) : Prop where
  order : s.accepted = s.flushes.flatMap Flush.batch ++ s.unhandled ++ s.reqCh
  once : (s.accepted.map BatchRequest.caller).Nodup
  requests : ∀ br ∈ s.accepted, ∃ c, s.callers[br.caller]? = some c ∧ c.req = br.req
  sizes : ∀ batch ∈ s.unhandled :: s.flushes.map Flush.batch, batch.length ≤ max 1 maxBatchSize
  answers : ∀ (i : Nat) (c : Caller Req Resp), s.callers[i]? = some c →
    c.got.length ≤ 1 ∧ ∀ res ∈ c.got, ∃ f ∈ s.flushes, ∃ k, f.Answers k i res
  errors : ∀ c ∈ s.callers, ∀ err, c.point = .gaveUp err → c.ctxErr = some err
  free : ∀ (i : Nat) (res : BatchResponse Resp) (left : List (Nat × BatchResponse Resp)),
    s.point = .replies ((i, res) :: left) → ∃ c, s.callers[i]? = some c ∧ c.respCh = none

/-- After any steps, each accepted request is in one batch, in the order of arrival, each caller gets the answer for
its request, the goroutine does not wait for a caller, and by itself the scheduler comes to rest with all calls
returned. -/
theorem batching_delivery (maxBatchSize : Nat) (events : List (Event Req Resp)) : Delivery maxBatchSize
    ((batching maxBatchSize).after newBatchScheduler events) ∧ (batching maxBatchSize).Settles Event.Internal Finished
    ((batching maxBatchSize).after newBatchScheduler events) := by
  have hinv : Inv maxBatchSize ((batching maxBatchSize).after newBatchScheduler events) :=
    invariant_after (guarded_keeps fun _ _ _ hnext hs => hs.next hnext) inv_newBatchScheduler events
  constructor
  · refine ⟨hinv.accounts.order, hinv.registered.once, fun br hbr => ?_, fun batch hbatch => ?_,
      fun i c hcaller => ⟨hinv.got_length hcaller, fun res => hinv.answers hcaller⟩, hinv.mail.errors,
      fun i res left => hinv.replies_free⟩
    · obtain ⟨c, hcaller, hreq, -⟩ := hinv.registered.entries br hbr
      exact ⟨c, hcaller, hreq⟩
    · rcases mem_cons.1 hbatch with rfl | hflushed
      · exact hinv.unhandled_length
      · obtain ⟨f, hf, rfl⟩ := mem_map.1 hflushed
        exact hinv.sized f hf
  · exact guarded_settles (fun _ _ _ hnext hs => hs.next hnext)
      (fun _ _ _ he hnext hs => hs.rank_lt he hnext) (fun _ hs hidle => hs.finished hidle) hinv

end HelixRpc.Runtime.Go.Batching
