import HelixRpc.Runtime.Go.HedgingBucket
import HelixRpc.Runtime.Go.Retry

/-!
# Hedged requests of the Go client

Model of `executeWithHedging` (`runtimes/go/retry.go`).
-/

namespace HelixRpc.Runtime.Go.Hedging

open Foundation Runtime.Go.Retry List
variable {T Err : Type}

structure Worker (T Err : Type) where
  loop : Loop T Err
  sent : Bool

structure Message (T Err : Type) where
  sender : Nat
  value : T
  err : Option Err

inductive MainPoint (T Err : Type) where
  | begin
  | select
  | consume
  | waiting
  | launch
  | first
  | second (err : Err)
  | returned (value : T) (errs : List Err)

structure System (T Err : Type) where
  main : MainPoint T Err
  workers : List (Worker T Err)
  channel : List (Message T Err)
  ctxErr : Option Err
  bucket : Option (HedgeConfig × HedgeBucket)
  delay : Option Nat
  received : List (Message T Err)
  taken : Nat

inductive Event (T Err : Type) where
  | worker (i : Nat) (input : LoopInput T Err)
  | send (i : Nat)
  | enter
  | delay
  | cancel (err : Err)
  | receive
  | timeout
  | giveUp
  | consume (now : Int64)
  | launch
  | others (now : Int64)

namespace System

def crashed (s : System T Err) : Bool := s.workers.any fun w =>
    match w.loop.point with
    | .panicked => true
    | _ => false

def loopsCancelled (s : System T Err) : Bool :=
  match s.main with
  | .returned _ _ => true
  | _ => s.ctxErr.isSome

end System

section
variable (outside : Float64 → Int64) (policy : RetryPolicy Err) (zero : T)

def executeWithHedging (bucket : Option (HedgeConfig × HedgeBucket)) : System T Err :=
  ⟨.begin, [⟨newLoop policy zero, false⟩], [], none, bucket, none, [], 0⟩

variable (s : System T Err)

def workerStep (i : Nat) (input : LoopInput T Err) : System T Err :=
  match s.workers[i]? with
  | none => s
  | some w =>
    let next :=
      { s with workers := s.workers.set i { w with loop := (loop outside policy zero w.loop input).1 } }
    match input with
    | .done _ => if s.loopsCancelled then next else s
    | _ => next

def sendStep (i : Nat) : System T Err :=
  match s.workers[i]? with
  | none => s
  | some w =>
    match w.loop.point with
    | .returned value err =>
      if w.sent = false ∧ s.channel.length < 2 then
        { s with
          workers := s.workers.set i { w with sent := true }
          channel := s.channel ++ [⟨i, value, err⟩] }
      else s
    | _ => s

def receiveStep : System T Err :=
  match s.channel with
  | [] => s
  | m :: rest =>
    let next (main : MainPoint T Err) : System T Err :=
      { s with main := main, channel := rest, received := s.received ++ [m] }
    match s.main with
    | .select => next (.returned m.value m.err.toList)
    | .waiting => next (.returned m.value m.err.toList)
    | .first =>
      match m.err with
      | none => next (.returned m.value [])
      | some err => next (.second err)
    | .second err₁ =>
      match m.err with
      | none => next (.returned m.value [])
      | some err₂ => next (.returned zero [err₁, err₂])
    | _ => s

def giveUpStep : System T Err :=
  match s.ctxErr with
  | none => s
  | some err =>
    match s.main with
    | .select => { s with main := .returned zero [err] }
    | .waiting => { s with main := .returned zero [err] }
    | _ => s

def consumeStep (now : Int64) : System T Err :=
  match s.main with
  | .consume =>
    match s.bucket with
    | none => { s with main := .launch }
    | some (cfg, b) =>
      let (b, ok) := b.consume cfg now
      if ok then { s with main := .launch, bucket := some (cfg, b), taken := s.taken + 1 }
      else { s with main := .waiting, bucket := some (cfg, b) }
  | _ => s

def hedging : Machine (System T Err) (Event T Err) Unit := fun s e =>
  if s.crashed then (s, ())
  else
    match e with
    | .worker i input => (workerStep outside policy zero s i input, ())
    | .send i => (sendStep s i, ())
    | .enter =>
      match s.main with
      | .begin => ({ s with main := .select }, ())
      | _ => (s, ())
    | .delay =>
      match s.main with
      | .begin => (s, ())
      | _ => ({ s with delay := s.delay.or (some (s.workers.countP (·.sent))) }, ())
    | .cancel err => ({ s with ctxErr := s.ctxErr.or (some err) }, ())
    | .receive => (receiveStep zero s, ())
    | .timeout =>
      match s.main with
      | .select => if s.delay.isSome then ({ s with main := .consume }, ()) else (s, ())
      | _ => (s, ())
    | .giveUp => (giveUpStep zero s, ())
    | .consume now => (consumeStep s now, ())
    | .launch =>
      match s.main with
      | .launch =>
        ({ s with main := .first, workers := s.workers ++ [⟨newLoop policy zero, false⟩] }, ())
      | _ => (s, ())
    | .others now =>
      ({ s with bucket := s.bucket.map fun b => (b.1, (b.2.consume b.1 now).1) }, ())

inductive Received (zero : T) (m : Message T Err) : MainPoint T Err → MainPoint T Err → Prop where
  | single {main : MainPoint T Err} (hmain : main = .select ∨ main = .waiting) :
      Received zero m main (.returned m.value m.err.toList)
  | success {main : MainPoint T Err} (hmain : main = .first ∨ ∃ err, main = .second err)
      (herr : m.err = none) : Received zero m main (.returned m.value [])
  | firstFailed {err : Err} (herr : m.err = some err) : Received zero m .first (.second err)
  | bothFailed {err₁ err₂ : Err} (herr : m.err = some err₂) :
      Received zero m (.second err₁) (.returned zero [err₁, err₂])

inductive HedgeStep (s : System T Err) : System T Err → Prop where
  | idle : HedgeStep s s
  | work {i : Nat} {w : Worker T Err} (input : LoopInput T Err) (hworker : s.workers[i]? = some w) : HedgeStep s
        { s with workers := s.workers.set i { w with loop := (loop outside policy zero w.loop input).1 } }
  | send {i : Nat} {w : Worker T Err} {value : T} {err : Option Err} (hworker : s.workers[i]? = some w)
      (hpoint : w.loop.point = .returned value err) (hsent : w.sent = false) :
      HedgeStep s
        { s with
          workers := s.workers.set i { w with sent := true }
          channel := s.channel ++ [⟨i, value, err⟩] }
  | enter (hmain : s.main = .begin) : HedgeStep s { s with main := .select }
  | delay (n : Nat) : HedgeStep s { s with delay := s.delay.or (some n) }
  | cancel (err : Err) : HedgeStep s { s with ctxErr := s.ctxErr.or (some err) }
  | receive {m : Message T Err} {rest : List (Message T Err)} {main : MainPoint T Err}
      (hchannel : s.channel = m :: rest) (hmain : Received zero m s.main main) :
      HedgeStep s { s with main := main, channel := rest, received := s.received ++ [m] }
  | timeout (hmain : s.main = .select) (hdelay : s.delay.isSome) : HedgeStep s { s with main := .consume }
  | giveUp {err : Err} (hctx : s.ctxErr = some err) (hmain : s.main = .select ∨ s.main = .waiting) :
      HedgeStep s { s with main := .returned zero [err] }
  | free (hmain : s.main = .consume) (hbucket : s.bucket = none) : HedgeStep s { s with main := .launch }
  | token {cfg : HedgeConfig} (b : HedgeBucket) (hmain : s.main = .consume) (hbucket : s.bucket.isSome) :
      HedgeStep s { s with main := .launch, bucket := some (cfg, b), taken := s.taken + 1 }
  | noToken {cfg : HedgeConfig} (b : HedgeBucket) (hmain : s.main = .consume) (hbucket : s.bucket.isSome) :
      HedgeStep s { s with main := .waiting, bucket := some (cfg, b) }
  | launch (hmain : s.main = .launch) :
      HedgeStep s { s with main := .first, workers := s.workers ++ [⟨newLoop policy zero, false⟩] }
  | others (now : Int64) : HedgeStep s { s with bucket := s.bucket.map fun b => (b.1, (b.2.consume b.1 now).1) }

section
variable (s : System T Err)

theorem workerStep_cases (i : Nat) (input : LoopInput T Err) :
    HedgeStep outside policy zero s (workerStep outside policy zero s i input) := by
  unfold workerStep
  split
  · exact .idle
  · rename_i w hworker
    dsimp only
    split
    · split_ifs with hcancelled
      · exact .work _ hworker
      · exact .idle
    · exact .work _ hworker

theorem sendStep_cases (i : Nat) : HedgeStep outside policy zero s (sendStep s i) := by
  unfold sendStep
  split
  · exact .idle
  · rename_i w hworker
    split
    · rename_i value err hpoint
      split_ifs with hroom
      · exact .send hworker hpoint hroom.1
      · exact .idle
    · exact .idle

theorem receiveStep_cases : HedgeStep outside policy zero s (receiveStep zero s) := by
  unfold receiveStep
  split
  · exact .idle
  · rename_i m rest hchannel
    dsimp only
    split
    · rename_i hmain
      exact .receive hchannel (.single (.inl hmain))
    · rename_i hmain
      exact .receive hchannel (.single (.inr hmain))
    · rename_i hmain
      split
      · rename_i herr
        exact .receive hchannel (.success (.inl hmain) herr)
      · rename_i err herr
        exact .receive hchannel (hmain ▸ .firstFailed herr)
    · rename_i err₁ hmain
      split
      · rename_i herr
        exact .receive hchannel (.success (.inr ⟨err₁, hmain⟩) herr)
      · rename_i err₂ herr
        exact .receive hchannel (hmain ▸ .bothFailed herr)
    · exact .idle

theorem giveUpStep_cases : HedgeStep outside policy zero s (giveUpStep zero s) := by
  unfold giveUpStep
  split
  · exact .idle
  · rename_i err hctx
    split
    · rename_i hmain
      exact .giveUp hctx (.inl hmain)
    · rename_i hmain
      exact .giveUp hctx (.inr hmain)
    · exact .idle

theorem consumeStep_cases (now : Int64) : HedgeStep outside policy zero s (consumeStep s now) := by
  unfold consumeStep
  split
  · rename_i hmain
    split
    · rename_i hbucket
      exact .free hmain hbucket
    · rename_i cfg b hbucket
      have hsome : s.bucket.isSome := by rw [hbucket]; rfl
      dsimp only
      split_ifs with hok
      · exact .token _ hmain hsome
      · exact .noToken _ hmain hsome
  · exact .idle

theorem hedging_cases (e : Event T Err) : HedgeStep outside policy zero s (hedging outside policy zero s e).1 := by
  unfold hedging
  by_cases hcrashed : s.crashed = true
  · rw [if_pos hcrashed]
    exact .idle
  · rw [if_neg hcrashed]
    cases e with
    | worker i input => exact workerStep_cases outside policy zero s i input
    | send i => exact sendStep_cases outside policy zero s i
    | enter =>
      dsimp only
      split
      · rename_i hmain
        exact .enter hmain
      · exact .idle
    | delay =>
      dsimp only
      split
      · exact .idle
      · exact .delay _
    | cancel err => exact .cancel err
    | receive => exact receiveStep_cases outside policy zero s
    | timeout =>
      dsimp only
      split
      · rename_i hmain
        split_ifs with hdelay
        · exact .timeout hmain hdelay
        · exact .idle
      · exact .idle
    | giveUp => exact giveUpStep_cases outside policy zero s
    | consume now => exact consumeStep_cases outside policy zero s now
    | launch =>
      dsimp only
      split
      · rename_i hmain
        exact .launch hmain
      · exact .idle
    | others now => exact .others now
end

end

structure ChannelInv (s : System T Err) : Prop where
  messages : ∀ m ∈ s.received ++ s.channel, ∃ w, s.workers[m.sender]? = some w ∧ w.sent = true ∧
    w.loop.point = .returned m.value m.err
  senders : ((s.received ++ s.channel).map Message.sender).Nodup

section
variable {outside : Float64 → Int64} {policy : RetryPolicy Err} {zero : T} {s s' : System T Err}
variable {m : Message T Err} {i : Nat} {w : Worker T Err}

theorem received_channel {rest : List (Message T Err)} (h : s.channel = m :: rest) :
    s.received ++ [m] ++ rest = s.received ++ s.channel := by rw [h, append_assoc, singleton_append]

theorem getElem?_set_work (hworker : s.workers[i]? = some w) (input : LoopInput T Err) {j : Nat} {w' : Worker T Err}
    (hw' : s.workers[j]? = some w') {value : T} {err : Option Err} (hreturned : w'.loop.point = .returned value err) :
    (s.workers.set i { w with loop := (loop outside policy zero w.loop input).1 })[j]? = some w' := by
  by_cases hij : i = j
  · -- the loop that takes the step is itself one that has returned
    subst hij
    rw [hworker] at hw'
    cases hw'
    have hsame := (loop_cases outside policy zero w.loop input).of_returned hreturned
    rw [hsame, getElem?_set_self (List.getElem?_eq_some_iff.1 hworker).1]
  · rw [getElem?_set_ne hij]
    exact hw'

theorem ChannelInv.sender_ne (h : ChannelInv s) (hworker : s.workers[i]? = some w)
    (hsent : w.sent = false) (hm : m ∈ s.received ++ s.channel) : m.sender ≠ i := by
  rintro rfl
  obtain ⟨w', hw', hsent', _⟩ := h.messages m hm
  rw [hworker] at hw'
  cases hw'
  rw [hsent] at hsent'
  cases hsent'

theorem ChannelInv.step (h : ChannelInv s) (hstep : HedgeStep outside policy zero s s') : ChannelInv s' := by
  cases hstep with
  | work input hworker =>
    refine ⟨fun m hm => ?_, h.senders⟩
    obtain ⟨w', hw', hsent, hreturned⟩ := h.messages m hm
    exact ⟨w', getElem?_set_work hworker input hw' hreturned, hsent, hreturned⟩
  | @send i w value err hworker hpoint hsent =>
    have hmem : ∀ m ∈ s.received ++ (s.channel ++ [⟨i, value, err⟩]),
        m ∈ s.received ++ s.channel ∨ m = ⟨i, value, err⟩ := by
      intro m hm
      rw [← append_assoc, mem_append, mem_singleton] at hm
      exact hm
    refine ⟨fun m hm => ?_, ?_⟩
    · rcases hmem m hm with hm | rfl
      · obtain ⟨w', hw', hrest⟩ := h.messages m hm
        refine ⟨w', ?_, hrest⟩
        rw [getElem?_set_ne (h.sender_ne hworker hsent hm).symm]
        exact hw'
      · exact ⟨_, getElem?_set_self (List.getElem?_eq_some_iff.1 hworker).1, rfl, hpoint⟩
    · dsimp only
      rw [← append_assoc, map_append, nodup_append]
      refine ⟨h.senders, pairwise_singleton _ _, fun a ha b hb => ?_⟩
      obtain ⟨m, hm, rfl⟩ := mem_map.1 ha
      rw [map_singleton, mem_singleton] at hb
      exact hb ▸ h.sender_ne hworker hsent hm
  | receive hchannel _ =>
    have hsame := received_channel hchannel
    exact ⟨fun m hm => h.messages m (hsame ▸ hm), hsame ▸ h.senders⟩
  | launch _ =>
    refine ⟨fun m hm => ?_, h.senders⟩
    obtain ⟨w, hw, hrest⟩ := h.messages m hm
    exact ⟨w, (getElem?_append_left (List.getElem?_eq_some_iff.1 hw).1).trans hw, hrest⟩
  | _ => exact ⟨h.messages, h.senders⟩
end

def MainInv (s : System T Err) : Prop :=
  match s.main with
  | .begin => s.workers.length = 1 ∧ s.received = [] ∧ s.taken = 0
  | .select => s.workers.length = 1 ∧ s.received = [] ∧ s.taken = 0
  | .consume => s.workers.length = 1 ∧ s.received = [] ∧ s.taken = 0 ∧ s.delay.isSome
  | .waiting => s.workers.length = 1 ∧ s.received = []
  | .launch =>
    s.workers.length = 1 ∧ s.received = [] ∧ s.delay.isSome ∧ (s.bucket = none ∨ s.taken = 1)
  | .first => s.workers.length = 2 ∧ s.received = []
  | .second err => s.workers.length = 2 ∧ ∃ m, s.received = [m] ∧ m.err = some err
  | .returned value errs =>
    s.workers.length ≤ 2 ∧ (errs = [] → ∃ m ∈ s.received, m.value = value ∧ m.err = none) ∧
      (errs ≠ [] → s.ctxErr.isSome ∨ ∀ i < s.workers.length, ∃ m ∈ s.received, m.sender = i ∧ m.err ≠ none)

section
variable {outside : Float64 → Int64} {policy : RetryPolicy Err} {zero : T} {s s' : System T Err}
variable {m : Message T Err} {rest : List (Message T Err)}

theorem ChannelInv.sender_lt (h : ChannelInv s) (hm : m ∈ s.received ++ s.channel) : m.sender < s.workers.length := by
  obtain ⟨w, hw, _⟩ := h.messages m hm
  exact (List.getElem?_eq_some_iff.1 hw).1

theorem ChannelInv.sender_eq_or (h : ChannelInv s) (htwo : s.workers.length = 2) {m₁ m : Message T Err}
    (hreceived : s.received = [m₁]) (hchannel : s.channel = m :: rest)
    {i : Nat} (hi : i < s.workers.length) : m₁.sender = i ∨ m.sender = i := by
  have hdistinct : m₁.sender ≠ m.sender := by
    have hsenders := h.senders
    rw [hreceived, hchannel] at hsenders
    intro heq
    simp [heq] at hsenders
  have hsender₁ := h.sender_lt (m := m₁) (by simp [hreceived])
  have hsender := h.sender_lt (m := m) (by simp [hchannel])
  omega

theorem MainInv.receive (h : MainInv s) (hinv : ChannelInv s) (hchannel : s.channel = m :: rest)
    {main : MainPoint T Err} (hmain : Received zero m s.main main) :
    MainInv { s with main := main, channel := rest, received := s.received ++ [m] } := by
  generalize hpoint : s.main = point at hmain
  cases hmain with
  | single hselect =>
    have hone : s.workers.length = 1 ∧ s.received = [] := by
      rcases hselect with rfl | rfl
      · simp only [MainInv, hpoint] at h
        exact ⟨h.1, h.2.1⟩
      · simp only [MainInv, hpoint] at h
        exact h
    -- the result is the one of the only loop
    refine ⟨by simp only [hone.1]; decide, fun hnone => ?_, fun herrs => .inr fun i hi => ?_⟩
    · exact ⟨m, mem_append_right _ mem_cons_self, rfl, by simpa using hnone⟩
    · refine ⟨m, mem_append_right _ mem_cons_self, ?_, fun hnone => herrs (by simp [hnone])⟩
      have hsender := hinv.sender_lt (m := m) (by simp [hchannel])
      have hi' : i < s.workers.length := hi
      omega
  | success hsecond herr =>
    have htwo : s.workers.length = 2 := by
      rcases hsecond with rfl | ⟨err, rfl⟩
      · simp only [MainInv, hpoint] at h
        exact h.1
      · simp only [MainInv, hpoint] at h
        exact h.1
    refine ⟨htwo.le, fun _ => ?_, fun herrs => absurd rfl herrs⟩
    exact ⟨m, mem_append_right _ mem_cons_self, rfl, herr⟩
  | firstFailed herr =>
    simp only [MainInv, hpoint] at h
    exact ⟨h.1, m, by simp [h.2], herr⟩
  | bothFailed herr =>
    -- the two results are from different loops, so each of the two loops has failed
    simp only [MainInv, hpoint] at h
    obtain ⟨htwo, m₁, hreceived, herr₁⟩ := h
    refine ⟨htwo.le, fun hnone => absurd hnone (by simp), fun _ => .inr fun i hi => ?_⟩
    rcases hinv.sender_eq_or htwo hreceived hchannel hi with heq | heq
    · exact ⟨m₁, by simp [hreceived], heq, by simp [herr₁]⟩
    · exact ⟨m, by simp, heq, by simp [herr]⟩

theorem MainInv.environment (h : MainInv s) {delay : Option Nat} {ctxErr : Option Err}
    {bucket : Option (HedgeConfig × HedgeBucket)} (hdelay : s.delay.isSome → delay.isSome)
    (hctx : s.ctxErr.isSome → ctxErr.isSome) (hbucket : s.bucket = none → bucket = none) :
    MainInv { s with delay := delay, ctxErr := ctxErr, bucket := bucket } := by
  unfold MainInv at h ⊢
  cases hmain : s.main with
  | consume =>
    rw [hmain] at h
    exact ⟨h.1, h.2.1, h.2.2.1, hdelay h.2.2.2⟩
  | launch =>
    rw [hmain] at h
    exact ⟨h.1, h.2.1, hdelay h.2.2.1, h.2.2.2.imp_left hbucket⟩
  | returned value errs =>
    rw [hmain] at h
    exact ⟨h.1, h.2.1, fun herrs => (h.2.2 herrs).imp_left hctx⟩
  | _ =>
    rw [hmain] at h
    exact h

theorem MainInv.step (h : MainInv s) (hinv : ChannelInv s) (hstep : HedgeStep outside policy zero s s') :
    MainInv s' := by
  cases hstep with
  | idle => exact h
  | work input hworker => simpa only [MainInv, length_set] using h
  | send hworker hpoint hsent => simpa only [MainInv, length_set] using h
  | enter hmain =>
    simp only [MainInv, hmain] at h
    exact h
  | delay n => exact h.environment (by simp) id id
  | cancel err => exact h.environment id (by simp) id
  | receive hchannel hmain => exact h.receive hinv hchannel hmain
  | timeout hmain hdelay =>
    simp only [MainInv, hmain] at h
    exact ⟨h.1, h.2.1, h.2.2, hdelay⟩
  | giveUp hctx hmain =>
    have hlength : s.workers.length ≤ 2 := by
      rcases hmain with hmain | hmain
      · simp only [MainInv, hmain] at h
        omega
      · simp only [MainInv, hmain] at h
        omega
    exact ⟨hlength, by simp, fun _ => .inl (by simp [hctx])⟩
  | free hmain hbucket =>
    simp only [MainInv, hmain] at h
    exact ⟨h.1, h.2.1, h.2.2.2, .inl hbucket⟩
  | token b hmain hbucket =>
    simp only [MainInv, hmain] at h
    exact ⟨h.1, h.2.1, h.2.2.2, .inr (by simp [h.2.2.1])⟩
  | noToken b hmain hbucket =>
    simp only [MainInv, hmain] at h
    exact ⟨h.1, h.2.1⟩
  | launch hmain =>
    simp only [MainInv, hmain] at h
    exact ⟨by simp [h.1], h.2.1⟩
  | others now => exact h.environment id id fun hnone => by rw [hnone]; rfl

theorem MainInv.workers_le (h : MainInv s) : s.workers.length ≤ 2 := by
  unfold MainInv at h
  split at h <;> omega

theorem HedgeStep.launches (hstep : HedgeStep outside policy zero s s')
    (hgrows : s.workers.length < s'.workers.length) : s.main = .launch := by
  cases hstep with
  | work input hworker =>
    rw [length_set] at hgrows
    exact absurd hgrows (Nat.lt_irrefl _)
  | send hworker hpoint hsent =>
    rw [length_set] at hgrows
    exact absurd hgrows (Nat.lt_irrefl _)
  | launch hmain => exact hmain
  | _ => exact absurd hgrows (Nat.lt_irrefl _)
end

def LoopsInv (s : System T Err) : Prop :=
  ∀ w ∈ s.workers, ∀ value, w.loop.point = .returned value none → (value, none) ∈ w.loop.results

section
variable {outside : Float64 → Int64} {policy : RetryPolicy Err} {zero : T} {s s' : System T Err}

theorem newLoop_value (hattempts : 1 ≤ policy.maxAttempts) (value : T) :
    (newLoop policy zero).point ≠ .returned value none := by
  rw [newLoop, if_pos hattempts]
  intro h
  cases h

theorem LoopsInv.step (hattempts : 1 ≤ policy.maxAttempts) (h : LoopsInv s)
    (hstep : HedgeStep outside policy zero s s') : LoopsInv s' := by
  cases hstep with
  | work input hworker =>
    intro w' hw' value hreturned
    rcases mem_or_eq_of_mem_set hw' with hw' | rfl
    · exact h w' hw' value hreturned
    · have hvalue := h _ (mem_of_getElem? hworker)
      exact (loop_cases outside policy zero _ input).value hvalue value hreturned
  | send hworker hpoint hsent =>
    intro w' hw' value hreturned
    rcases mem_or_eq_of_mem_set hw' with hw' | rfl
    · exact h w' hw' value hreturned
    · exact h _ (mem_of_getElem? hworker) value hreturned
  | launch hmain =>
    intro w' hw' value hreturned
    rcases mem_append.1 hw' with hw' | hw'
    · exact h w' hw' value hreturned
    · rw [mem_singleton.1 hw'] at hreturned
      exact absurd hreturned (newLoop_value hattempts value)
  | _ => exact h

structure Inv (s : System T Err) : Prop where
  channel : ChannelInv s
  main : MainInv s
  loops : LoopsInv s

theorem inv_executeWithHedging (hattempts : 1 ≤ policy.maxAttempts)
    (bucket : Option (HedgeConfig × HedgeBucket)) : Inv (executeWithHedging policy zero bucket) := by
  refine ⟨⟨fun m hm => absurd hm not_mem_nil, nodup_nil⟩, ⟨rfl, rfl, rfl⟩, ?_⟩
  intro w hw value hreturned
  rw [mem_singleton.1 hw] at hreturned
  exact absurd hreturned (newLoop_value hattempts value)

theorem inv_after (hattempts : 1 ≤ policy.maxAttempts) (h : Inv s) (events : List (Event T Err)) :
    Inv ((hedging outside policy zero).after s events) := by
  refine Machine.invariant_after (fun s e hs => ?_) h events
  have hstep := hedging_cases outside policy zero s e
  exact ⟨hs.channel.step hstep, hs.main.step hs.channel hstep, hs.loops.step hattempts hstep⟩

theorem HedgeStep.bucket (hstep : HedgeStep outside policy zero s s') : s'.bucket.isSome = s.bucket.isSome := by
  cases hstep with
  | token b _ hbucket => exact hbucket.symm
  | noToken b _ hbucket => exact hbucket.symm
  | others now => exact Option.isSome_map
  | _ => rfl

theorem bucket_after (s : System T Err) (events : List (Event T Err)) :
    ((hedging outside policy zero).after s events).bucket.isSome = s.bucket.isSome := by
  induction events generalizing s with
  | nil => rfl
  | cons e events ih => exact (ih _).trans (hedging_cases outside policy zero s e).bucket

theorem Inv.success (h : Inv s) {value : T} (hmain : s.main = .returned value []) :
    ∃ w ∈ s.workers, (value, none) ∈ w.loop.results := by
  have hreturned := h.main
  rw [MainInv, hmain] at hreturned
  obtain ⟨m, hm, rfl, herr⟩ := hreturned.2.1 rfl
  obtain ⟨w, hw, _, hpoint⟩ := h.channel.messages m (mem_append_left _ hm)
  have hmem := mem_of_getElem? hw
  exact ⟨w, hmem, h.loops w hmem m.value (herr ▸ hpoint)⟩

theorem Inv.failure (h : Inv s) {value : T} {errs : List Err} (hmain : s.main = .returned value errs)
    (herrs : errs ≠ []) : s.ctxErr.isSome ∨
      ∀ w ∈ s.workers, ∃ value err, w.loop.point = .returned value (some err) := by
  have hreturned := h.main
  simp only [MainInv, hmain] at hreturned
  refine (hreturned.2.2 herrs).imp_right fun hall w hw => ?_
  obtain ⟨i, hi, rfl⟩ := mem_iff_getElem.1 hw
  obtain ⟨m, hm, rfl, herr⟩ := hall i hi
  obtain ⟨w', hw', _, hpoint⟩ := h.channel.messages m (mem_append_left _ hm)
  obtain ⟨err, heq⟩ := Option.ne_none_iff_exists'.1 herr
  have hsame := (List.getElem?_eq_some_iff.1 hw').2
  exact ⟨m.value, err, by rw [hsame, hpoint, heq]⟩
end

/-- In every interleaving there are at most two loops. -/
theorem hedging_sound (outside : Float64 → Int64) (policy : RetryPolicy Err) (zero : T)
    (bucket : Option (HedgeConfig × HedgeBucket)) (events : List (Event T Err)) (e : Event T Err)
    (hattempts : 1 ≤ policy.maxAttempts) :
    let s := (hedging outside policy zero).after (executeWithHedging policy zero bucket) events
    s.workers.length ≤ 2 ∧ (s.workers.length < (hedging outside policy zero s e).1.workers.length →
        s.delay.isSome ∧ s.received = [] ∧ (bucket = none ∨ s.taken = 1)) ∧
      (∀ value, s.main = .returned value [] → ∃ w ∈ s.workers, (value, none) ∈ w.loop.results) ∧
      (∀ value errs, s.main = .returned value errs → errs ≠ [] → s.ctxErr.isSome ∨
        ∀ w ∈ s.workers, ∃ value err, w.loop.point = .returned value (some err)) := by
  intro s
  have hinv : Inv s := inv_after hattempts (inv_executeWithHedging hattempts bucket) events
  refine ⟨hinv.main.workers_le, fun hgrows => ?_, fun _ => hinv.success, fun _ _ => hinv.failure⟩
  have hmain := (hedging_cases outside policy zero s e).launches hgrows
  have hlaunch := hinv.main
  simp only [MainInv, hmain] at hlaunch
  have hbucket : s.bucket.isSome = bucket.isSome := bucket_after _ events
  refine ⟨hlaunch.2.2.1, hlaunch.2.1, hlaunch.2.2.2.imp_left fun hnone => ?_⟩
  rw [hnone] at hbucket
  exact Option.not_isSome_iff_eq_none.1 (by rw [← hbucket]; decide)

def oneAttempt : RetryPolicy Unit := ⟨1, 0, 0, .finite 1, none, false⟩

def runOnce (events : List (Event Nat Unit)) : System Nat Unit :=
  (hedging (fun _ => 0) oneAttempt 0).after (executeWithHedging oneAttempt 0 none) events

theorem hedging_sound_slow :
    let s := runOnce [.enter, .delay, .timeout, .consume 0, .launch, .worker 1 (.operation 0 (some ())),
      .send 1, .receive, .worker 0 (.operation 7 none), .send 0, .receive]
    s.main = .returned 7 [] ∧ ∃ w ∈ s.workers, (7, none) ∈ w.loop.results :=
  ⟨rfl, (hedging_sound (fun _ => 0) oneAttempt 0 none _ .delay (by decide)).2.2.1 7 rfl⟩

def StartedWithoutResult (s : System T Err) : Prop := s.workers.length = 2 → s.delay = some 0

theorem second_loop_beside_result :
    let s := runOnce [.enter, .worker 0 (.operation 7 none), .send 0, .delay, .timeout, .consume 0, .launch]
    (s.workers.length = 2 ∧ s.delay = some 1) ∧ ¬ StartedWithoutResult s := by
  intro s
  have hstarted : s.workers.length = 2 := rfl
  have hdelay : s.delay = some 1 := rfl
  refine ⟨⟨hstarted, hdelay⟩, fun h => ?_⟩
  have hzero := h hstarted
  rw [hdelay] at hzero
  cases hzero

end HelixRpc.Runtime.Go.Hedging
