import HelixRpc.Foundation.Quiescence

/-!
# Streaming dispatch of the Rust server

Model of the streaming dispatch of `HelixHttpService::call` (`runtimes/rust/src/server.rs`).
-/

namespace HelixRpc.Runtime.Rust.Streaming

open Foundation List Option Machine
variable {Frame : Type}

inductive HandlerAction (Frame : Type) where
  | recv
  | send (frame : Frame)

def sends (script : List (HandlerAction Frame)) : Nat := script.countP fun
    | .send _ => true
    | .recv => false

def channelSize : Nat := 64

structure Dispatch (Frame : Type) where
  script : List (HandlerAction Frame)
  isOk : Bool
  ended : Bool
  channel : List Frame
  chunk : Option Frame
  body : List Frame
  response : Option String

def newDispatch (script : List (HandlerAction Frame)) (isOk : Bool) : Dispatch Frame :=
  ⟨script, isOk, false, [], none, [], none⟩

inductive Event where
  | handler
  | take
  | push
  | respond

def Dispatch.next (bodySize : Nat) (s : Dispatch Frame) : Event → Option (Dispatch Frame)
  | .handler =>
    match s.script with
    | [] => if s.ended then none else some { s with ended := true }
    | .recv :: script => some { s with script := script }
    | .send frame :: script =>
      if s.channel.length < channelSize then some { s with script := script, channel := s.channel ++ [frame] } else none
  | .take =>
    match s.chunk, s.channel with
    | none, frame :: channel => some { s with channel := channel, chunk := some frame }
    | _, _ => none
  | .push =>
    match s.chunk with
    | some frame => if s.body.length < bodySize then some { s with chunk := none, body := s.body ++ [frame] } else none
    | none => none
  | .respond =>
    match s.response with
    | none => if s.ended then some { s with response := some (if s.isOk then "0" else "13") } else none
    | some _ => none

def dispatch (bodySize : Nat) : Machine (Dispatch Frame) Event Unit := guarded (Dispatch.next bodySize)

def Dispatch.buffered (s : Dispatch Frame) : Nat := s.channel.length + s.chunk.toList.length + s.body.length

structure Inv (bodySize total : Nat) (s : Dispatch Frame) : Prop where
  kept : sends s.script + s.buffered = total
  channel : s.channel.length ≤ channelSize
  body : s.body.length ≤ bodySize
  ended : s.ended = true → s.script = []
  response : s.response.isSome → s.ended = true

def Dispatch.rank (s : Dispatch Frame) : Nat :=
  4 * s.script.length + 3 * s.channel.length + 2 * s.chunk.toList.length + s.body.length + (!s.ended).toNat +
    (!s.response.isSome).toNat

section
variable {bodySize total : Nat} {s s' : Dispatch Frame}

theorem Inv.step {e : Event} (hnext : s.next bodySize e = some s') (h : Inv bodySize total s) :
    Inv bodySize total s' ∧ s'.rank < s.rank := by
  obtain ⟨script, isOk, ended, channel, chunk, body, response⟩ := s
  obtain ⟨hkept, hchannel, hbody, hended, hresponse⟩ := h
  simp only [Dispatch.buffered] at hkept
  cases e with
  | handler =>
    cases script with
    | nil =>
      simp only [Dispatch.next] at hnext
      split_ifs at hnext with hrunning
      cases hnext
      simp only [Bool.not_eq_true] at hrunning
      subst hrunning
      exact ⟨⟨hkept, hchannel, hbody, fun _ => rfl, fun _ => rfl⟩, by simp [Dispatch.rank]⟩
    | cons action script =>
      have hrunning : ended = false := by
        cases ended with
        | false => rfl
        | true => cases hended rfl
      subst hrunning
      cases action with
      | recv =>
        cases hnext
        refine ⟨⟨?_, hchannel, hbody, nofun, hresponse⟩, by simp [Dispatch.rank]⟩
        simpa [sends, Dispatch.buffered] using hkept
      | send frame =>
        simp only [Dispatch.next] at hnext
        split_ifs at hnext with hroom
        cases hnext
        refine ⟨⟨?_, ?_, hbody, nofun, hresponse⟩, ?_⟩
        · simp [sends, Dispatch.buffered] at hkept ⊢
          omega
        · rw [length_append]
          exact hroom
        · simp [Dispatch.rank]
          omega
  | take =>
    simp only [Dispatch.next] at hnext
    split at hnext <;> cases hnext
    simp only [length_cons, toList_none, length_nil] at hkept hchannel
    refine ⟨⟨?_, ?_, hbody, hended, hresponse⟩, ?_⟩
    · simp [Dispatch.buffered]
      omega
    · exact Nat.le_of_succ_le hchannel
    · simp [Dispatch.rank]
      omega
  | push =>
    simp only [Dispatch.next] at hnext
    split at hnext <;> try split_ifs at hnext with hroom
    all_goals cases hnext
    refine ⟨⟨?_, hchannel, ?_, hended, hresponse⟩, ?_⟩
    · simp [Dispatch.buffered] at hkept ⊢
      omega
    · rw [length_append]
      exact hroom
    · simp [Dispatch.rank]
      omega
  | respond =>
    simp only [Dispatch.next] at hnext
    split at hnext
    · split at hnext
      · rename_i hdone
        cases hnext
        exact ⟨⟨hkept, hchannel, hbody, hended, fun _ => hdone⟩, by simp [Dispatch.rank]⟩
      · cases hnext
    · cases hnext

theorem Inv.response_iff (h : Inv bodySize total s) (hrest : ∀ e, s.next bodySize e = none) :
    s.response.isSome ↔ total ≤ channelSize + 1 + bodySize := by
  have hkept := h.kept
  have hchunk : s.chunk.toList.length ≤ 1 := by cases s.chunk <;> simp
  have hchannel := h.channel
  have hbody := h.body
  simp only [Dispatch.buffered] at hkept
  constructor
  · intro hresponse
    rw [h.ended (h.response hresponse)] at hkept
    simp only [sends, countP_nil] at hkept
    omega
  · intro hsmall
    by_contra hnone
    rw [not_isSome_iff_eq_none] at hnone
    -- the call waits for the handler, the handler for room in the channel, and the second task for room in the body
    have hrunning : s.ended = false := by
      have hrespond := hrest .respond
      simp only [Dispatch.next, hnone] at hrespond
      split_ifs at hrespond with hended
      exact Bool.not_eq_true _ ▸ hended
    have hfull : 1 ≤ sends s.script ∧ channelSize ≤ s.channel.length := by
      have hhandler := hrest .handler
      simp only [Dispatch.next, hrunning] at hhandler
      split at hhandler
      · cases hhandler
      · cases hhandler
      · rename_i hscript
        split_ifs at hhandler with hroom
        rw [hscript]
        exact ⟨by simp [sends], Nat.le_of_not_lt hroom⟩
    have htake := hrest .take
    have hpush := hrest .push
    cases hchunk' : s.chunk with
    | none =>
      cases hlist : s.channel with
      | nil =>
        rw [hlist] at hfull
        exact absurd hfull.2 (by simp [channelSize])
      | cons frame channel => simp [Dispatch.next, hchunk', hlist] at htake
    | some frame =>
      simp only [Dispatch.next, hchunk'] at hpush
      split_ifs at hpush with hroom
      simp only [hchunk', toList_some, length_singleton] at hkept
      omega
end

theorem inv_newDispatch (bodySize : Nat) (script : List (HandlerAction Frame)) (isOk : Bool) :
    Inv bodySize (sends script) (newDispatch script isOk) := ⟨rfl, Nat.zero_le _, Nat.zero_le _, nofun, nofun⟩

/-- The tasks cannot go on for ever, and where they come to rest the call has returned a response exactly
if the handler sends no more frames than the channel and the body hold, and one more. -/
theorem responds_iff (bodySize : Nat) (script : List (HandlerAction Frame)) (isOk : Bool) :
    (dispatch bodySize).Settles (fun _ => True)
      (fun s => s.response.isSome ↔ sends script ≤ channelSize + 1 + bodySize) (newDispatch script isOk) := by
  refine guarded_settles (fun s e s' hnext hs => (hs.step hnext).1)
    (fun s e s' _ hnext hs => (hs.step hnext).2) (fun s hs hrest => ?_) (inv_newDispatch bodySize script isOk)
  exact hs.response_iff fun e => hrest e trivial

theorem long_stream_never_responds :
    ∃ events, let s := (dispatch 1).after (newDispatch (replicate 67 (.send ())) true) events
      s.response = none ∧ (dispatch 1).Quiescent (fun _ => True) s := by
  have hstep : ∀ (s : Dispatch Unit) e s', True → s.next 1 e = some s' → Inv 1 67 s → Inv 1 67 s' ∧ s'.rank < s.rank :=
    fun s e s' _ hnext hs => hs.step hnext
  obtain ⟨events, hinv, hrest⟩ := guarded_rests (fun _ => True) hstep (inv_newDispatch 1 (replicate 67 (.send ())) true)
  refine ⟨events, ?_, fun e _ => ?_⟩
  · have hnone := (hinv.response_iff fun e => hrest e trivial).not.2 (by decide)
    exact not_isSome_iff_eq_none.1 hnone
  · exact guarded_of_none (hrest e trivial)

end HelixRpc.Runtime.Rust.Streaming
