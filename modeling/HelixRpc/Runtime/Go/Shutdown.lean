import HelixRpc.Foundation.Quiescence

/-!
# Shutdown of the Go server

Model of the callback for Thrift connections in `Server.Start` and of `Server.Shutdown`
(`runtimes/go/grpc_handler.go`).
-/

namespace HelixRpc.Runtime.Go.Shutdown

open Foundation List Option Machine

inductive CallbackPoint where
  | check
  | refused
  | loop (left : Nat)
  | added (left : Nat)

inductive HandlerPoint where
  | running
  | returned
  | ended
  deriving DecidableEq

inductive ShutdownPoint where
  | notCalled
  | waiting
  | drained
  | returned (isNil : Bool)

structure Server where
  inShutdown : Bool
  activeConns : Nat
  callbacks : List CallbackPoint
  handlers : List HandlerPoint
  shutdown : ShutdownPoint

def newServer : Server := ⟨false, 0, [], [], .notCalled⟩

inductive Event where
  | connect
  | check (i : Nat)
  | add (i : Nat)
  | start (i : Nat)
  | handled (j : Nat)
  | done (j : Nat)
  | shutdown
  | wait
  /-- `Shutdown` returns behind the `WaitGroup`, with the error of a listener or of the HTTP server if there is one. -/
  | finish (isNil : Bool)
  | expire

namespace Server

variable (processors : Nat) (s : Server)

def callback (i : Nat) : Event → CallbackPoint → Option Server
  | .check _, .check =>
    some { s with callbacks := s.callbacks.set i (if s.inShutdown then .refused else .loop processors) }
  | .add _, .loop (left + 1) =>
    some { s with callbacks := s.callbacks.set i (.added left), activeConns := s.activeConns + 1 }
  | .start _, .added left =>
    some { s with callbacks := s.callbacks.set i (.loop left), handlers := s.handlers ++ [.running] }
  | _, _ => none

def advance (e : Event) : Option ShutdownPoint :=
  match e, s.shutdown with
  | .shutdown, .notCalled => some .waiting
  | .wait, .waiting => if s.activeConns = 0 then some .drained else none
  | .finish isNil, .drained => some (.returned isNil)
  | .expire, .waiting => some (.returned false)
  | _, _ => none

def next (e : Event) : Option Server :=
  match e with
  | .connect => some { s with callbacks := s.callbacks ++ [.check] }
  | .check i => s.callbacks[i]?.bind (s.callback processors i e)
  | .add i => s.callbacks[i]?.bind (s.callback processors i e)
  | .start i => s.callbacks[i]?.bind (s.callback processors i e)
  | .handled j =>
    if s.handlers[j]? = some .running then some { s with handlers := s.handlers.set j .returned } else none
  | .done j =>
    if s.handlers[j]? = some .returned then
      some { s with handlers := s.handlers.set j .ended, activeConns := s.activeConns - 1 }
    else none
  | .shutdown => (s.advance e).map fun point => { s with inShutdown := true, shutdown := point }
  | _ => (s.advance e).map fun point => { s with shutdown := point }

end Server

def server (processors : Nat) : Machine Server Event Unit := Machine.guarded (Server.next processors)

def CallbackPoint.Starts : CallbackPoint → Prop
  | .loop left => left ≠ 0
  | .added _ => True
  | _ => False

def CallbackPoint.owed : CallbackPoint → Nat
  | .added _ => 1
  | _ => 0

def HandlerPoint.owed : HandlerPoint → Nat
  | .ended => 0
  | _ => 1

structure Inv (s : Server) : Prop where
  counted : s.activeConns = (s.callbacks.map CallbackPoint.owed).sum + (s.handlers.map HandlerPoint.owed).sum
  flagged : s.shutdown = .waiting → s.inShutdown = true

structure AtRest (s : Server) : Prop where
  inShutdown : s.inShutdown = true
  callbacks : ∀ c ∈ s.callbacks, ¬ c.Starts
  handlers : ∀ h ∈ s.handlers, h ≠ .running

section
variable {processors : Nat} {s s' : Server}
variable {e : Event}

theorem callback_cases {i : Nat} {c : CallbackPoint} (h : s.callback processors i e c = some s') :
    (c = .check ∧ s' = { s with callbacks := s.callbacks.set i (if s.inShutdown then .refused else .loop processors) }) ∨
    (∃ left, c = .loop (left + 1) ∧
      s' = { s with callbacks := s.callbacks.set i (.added left), activeConns := s.activeConns + 1 }) ∨
    ∃ left, c = .added left ∧
      s' = { s with callbacks := s.callbacks.set i (.loop left), handlers := s.handlers ++ [.running] } := by
  unfold Server.callback at h
  split at h
  · exact .inl ⟨rfl, (some.inj h).symm⟩
  · exact .inr (.inl ⟨_, rfl, (some.inj h).symm⟩)
  · exact .inr (.inr ⟨_, rfl, (some.inj h).symm⟩)
  · cases h

theorem ne_waiting_of_advance {point : ShutdownPoint} (h : s.advance e = some point) (he : e ≠ .shutdown) :
    point ≠ .waiting := by
  unfold Server.advance at h
  split at h <;> try split_ifs at h
  all_goals first
    | exact absurd rfl he
    | (cases h <;> nofun)

theorem Inv.callback {i : Nat} (h : Inv s)
    (hnext : s.callbacks[i]?.bind (s.callback processors i e) = some s') : Inv s' := by
  obtain ⟨c, hc, hstep⟩ := bind_eq_some_iff.1 hnext
  have hcounted := h.counted
  have hset := sum_map_set CallbackPoint.owed hc
  rcases callback_cases hstep with ⟨rfl, rfl⟩ | ⟨left, rfl, rfl⟩ | ⟨left, rfl, rfl⟩
  · refine ⟨?_, h.flagged⟩
    have hsame := hset (if s.inShutdown then .refused else .loop processors)
    have hzero : (if s.inShutdown then CallbackPoint.refused else .loop processors).owed = 0 := by split_ifs <;> rfl
    rw [hzero, show CallbackPoint.check.owed = 0 from rfl] at hsame
    simp only
    omega
  · refine ⟨?_, h.flagged⟩
    have hmore := hset (.added left)
    simp only [CallbackPoint.owed] at hmore ⊢
    omega
  · refine ⟨?_, h.flagged⟩
    have hless := hset (.loop left)
    simp only [CallbackPoint.owed] at hless
    simp only [map_append, sum_append, map_cons, map_nil, sum_singleton, HandlerPoint.owed]
    omega

theorem Inv.step (h : Inv s) (hnext : s.next processors e = some s') : Inv s' := by
  have hcounted := h.counted
  cases e with
  | connect =>
    cases hnext
    refine ⟨?_, h.flagged⟩
    simpa [CallbackPoint.owed] using hcounted
  | check i => exact h.callback hnext
  | add i => exact h.callback hnext
  | start i => exact h.callback hnext
  | handled j =>
    simp only [Server.next] at hnext
    split_ifs at hnext with hj
    cases hnext
    have hset := sum_map_set HandlerPoint.owed hj .returned
    refine ⟨?_, h.flagged⟩
    simp only [HandlerPoint.owed] at hset ⊢
    omega
  | done j =>
    simp only [Server.next] at hnext
    split_ifs at hnext with hj
    cases hnext
    have hset := sum_map_set HandlerPoint.owed hj .ended
    refine ⟨?_, h.flagged⟩
    simp only [HandlerPoint.owed] at hset ⊢
    omega
  | shutdown =>
    obtain ⟨point, -, rfl⟩ := map_eq_some_iff.1 hnext
    exact ⟨hcounted, fun _ => rfl⟩
  | _ =>
    obtain ⟨point, hpoint, rfl⟩ := map_eq_some_iff.1 hnext
    exact ⟨hcounted, fun hwaiting => absurd hwaiting (ne_waiting_of_advance hpoint nofun)⟩

theorem AtRest.callback {i : Nat} (h : AtRest s)
    (hnext : s.callbacks[i]?.bind (s.callback processors i e) = some s') : AtRest s' := by
  obtain ⟨c, hc, hstep⟩ := bind_eq_some_iff.1 hnext
  have hrest := h.callbacks c (mem_of_getElem? hc)
  rcases callback_cases hstep with ⟨rfl, rfl⟩ | ⟨left, rfl, rfl⟩ | ⟨left, rfl, rfl⟩
  · refine ⟨h.inShutdown, fun c hmem => ?_, h.handlers⟩
    rcases mem_or_eq_of_mem_set hmem with hold | rfl
    · exact h.callbacks c hold
    · rw [h.inShutdown]
      exact id
  · exact absurd (Nat.succ_ne_zero left) hrest
  · exact absurd trivial hrest

theorem AtRest.step (h : AtRest s) (hnext : s.next processors e = some s') : AtRest s' := by
  have hhandlers : ∀ j point, point ≠ .running → ∀ p ∈ s.handlers.set j point, p ≠ .running := by
    intro j point hpoint p hp
    rcases mem_or_eq_of_mem_set hp with hold | rfl
    · exact h.handlers p hold
    · exact hpoint
  cases e with
  | connect =>
    cases hnext
    refine ⟨h.inShutdown, fun c hmem => ?_, h.handlers⟩
    rcases mem_append.1 hmem with hold | hnew
    · exact h.callbacks c hold
    · rw [mem_singleton.1 hnew]
      exact id
  | check i => exact h.callback hnext
  | add i => exact h.callback hnext
  | start i => exact h.callback hnext
  | handled j =>
    simp only [Server.next] at hnext
    split_ifs at hnext with hj
    cases hnext
    exact ⟨h.inShutdown, h.callbacks, hhandlers j _ nofun⟩
  | done j =>
    simp only [Server.next] at hnext
    split_ifs at hnext with hj
    cases hnext
    exact ⟨h.inShutdown, h.callbacks, hhandlers j _ nofun⟩
  | shutdown =>
    obtain ⟨point, -, rfl⟩ := map_eq_some_iff.1 hnext
    exact ⟨rfl, h.callbacks, h.handlers⟩
  | _ =>
    obtain ⟨point, -, rfl⟩ := map_eq_some_iff.1 hnext
    exact ⟨h.inShutdown, h.callbacks, h.handlers⟩
end

def Drains (processors : Nat) (s : Server) : Prop :=
  ∀ later, ((server processors).after s later).shutdown = .returned true →
    ∀ h ∈ ((server processors).after s later).handlers, h ≠ .running

/-- After every run in which `Shutdown` gets behind the `WaitGroup`: no handler runs or starts once it has
returned `nil`, exactly if no callback has something to start at that moment. -/
theorem drains_iff (processors : Nat) (events : List Event) {s' : Server}
    (h : ((server processors).after newServer events).next processors .wait = some s') :
    Drains processors s' ↔ ∀ c ∈ s'.callbacks, ¬ c.Starts := by
  have hinv : Inv ((server processors).after newServer events) :=
    invariant_after (guarded_keeps fun s e s' hnext hs => hs.step hnext) ⟨rfl, nofun⟩ events
  generalize (server processors).after newServer events = s at h hinv
  obtain ⟨hwaiting, hzero, rfl⟩ : s.shutdown = .waiting ∧ s.activeConns = 0 ∧ s' = { s with shutdown := .drained } := by
    obtain ⟨point, hpoint, rfl⟩ := map_eq_some_iff.1 h
    cases hshutdown : s.shutdown with
    | waiting =>
      simp only [Server.advance, hshutdown] at hpoint
      split_ifs at hpoint with hzero
      cases hpoint
      exact ⟨rfl, hzero, rfl⟩
    | _ => simp [Server.advance, hshutdown] at hpoint
  constructor
  · intro hdrains c hc hstarts
    obtain ⟨i, hi⟩ := getElem?_of_mem hc
    obtain ⟨hlt, hget⟩ := List.getElem?_eq_some_iff.1 hi
    simp only at hlt hget
    cases c with
    | check => exact hstarts
    | refused => exact hstarts
    | added left =>
      refine hdrains [.finish true, .start i] ?_ .running ?_ rfl
      all_goals simp [server, Machine.guarded, Server.next, Server.advance, hlt, hget, Server.callback]
    | loop left =>
      obtain ⟨left, rfl⟩ := Nat.exists_eq_succ_of_ne_zero hstarts
      refine hdrains [.finish true, .add i, .start i] ?_ .running ?_ rfl
      all_goals simp [server, Machine.guarded, Server.next, Server.advance, hlt, hget, Server.callback]
  · intro hquiet later hreturned
    have hcounted := hinv.counted
    rw [hzero] at hcounted
    have hrest : AtRest { s with shutdown := .drained } := by
      refine ⟨hinv.flagged hwaiting, hquiet, fun p hp => ?_⟩
      rintro rfl
      obtain ⟨j, hj⟩ := getElem?_of_mem hp
      have hset := sum_map_set HandlerPoint.owed hj .ended
      simp only [HandlerPoint.owed] at hset hcounted
      omega
    exact (invariant_after (guarded_keeps fun s e s' hnext hs => hs.step hnext) hrest later).handlers

theorem handler_after_shutdown :
    let s := (server 2).after newServer [.connect, .check 0, .shutdown, .wait, .finish true, .add 0, .start 0]
    s.shutdown = .returned true ∧ s.handlers = [.running] := ⟨rfl, rfl⟩

theorem drains_iff_handled : Drains 1 ((server 1).after newServer
    [.connect, .check 0, .add 0, .start 0, .handled 0, .done 0, .shutdown, .wait]) := by
  refine (drains_iff 1 [.connect, .check 0, .add 0, .start 0, .handled 0, .done 0, .shutdown] rfl).2 fun c hc => ?_
  rw [mem_singleton.1 hc]
  exact fun h => h rfl

end HelixRpc.Runtime.Go.Shutdown
