import HelixRpc.Foundation.Parties
import HelixRpc.Foundation.Quiescence
import HelixRpc.Runtime.PortRetry

/-!
# Hedged requests of the Rust and Python clients

Model of `execute_with_hedging` (`runtimes/rust/src/retry.rs`).
-/

namespace HelixRpc.Runtime

open Foundation Runtime.PortRetry List Option
open HelixRpc.Runtime.Go (Text)
open HelixRpc.Runtime.Go.Retry (Recorded)

namespace PortHedging

variable {ω ι T Err : Type}

structure Attempt (ω ι T Err : Type) where
  start : ω
  work : Machine ω ι (Option Recorded)
  result : ω → Option (Except Err T)

inductive MainPoint (T Err : Type) where
  | wait
  | consume
  | collect (last : Option Err)
  | returned (result : Except Err T)

/-- Where a result takes the caller, and whether it is an error that it keeps from before the delay. -/
def MainPoint.receive (returnsEarly : Bool) : MainPoint T Err → Except Err T → Option (MainPoint T Err × Bool)
  | .wait, .ok value => some (.returned (.ok value), false)
  | .wait, .error err => if returnsEarly then some (.returned (.error err), false) else some (.consume, true)
  | .collect _, .ok value => some (.returned (.ok value), false)
  | .collect none, .error err => some (.collect (some err), false)
  | .collect (some _), .error err => some (.returned (.error err), false)
  | _, _ => none

/-- All parties, with what was received, whether an error came before the delay had passed, and whether the
bucket has refused a hedge. -/
structure System (ω T Err : Type) where
  main : MainPoint T Err
  attempts : List ω
  channel : List (Except Err T)
  received : List (Except Err T)
  early : Bool
  refused : Bool

inductive Event (ι : Type) where
  | work (i : Nat) (input : ι)
  | receive
  | timeout
  | consume (answer : Bool)

def Event.Completes (Completes : ι → Prop) : Event ι → Prop
  | .work _ input => Completes input
  | _ => True

section
variable (a : Attempt ω ι T Err) (returnsEarly bucket : Bool) (s : System ω T Err)

def System.launch : System ω T Err :=
  { s with attempts := s.attempts ++ [a.start], channel := s.channel ++ (a.result a.start).toList }

def newSystem : System ω T Err := System.launch a ⟨.wait, [], [], [], false, false⟩

def sent (w : ω) (input : ι) : List (Except Err T) :=
  match a.result w with
  | some _ => []
  | none => (a.result (a.work w input).1).toList

def next : Event ι → Option (System ω T Err)
  | .work i input => s.attempts[i]?.map fun w =>
    { s with attempts := s.attempts.set i (a.work w input).1, channel := s.channel ++ sent a w input }
  | .receive =>
    match s.channel with
    | [] => none
    | m :: rest => (s.main.receive returnsEarly m).map fun point =>
      { s with main := point.1, channel := rest, received := s.received ++ [m], early := s.early || point.2 }
  | .timeout =>
    match s.main with
    | .wait => some { s with main := .consume }
    | _ => none
  | .consume answer =>
    match s.main with
    | .consume =>
      -- `can_hedge`
      if !bucket || answer then some (System.launch a { s with main := .collect none })
      else some { s with main := .collect none, refused := true }
    | _ => none

def recorded : Event ι → Option Recorded
  | .work i input => s.attempts[i]?.bind fun w => (a.work w input).2
  | _ => none

def hedging : Machine (System ω T Err) (Event ι) (Option Recorded) := fun s e =>
  ((next a returnsEarly bucket s e).getD s, recorded a s e)
end

structure Attempt.Ends (a : Attempt ω ι T Err) (Completes : ι → Prop) (Good : ω → Prop) (rank : ω → Nat) : Prop where
  start : Good a.start
  keeps : ∀ w input, Good w → Completes input → Good (a.work w input).1
  lowers : ∀ w input, Good w → Completes input → (a.work w input).1 = w ∨ rank (a.work w input).1 < rank w
  stays : ∀ w result input, a.result w = some result → (a.work w input).1 = w
  finishes : ∀ w, Good w → (∀ input, Completes input → (a.work w input).1 = w) → (a.result w).isSome

def Errors (results : List (Except Err T)) : Prop := ∀ m ∈ results, ∃ err, m = .error err

def Placed (s : System ω T Err) : Prop :=
  match s.main with
  | .wait => s.attempts.length = 1 ∧ s.received = [] ∧ s.early = false ∧ s.refused = false
  | .consume => s.attempts.length = 1 ∧ s.received.length = s.early.toNat ∧ s.refused = false ∧ Errors s.received
  | .collect last => s.attempts.length + s.refused.toNat = 2 ∧
      s.received.length = s.early.toNat + last.toList.length ∧ Errors s.received
  | .returned _ => (∃ value, .ok value ∈ s.received) ∨ (s.early = false ∧ s.refused = false)

structure Inv (a : Attempt ω ι T Err) (Good : ω → Prop) (returnsEarly : Bool) (s : System ω T Err) : Prop where
  results : (s.received ++ s.channel).Perm (s.attempts.filterMap a.result)
  good : ∀ w ∈ s.attempts, Good w
  placed : Placed s
  early : s.early = true → returnsEarly = false

def System.Returned (s : System ω T Err) : Prop := ∃ result, s.main = .returned result

def System.AllFailed (a : Attempt ω ι T Err) (s : System ω T Err) : Prop :=
  ∀ w ∈ s.attempts, ∃ err, a.result w = some (.error err)

def MainPoint.rank (hedge : Nat) : MainPoint T Err → Nat
  | .wait => hedge + 4
  | .consume => hedge + 3
  | .collect none => 2
  | .collect (some _) => 1
  | .returned _ => 0

def System.rank (a : Attempt ω ι T Err) (rank : ω → Nat) (s : System ω T Err) : Nat :=
  s.main.rank (rank a.start) + (s.attempts.map rank).sum

section
variable {a : Attempt ω ι T Err} {Completes : ι → Prop} {Good : ω → Prop} {rank : ω → Nat}
  {returnsEarly bucket : Bool} {s s' : System ω T Err}

theorem Errors.snoc {results : List (Except Err T)} (h : Errors results) (err : Err) :
    Errors (results ++ [.error err]) := by
  intro m hm
  rcases mem_append.1 hm with hearlier | hlast
  · exact h m hearlier
  · exact ⟨err, mem_singleton.1 hlast⟩

theorem Inv.launch_results (h : Inv a Good returnsEarly s) :
    (s.received ++ (s.channel ++ (a.result a.start).toList)).Perm ((s.attempts ++ [a.start]).filterMap a.result) := by
  have hstart : [a.start].filterMap a.result = (a.result a.start).toList := by
    cases hresult : a.result a.start <;> simp [hresult]
  rw [filterMap_append, hstart, ← append_assoc]
  exact h.results.append_right _

theorem Inv.work (hends : a.Ends Completes Good rank) (h : Inv a Good returnsEarly s) {i : Nat} {w : ω} {input : ι}
    (hinput : Completes input) (hw : s.attempts[i]? = some w) : Inv a Good returnsEarly
    { s with attempts := s.attempts.set i (a.work w input).1, channel := s.channel ++ sent a w input } := by
  refine ⟨?_, fun w' hw' => ?_, ?_, h.early⟩
  · have hset := Parties.filterMap_set_perm a.result hw (a.work w input).1
    rw [← append_assoc, sent]
    cases hresult : a.result w with
    | some result =>
      -- an attempt that has a result keeps it
      obtain ⟨hi, hget⟩ := List.getElem?_eq_some_iff.1 hw
      rw [hends.stays w result input hresult, append_nil, ← hget, set_getElem_self]
      exact h.results
    | none =>
      rw [hresult] at hset
      exact (perm_append_comm.trans (h.results.append_left _)).trans hset.symm
  · rcases mem_or_eq_of_mem_set hw' with hother | rfl
    · exact h.good w' hother
    · exact hends.keeps w input (h.good w (mem_of_getElem? hw)) hinput
  · have hplaced := h.placed
    unfold Placed at hplaced ⊢
    rwa [length_set]

theorem Placed.receive (h : Placed s) {m : Except Err T} (hcount : s.received.length + 1 ≤ s.attempts.length)
    {main : MainPoint T Err} {early : Bool} (hmain : s.main.receive returnsEarly m = some (main, early))
    (rest : List (Except Err T)) :
    Placed { s with main := main, channel := rest, received := s.received ++ [m], early := s.early || early } := by
  have hlast : m ∈ s.received ++ [m] := mem_append_right _ mem_cons_self
  unfold Placed at h ⊢
  cases m with
  | ok value =>
    have hreturned : main = .returned (.ok value) := by
      cases hpoint : s.main <;> rw [hpoint] at hmain <;> cases hmain <;> rfl
    rw [hreturned]
    exact .inl ⟨value, hlast⟩
  | error err =>
    cases hpoint : s.main with
    | wait =>
      rw [hpoint] at hmain h
      obtain ⟨hattempts, hnone, hearly, hrefused⟩ := h
      simp only [MainPoint.receive] at hmain
      split_ifs at hmain
      · cases hmain
        exact .inr ⟨by rw [hearly]; rfl, hrefused⟩
      · cases hmain
        refine ⟨hattempts, by simp [hnone], hrefused, ?_⟩
        rw [hnone]
        exact Errors.snoc (forall_mem_nil _) err
    | collect last =>
      rw [hpoint] at hmain h
      obtain ⟨hattempts, hlength, herrors⟩ := h
      cases last with
      | none =>
        cases hmain
        exact ⟨hattempts, by simp [hlength], herrors.snoc err⟩
      | some first =>
        cases hmain
        -- two results behind the delay are those of two attempts, so neither came before it
        have hboth : s.early.toNat = 0 ∧ s.refused.toNat = 0 := by
          rw [toList_some, length_singleton] at hlength
          omega
        refine .inr ⟨?_, Bool.toNat_eq_zero.1 hboth.2⟩
        rw [Bool.toNat_eq_zero.1 hboth.1]
        rfl
    | consume =>
      rw [hpoint] at hmain
      cases hmain
    | returned result =>
      rw [hpoint] at hmain
      cases hmain

theorem Inv.count_le (h : Inv a Good returnsEarly s) : s.received.length + s.channel.length ≤ s.attempts.length := by
  rw [← length_append, h.results.length_eq]
  exact length_filterMap_le _ _

theorem early_of_receive {m : Except Err T} {main main' : MainPoint T Err} {early : Bool}
    (h : main.receive returnsEarly m = some (main', early)) :
    (early = true → returnsEarly = false) ∧ ∀ hedge, main'.rank hedge < main.rank hedge := by
  revert h
  fun_cases MainPoint.receive returnsEarly main m
  case case2 err hport => rintro ⟨⟩; exact ⟨nofun, fun hedge => Nat.succ_pos _⟩
  case case3 err hport => rintro ⟨⟩; exact ⟨fun _ => Bool.of_not_eq_true hport, fun hedge => Nat.lt_succ_self _⟩
  case case4 last value => rintro ⟨⟩; exact ⟨nofun, fun hedge => by cases last <;> exact Nat.succ_pos _⟩
  case case7 => nofun
  all_goals rintro ⟨⟩; exact ⟨nofun, fun hedge => by simp only [MainPoint.rank]; omega⟩

theorem Inv.step (hends : a.Ends Completes Good rank) (h : Inv a Good returnsEarly s) {e : Event ι}
    (he : e.Completes Completes) (hnext : next a returnsEarly bucket s e = some s') :
    Inv a Good returnsEarly s' ∧ (s' = s ∨ s'.rank a rank < s.rank a rank) := by
  cases e with
  | work i input =>
    obtain ⟨w, hw, rfl⟩ := map_eq_some_iff.1 hnext
    refine ⟨h.work hends he hw, ?_⟩
    rcases hends.lowers w input (h.good w (mem_of_getElem? hw)) he with hsame | hlower
    · left
      have hsent : sent a w input = [] := by
        unfold sent
        cases hresult : a.result w with
        | none => simp [hsame, hresult]
        | some result => rfl
      obtain ⟨hi, hget⟩ := List.getElem?_eq_some_iff.1 hw
      rw [hsame, hsent, append_nil, ← hget, set_getElem_self]
    · right
      have hsum := sum_map_set rank hw (a.work w input).1
      simp only [System.rank]
      omega
  | receive =>
    simp only [next] at hnext
    split at hnext
    · cases hnext
    · rename_i m rest hchannel
      obtain ⟨⟨main, early⟩, hmain, rfl⟩ := map_eq_some_iff.1 hnext
      have hcount := h.count_le
      rw [hchannel, length_cons] at hcount
      refine ⟨⟨?_, h.good, h.placed.receive (by omega) hmain rest, fun hearly => ?_⟩, .inr ?_⟩
      · have hresults := h.results
        rw [hchannel] at hresults
        rwa [append_assoc, singleton_append]
      · exact (Bool.or_eq_true_iff.1 hearly).elim h.early (early_of_receive hmain).1
      · exact Nat.add_lt_add_right ((early_of_receive hmain).2 _) _
  | timeout =>
    simp only [next] at hnext
    split at hnext
    · rename_i hmain
      cases hnext
      have hplaced := h.placed
      simp only [Placed, hmain] at hplaced
      obtain ⟨hattempts, hnone, hearly, hrefused⟩ := hplaced
      refine ⟨⟨h.results, h.good, ⟨hattempts, ?_, hrefused, ?_⟩, h.early⟩, .inr ?_⟩
      · simp [hnone, hearly]
      · simp only [hnone]
        exact nofun
      · simp only [System.rank, hmain, MainPoint.rank]
        omega
    · cases hnext
  | consume answer =>
    simp only [next] at hnext
    split at hnext
    · rename_i hmain
      have hplaced := h.placed
      simp only [Placed, hmain] at hplaced
      obtain ⟨hattempts, hlength, hrefused, herrors⟩ := hplaced
      split_ifs at hnext
      · cases hnext
        refine ⟨⟨h.launch_results, fun w hw => ?_, ⟨?_, hlength, herrors⟩, h.early⟩, .inr ?_⟩
        · rcases mem_append.1 hw with hold | hnew
          · exact h.good w hold
          · rw [mem_singleton.1 hnew]
            exact hends.start
        · simp [System.launch, hattempts, hrefused]
        · simp only [System.rank, System.launch, hmain, MainPoint.rank, map_append, sum_append,
            map_cons, map_nil, sum_singleton]
          omega
      · cases hnext
        refine ⟨⟨h.results, h.good, ⟨by simp [hattempts], hlength, herrors⟩, h.early⟩, .inr ?_⟩
        simp only [System.rank, hmain, MainPoint.rank]
        omega
    · cases hnext

theorem inv_newSystem (hends : a.Ends Completes Good rank) : Inv a Good returnsEarly (newSystem a) := by
  refine ⟨?_, fun w hw => ?_, ⟨rfl, rfl, rfl, rfl⟩, nofun⟩
  · simp only [newSystem, System.launch, nil_append]
    cases hresult : a.result a.start <;> simp [hresult]
  · rw [mem_singleton.1 hw]
    exact hends.start

theorem Inv.not_starved (h : Inv a Good returnsEarly s) (hreturned : s.Returned) :
    ¬ (s.AllFailed a ∧ (s.refused = true ∨ s.early = true)) := by
  rintro ⟨hfailed, hstarved⟩
  obtain ⟨result, hmain⟩ := hreturned
  have hplaced := h.placed
  simp only [Placed, hmain] at hplaced
  rcases hplaced with ⟨value, hvalue⟩ | ⟨hearly, hrefused⟩
  · obtain ⟨w, hw, hresult⟩ := mem_filterMap.1 (h.results.subset (mem_append_left _ hvalue))
    obtain ⟨err, herr⟩ := hfailed w hw
    rw [herr] at hresult
    cases hresult
  · rw [hearly, hrefused] at hstarved
    rcases hstarved with hno | hno <;> cases hno

theorem Inv.starved_of_quiet (hends : a.Ends Completes Good rank) (h : Inv a Good returnsEarly s)
    (hquiet : (hedging a returnsEarly bucket).Quiescent (Event.Completes Completes) s) (hwaits : ¬ s.Returned) :
    s.AllFailed a ∧ (s.refused = true ∨ s.early = true) := by
  have hmain : ∃ last, s.main = .collect last := by
    cases hmain : s.main with
    | wait =>
      have hstep := congrArg System.main (hquiet .timeout trivial)
      simp [hedging, next, hmain] at hstep
    | consume =>
      have hstep := congrArg System.main (hquiet (.consume true) trivial)
      simp [hedging, next, System.launch, hmain] at hstep
    | collect last => exact ⟨last, rfl⟩
    | returned result => exact absurd ⟨result, hmain⟩ hwaits
  obtain ⟨last, hmain⟩ := hmain
  have hchannel : s.channel = [] := by
    cases hchannel : s.channel with
    | nil => rfl
    | cons m rest =>
      have hstep := congrArg (fun s => s.channel.length) (hquiet .receive trivial)
      cases last <;> cases m <;> simp [hedging, next, MainPoint.receive, hchannel, hmain] at hstep
  -- an attempt that takes no more steps has a result
  have hresults : ∀ w ∈ s.attempts, (a.result w).isSome := by
    intro w hw
    obtain ⟨i, hi, hget⟩ := mem_iff_getElem.1 hw
    refine hends.finishes w (h.good w hw) fun input hinput => ?_
    have hstep := congrArg (fun s => s.attempts[i]?) (hquiet (.work i input) hinput)
    simpa [hedging, next, getElem?_set_self hi, getElem?_eq_getElem hi, hget] using hstep
  have hperm := h.results
  rw [hchannel, append_nil] at hperm
  have hcount : s.received.length = s.attempts.length := by
    rw [hperm.length_eq, filterMap_length_eq_length]
    exact hresults
  have hplaced := h.placed
  simp only [Placed, hmain] at hplaced
  obtain ⟨hattempts, hlength, herrors⟩ := hplaced
  refine ⟨fun w hw => ?_, ?_⟩
  · obtain ⟨result, hresult⟩ := isSome_iff_exists.1 (hresults w hw)
    obtain ⟨err, rfl⟩ := herrors result (hperm.symm.subset (mem_filterMap.2 ⟨w, hw, hresult⟩))
    exact ⟨err, hresult⟩
  · -- with both attempts, two results behind the delay would have made the caller return
    by_contra hneither
    rw [not_or, Bool.not_eq_true, Bool.not_eq_true] at hneither
    rw [hneither.1, Bool.toNat_false] at hattempts
    rw [hneither.2, Bool.toNat_false] at hlength
    have hlast : last.toList.length ≤ 1 := by cases last <;> simp
    omega

/-- The system comes to rest, and then the caller has returned unless all attempts have failed and it has
lost one of them, by a refusal or to an error from before the delay. -/
theorem hedging_settles (hends : a.Ends Completes Good rank) {events : List (Event ι)} (hevents : ∀ e ∈ events,
    e.Completes Completes) : (hedging a returnsEarly bucket).Settles (Event.Completes Completes) (fun s => (s.Returned ↔
    ¬ (s.AllFailed a ∧ (s.refused = true ∨ s.early = true))) ∧ (s.early = true → returnsEarly =
    false)) ((hedging a returnsEarly bucket).after (newSystem a) events) := by
  have hstep : ∀ s e, Inv a Good returnsEarly s → e.Completes Completes →
      Inv a Good returnsEarly (hedging a returnsEarly bucket s e).1 ∧ ((hedging a returnsEarly bucket s e).1 = s ∨
        (hedging a returnsEarly bucket s e).1.rank a rank < s.rank a rank) := by
    intro s e hs he
    simp only [hedging]
    cases hnext : next a returnsEarly bucket s e with
    | none => exact ⟨hs, .inl rfl⟩
    | some s' => exact hs.step hends he hnext
  have hsteps : (hedging a returnsEarly bucket).AllSteps (fun _ e => e.Completes Completes) (newSystem a) events :=
    Machine.allSteps_of_forall_mem fun e he _ => hevents e he
  refine Machine.settles_of_rank (fun s e hs he => (hstep s e hs he).1) (fun s e hs he => (hstep s e hs he).2)
    (fun s hs hquiet => ⟨⟨hs.not_starved, fun hfed => ?_⟩, hs.early⟩)
    (hsteps.invariant (fun s e hs he => (hstep s e hs he).1) (inv_newSystem hends))
  by_contra hwaits
  exact hfed (hs.starved_of_quiet hends hquiet hwaits)

theorem quiescent_of_results (hends : a.Ends Completes Good rank) (last : Option Err) (hmain : s.main = .collect last)
    (hchannel : s.channel = []) (hresults : ∀ w ∈ s.attempts, (a.result w).isSome) :
    (hedging a returnsEarly bucket).Quiescent (fun _ => True) s := by
  intro e _
  cases e with
  | work i input =>
    cases hw : s.attempts[i]? with
    | none => simp [hedging, next, hw]
    | some w =>
      obtain ⟨result, hresult⟩ := isSome_iff_exists.1 (hresults w (mem_of_getElem? hw))
      obtain ⟨hi, hget⟩ := List.getElem?_eq_some_iff.1 hw
      simp only [hedging, next, hw, map_some, getD_some, sent, hresult, append_nil, hends.stays w result input hresult]
      rw [← hget, set_getElem_self]
  | receive => simp [hedging, next, hchannel]
  | timeout => simp [hedging, next, hmain]
  | consume answer => simp [hedging, next, hmain]
end

end PortHedging

open PortHedging
variable {B T Exc : Type}

namespace Rust

inductive Call (T : Type) where
  | running
  | finished (outcome : Except Text T)
  | panicked

inductive CallInput (T : Type) where
  | returns (outcome : Except Text T)
  | panics

def spawnedCall : Machine (Call T) (CallInput T) (Option Recorded) := fun c input =>
  match c, input with
  | .running, .returns outcome => (.finished outcome, none)
  | .running, .panics => (.panicked, none)
  | c, _ => (c, none)

def Call.result : Call T → Option (Except Text T)
  | .finished outcome => some outcome
  | _ => none

def attempt (T : Type) : Attempt (Call T) (CallInput T) T Text := ⟨.running, spawnedCall, Call.result⟩

def Call.rank : Call T → Nat
  | .running => 1
  | _ => 0

theorem attempt_ends : (attempt T).Ends (· ≠ .panics) (· ≠ .panicked) Call.rank where
  start := nofun
  keeps w input hw hinput := by
    cases w with
    | running =>
      cases input with
      | returns outcome => simp [attempt, spawnedCall]
      | panics => exact absurd rfl hinput
    | finished outcome => simp [attempt, spawnedCall]
    | panicked => exact absurd rfl hw
  lowers w input hw hinput := by
    cases w with
    | running => cases input <;> exact .inr Nat.zero_lt_one
    | _ => exact .inl rfl
  stays w result input h := by
    cases w with
    | finished outcome => rfl
    | _ => cases h
  finishes w hw hrest := by
    cases w with
    | running => simpa [attempt, spawnedCall] using hrest (.returns (.error [])) nofun
    | finished outcome => rfl
    | panicked => exact absurd rfl hw

def executeWithHedging (policy : RetryPolicy B) :
    Machine (System (Call T) T Text) (PortHedging.Event (CallInput T)) (Option Recorded) :=
  hedging (attempt T) true policy.hedgeBucket

end Rust

namespace Python

variable (policy : RetryPolicy B Exc)

def runAttempt (T : Type) : Attempt (Loop B T Exc) (LoopInput T Exc) T Exc :=
  ⟨newLoop policy.loopPolicy, loop policy.loopPolicy, Loop.result⟩

theorem runAttempt_ends : (runAttempt policy T).Ends (· ≠ .interrupted) (Loop.Bounded policy.loopPolicy)
    (Loop.rank policy.loopPolicy) where
  start := bounded_newLoop _
  keeps w input hw hinput := hw.step nofun hinput (loop_cases _ w input)
  lowers w input hw _ := (loop_cases _ w input).rank_lt hw
  stays _ _ input h := congrArg Prod.fst (loop_of_result _ h input)
  finishes _ hw hrest := hw.result_of_rest nofun hrest

def executeWithHedging : Machine (System (Loop B T Exc) T Exc) (PortHedging.Event (LoopInput T Exc))
    (Option Recorded) :=
  hedging (runAttempt policy T) false policy.hedgeBucket

end Python

section
/-- Operations that return are followed by the return of the caller, apart from these cases: in
Rust the primary fails and the hedge was refused; in Python also all attempts fail and the error of the primary came
before the delay. -/
theorem hedging_returns_iff (rust : Rust.RetryPolicy B) (python : Python.RetryPolicy B Exc)
    {rustEvents : List (PortHedging.Event (Rust.CallInput T))} {pythonEvents : List (PortHedging.Event (LoopInput T Exc))}
    (hrust : ∀ e ∈ rustEvents, e.Completes (· ≠ .panics))
    (hpython : ∀ e ∈ pythonEvents, e.Completes (· ≠ .interrupted)) :
    (Rust.executeWithHedging rust).Settles (Event.Completes (· ≠ .panics))
        (fun s => s.Returned ↔ ¬ (s.AllFailed (Rust.attempt T) ∧ s.refused = true))
        ((Rust.executeWithHedging rust).after (newSystem (Rust.attempt T)) rustEvents) ∧
      (Python.executeWithHedging python).Settles (Event.Completes (· ≠ .interrupted))
        (fun s => s.Returned ↔ ¬ (s.AllFailed (Python.runAttempt python T) ∧ (s.refused = true ∨ s.early = true)))
        ((Python.executeWithHedging python).after (newSystem (Python.runAttempt python T)) pythonEvents) := by
  refine ⟨(hedging_settles Rust.attempt_ends hrust).imp fun s hs => ?_,
    (hedging_settles (Python.runAttempt_ends python) hpython).imp fun s hs => hs.1⟩
  -- no error is kept from before the delay
  have hearly : ¬ s.early = true := fun hearly => Bool.noConfusion (hs.2 hearly)
  rw [hs.1, or_iff_left hearly]

theorem hedging_returns_iff_slow : let rust : Rust.RetryPolicy Nat := ⟨1, 0, some, true, true, false⟩
    let python : Python.RetryPolicy Nat Nat := ⟨1, 0, id, 0, true, true, false⟩
    (Rust.executeWithHedging rust).Settles (Event.Completes (· ≠ .panics))
        (fun s => s.Returned ↔ ¬ (s.AllFailed (Rust.attempt Nat) ∧ s.refused = true))
        ((Rust.executeWithHedging rust).after (newSystem (Rust.attempt Nat))
          [.timeout, .consume true, .work 0 (.returns (.error []))]) ∧
      (Python.executeWithHedging python).Settles (Event.Completes (· ≠ .interrupted))
        (fun s => s.Returned ↔ ¬ (s.AllFailed (Python.runAttempt python Nat) ∧ (s.refused = true ∨ s.early = true)))
        ((Python.executeWithHedging python).after (newSystem (Python.runAttempt python Nat))
          [.timeout, .consume true, .work 0 (.operation (.error 7))]) :=
  hedging_returns_iff _ _ (by simp [Event.Completes]) (by simp [Event.Completes])

theorem hedging_waits_for_ever : (let rust : Rust.RetryPolicy Nat := ⟨1, 0, some, true, true, false⟩
      let s := (Rust.executeWithHedging rust).after (newSystem (Rust.attempt Nat))
        [.timeout, .consume false, .work 0 (.returns (.error [])), .receive]
      (Rust.executeWithHedging rust).Quiescent (fun _ => True) s ∧ ¬ s.Returned) ∧
    (let python : Python.RetryPolicy Nat Nat := ⟨1, 0, id, 0, true, false, false⟩
      let s := (Python.executeWithHedging python).after (newSystem (Python.runAttempt python Nat))
        [.work 0 (.operation (.error 7)), .receive, .consume true, .work 1 (.operation (.error 8)), .receive]
      (Python.executeWithHedging python).Quiescent (fun _ => True) s ∧ ¬ s.Returned) := by
  constructor
  · refine ⟨quiescent_of_results Rust.attempt_ends (some []) rfl rfl ?_, fun ⟨result, h⟩ => ?_⟩
    · exact forall_mem_singleton.2 rfl
    · change MainPoint.collect (some []) = _ at h
      cases h
  · refine ⟨quiescent_of_results (Python.runAttempt_ends _) (some 8) rfl rfl ?_, fun ⟨result, h⟩ => ?_⟩
    · exact forall_mem_cons.2 ⟨rfl, forall_mem_singleton.2 rfl⟩
    · change MainPoint.collect (some 8) = _ at h
      cases h
end

end HelixRpc.Runtime
