import HelixRpc.Runtime.Go.CircuitBreaker
import Mathlib.Data.List.Induction

/-!
# Histories of the Go circuit breaker

A run of the breaker is described by its history alone.
-/

namespace HelixRpc.Runtime.Go

open Foundation List Machine Int64

abbrev BreakerHistory := List (Observed CircuitBreaker TimedCall (Option Bool))

def restartsCount (o : Observed CircuitBreaker TimedCall (Option Bool)) : Bool :=
  o.after.state = .closed && (o.before.state ≠ .closed || o.input.call = .recordSuccess)

def failureCount : BreakerHistory → Nat
  | [] => 0
  | o :: earlier =>
    if restartsCount o then 0
    else if o.input.call = .recordFailure then failureCount earlier + 1
    else failureCount earlier

def successCount : BreakerHistory → Nat
  | [] => 0
  | o :: earlier =>
    if o.before.state ≠ .halfOpen ∧ o.after.state = .halfOpen then 0
    else if o.input.call = .recordSuccess then successCount earlier + 1
    else successCount earlier

section
variable {o : Observed CircuitBreaker TimedCall (Option Bool)}
variable (earlier : BreakerHistory)

theorem failureCount_restart (h : restartsCount o = true) : failureCount (o :: earlier) = 0 := if_pos h

theorem failureCount_fail (hcall : o.input.call = .recordFailure) (hclosed : o.after.state = .closed →
    o.before.state = .closed) : failureCount (o :: earlier) = failureCount earlier + 1 := by
  have hrestarts : restartsCount o ≠ true := by simpa [restartsCount, hcall] using hclosed
  rw [failureCount, if_neg hrestarts, if_pos hcall]

theorem successCount_enter (h : o.before.state ≠ .halfOpen)
    (h' : o.after.state = .halfOpen) : successCount (o :: earlier) = 0 :=
  if_pos ⟨h, h'⟩
end

def openedAt : BreakerHistory → Option Int64
  | [] => none
  | o :: earlier =>
    if o.before.state ≠ .opened ∧ o.after.state = .opened then some o.input.now
    else openedAt earlier

structure Tracks (cfg : BreakerConfig) (cb : CircuitBreaker) (h : BreakerHistory) : Prop where
  failures : cb.failures = Int64.ofNat (failureCount h)
  closed : cb.state = .closed → (failureCount h : Int) < max 1 cfg.maxFailures.toInt
  limit : cb.state ≠ .closed → cfg.maxFailures.toInt ≤ failureCount h
  successes : cb.state = .halfOpen → cb.successes.toInt = successCount h
  probes : cb.state = .halfOpen → (successCount h : Int) < max 1 cfg.halfOpenProbes.toInt
  opened : cb.state = .opened → openedAt h = some cb.lastOpenTime

theorem tracks_new (cfg : BreakerConfig) : Tracks cfg newCircuitBreaker [] where
  failures := rfl
  closed _ := by
    change (0 : Int) < max 1 _
    omega
  limit h := absurd rfl h
  successes := nofun
  probes := nofun
  opened := nofun

section
variable {cfg : BreakerConfig} {cb after : CircuitBreaker} {c : TimedCall} {answer : Option Bool}
  {h : BreakerHistory}

theorem Tracks.toInt_failures (ht : Tracks cfg cb h) (hcount : failureCount h < 2 ^ 63) :
    cb.failures.toInt = failureCount h := by rw [ht.failures, toInt_ofNat_of_lt hcount]

theorem Tracks.count_lt (ht : Tracks cfg cb h) (hstate : cb.state = .closed) : (failureCount h : Int) + 1 < 2 ^ 63 := by
  have hcount := ht.closed hstate
  have hmax := cfg.maxFailures.toInt_lt
  omega

theorem toInt_failures_succ (ht : Tracks cfg cb h) (hcount : (failureCount h : Int) + 1 < 2 ^ 63) :
    (cb.failures + 1).toInt = failureCount h + 1 := by
  have hfailures := ht.toInt_failures (by omega)
  rw [SignedWord.toInt_add_of_mem]
  · rw [hfailures, toInt_one]
  · rw [hfailures, toInt_one]
    omega
  · rw [hfailures, toInt_one]
    omega

theorem failures_succ (ht : Tracks cfg cb h) : cb.failures + 1 = Int64.ofNat (failureCount h + 1) := by
  rw [ht.failures, ofNat_add]
  rfl

theorem Tracks.ofClosed (hstate : cb.state = .closed) (hfailures : cb.failures = Int64.ofNat (failureCount h))
    (hcount : (failureCount h : Int) < max 1 cfg.maxFailures.toInt) : Tracks cfg cb h where
  failures := hfailures
  closed _ := hcount
  limit hne := absurd hstate hne
  successes hhalf := by rw [hstate] at hhalf; cases hhalf
  probes hhalf := by rw [hstate] at hhalf; cases hhalf
  opened hopened := by rw [hstate] at hopened; cases hopened

theorem Tracks.ofOpened (hstate : cb.state = .opened) (hfailures : cb.failures = Int64.ofNat (failureCount h))
    (hlimit : cfg.maxFailures.toInt ≤ failureCount h)
    (hopened : openedAt h = some cb.lastOpenTime) : Tracks cfg cb h where
  failures := hfailures
  closed hclosed := by rw [hstate] at hclosed; cases hclosed
  limit _ := hlimit
  successes hhalf := by rw [hstate] at hhalf; cases hhalf
  probes hhalf := by rw [hstate] at hhalf; cases hhalf
  opened _ := hopened

theorem Tracks.ofHalfOpen (hstate : cb.state = .halfOpen) (hfailures : cb.failures = Int64.ofNat (failureCount h))
    (hlimit : cfg.maxFailures.toInt ≤ failureCount h) (hsuccesses : cb.successes.toInt = successCount h)
    (hprobes : (successCount h : Int) < max 1 cfg.halfOpenProbes.toInt) : Tracks cfg cb h where
  failures := hfailures
  closed hclosed := by rw [hstate] at hclosed; cases hclosed
  limit _ := hlimit
  successes _ := hsuccesses
  probes _ := hprobes
  opened hopened := by rw [hstate] at hopened; cases hopened

theorem Tracks.keep (ht : Tracks cfg cb h) (hfailure : c.call ≠ .recordFailure) (hsuccess : c.call = .recordSuccess →
    cb.state = .opened) : Tracks cfg cb (⟨cb, c, answer, cb⟩ :: h) := by
  have hrestarts : restartsCount ⟨cb, c, answer, cb⟩ = false := by
    by_cases hcall : c.call = .recordSuccess
    · simp [restartsCount, hsuccess hcall]
    · simp [restartsCount, hcall]
  have hfailures : failureCount (⟨cb, c, answer, cb⟩ :: h) = failureCount h := by
    simp [failureCount, hrestarts, hfailure]
  cases hstate : cb.state with
  | closed =>
    apply Tracks.ofClosed hstate
    · rw [hfailures, ht.failures]
    · rw [hfailures]
      exact ht.closed hstate
  | opened =>
    apply Tracks.ofOpened hstate
    · rw [hfailures, ht.failures]
    · rw [hfailures]
      exact ht.limit (by rw [hstate]; nofun)
    · simpa [openedAt] using ht.opened hstate
  | halfOpen =>
    have hcall : c.call ≠ .recordSuccess := fun hcall => by
      rw [hsuccess hcall] at hstate
      cases hstate
    have hsuccesses : successCount (⟨cb, c, answer, cb⟩ :: h) = successCount h := by simp [successCount, hcall]
    apply Tracks.ofHalfOpen hstate
    · rw [hfailures, ht.failures]
    · rw [hfailures]
      exact ht.limit (by rw [hstate]; nofun)
    · rw [hsuccesses]
      exact ht.successes hstate
    · rw [hsuccesses]
      exact ht.probes hstate

theorem Tracks.toInt_successes_succ (ht : Tracks cfg cb h) (hstate : cb.state = .halfOpen) :
    (cb.successes + 1).toInt = successCount h + 1 := by
  have hsuccesses := ht.successes hstate
  have hcount := ht.probes hstate
  have hmax := cfg.halfOpenProbes.toInt_lt
  rw [SignedWord.toInt_add_of_mem]
  · rw [hsuccesses, toInt_one]
  · rw [hsuccesses, toInt_one]
    omega
  · rw [hsuccesses, toInt_one]
    omega

theorem Tracks.fail (ht : Tracks cfg cb h) (hcall : c.call = .recordFailure)
    (hstate : cb.failures + 1 < cfg.maxFailures ∨ cb.state = .opened) :
    Tracks cfg { cb with failures := cb.failures + 1 }
      (⟨cb, c, answer, { cb with failures := cb.failures + 1 }⟩ :: h) := by
  have hfailures : failureCount (⟨cb, c, answer, { cb with failures := cb.failures + 1 }⟩ :: h) =
      failureCount h + 1 := failureCount_fail h hcall id
  have hword : cb.failures + 1 = Int64.ofNat (failureCount h + 1) := failures_succ ht
  rcases cb.state.eq_or with hcb | hcb | hcb
  · have hlt : cb.failures + 1 < cfg.maxFailures := hstate.resolve_right (by rw [hcb]; nofun)
    rw [lt_iff_toInt_lt, toInt_failures_succ ht (ht.count_lt hcb)] at hlt
    apply Tracks.ofClosed
    · exact hcb
    · rw [hfailures]
      exact hword
    · rw [hfailures]
      omega
  · have hlimit := ht.limit (by rw [hcb]; nofun)
    apply Tracks.ofOpened
    · exact hcb
    · rw [hfailures]
      exact hword
    · rw [hfailures]
      omega
    · simpa [openedAt, hcb] using ht.opened hcb
  · -- only a count that has wrapped around is below the limit here
    have hlimit := ht.limit (by rw [hcb]; nofun)
    apply Tracks.ofHalfOpen
    · exact hcb
    · rw [hfailures]
      exact hword
    · rw [hfailures]
      omega
    · simpa [successCount, hcall, hcb] using ht.successes hcb
    · simpa [successCount, hcall, hcb] using ht.probes hcb

theorem Tracks.count (ht : Tracks cfg cb h) (hcall : c.call = .recordSuccess) (hstate : cb.state = .halfOpen)
    (hfew : cb.successes + 1 < cfg.halfOpenProbes) : Tracks cfg { cb with successes := cb.successes + 1 }
      (⟨cb, c, answer, { cb with successes := cb.successes + 1 }⟩ :: h) := by
  have hsuccesses := ht.toInt_successes_succ hstate
  rw [lt_iff_toInt_lt, hsuccesses] at hfew
  apply Tracks.ofHalfOpen
  · exact hstate
  · simpa [failureCount, restartsCount, hcall, hstate] using ht.failures
  · simpa [failureCount, restartsCount, hcall, hstate] using ht.limit (by rw [hstate]; nofun)
  · simpa [successCount, hcall, hstate] using hsuccesses
  · simp [successCount, hcall, hstate]
    omega

theorem Tracks.trip (ht : Tracks cfg cb h) (hcall : c.call = .recordFailure)
    (hlimit : cfg.maxFailures ≤ cb.failures + 1) (hstate : cb.state ≠ .opened) :
    Tracks cfg { cb with state := .opened, failures := cb.failures + 1, lastOpenTime := c.now }
      (⟨cb, c, answer, { cb with state := .opened, failures := cb.failures + 1, lastOpenTime := c.now }⟩ :: h) := by
  have hfailures : failureCount (⟨cb, c, answer,
      { cb with state := .opened, failures := cb.failures + 1, lastOpenTime := c.now }⟩ :: h) =
      failureCount h + 1 := failureCount_fail h hcall (by intro hclosed; cases hclosed)
  apply Tracks.ofOpened
  · exact rfl
  · rw [hfailures]
    exact failures_succ ht
  · rw [hfailures]
    cases hcb : cb.state with
    | closed =>
      rw [le_iff_toInt_le, toInt_failures_succ ht (ht.count_lt hcb)] at hlimit
      exact hlimit
    | halfOpen =>
      have hbefore := ht.limit (by rw [hcb]; nofun)
      omega
    | opened => exact absurd hcb hstate
  · simp [openedAt, hstate]

theorem Tracks.step (ht : Tracks cfg cb h) (hstep : BreakerStep cfg cb c after answer) :
    Tracks cfg after (⟨cb, c, answer, after⟩ :: h) := by
  cases hstep with
  | pass hcall hstate => exact ht.keep (by rw [hcall]; nofun) (by rw [hcall]; nofun)
  | refuse hcall hstate hearly => exact ht.keep (by rw [hcall]; nofun) (by rw [hcall]; nofun)
  | ignore hcall hstate => exact ht.keep (by rw [hcall]; nofun) fun _ => hstate
  | fail hcall hstate => exact ht.fail hcall hstate
  | probe hcall hstate hlate =>
    apply Tracks.ofHalfOpen
    · exact rfl
    · simpa [failureCount, restartsCount, hcall] using ht.failures
    · simpa [failureCount, restartsCount, hcall] using ht.limit (by rw [hstate]; nofun)
    · simp [successCount, hstate]
    · rw [successCount_enter h (by rw [hstate]; nofun) rfl]
      omega
  | reset hcall hstate =>
    apply Tracks.ofClosed
    · exact hstate
    · simp [failureCount, restartsCount, hcall, hstate]
    · rw [failureCount_restart h (by simp [restartsCount, hcall, hstate])]
      omega
  | count hcall hstate hfew => exact ht.count hcall hstate hfew
  | close hcall hstate henough =>
    apply Tracks.ofClosed
    · exact rfl
    · simp [failureCount, restartsCount, hcall, hstate]
    · rw [failureCount_restart h (by simp [restartsCount, hcall, hstate])]
      omega
  | trip hcall hlimit hstate => exact ht.trip hcall hlimit hstate
end

theorem tracks_history (cfg : BreakerConfig) {calls : List TimedCall} (hauto : ∀ x ∈ calls, x.call.isAutomatic = true) :
    Tracks cfg ((breaker cfg).after newCircuitBreaker calls) ((breaker cfg).history newCircuitBreaker calls) := by
  -- from the end: a history grows at the latest call
  induction calls using reverseRecOn with
  | nil => exact tracks_new cfg
  | append_singleton calls c ih =>
    rw [after_snoc, history_snoc]
    have hbefore := ih fun x hx => hauto x (mem_append_left _ hx)
    exact hbefore.step (breaker_cases cfg _ (hauto c (by simp)))

variable {cfg : BreakerConfig}

theorem openedAt_mem {calls : List TimedCall} {t : Int64}
    (h : openedAt ((breaker cfg).history newCircuitBreaker calls) = some t) : ∃ x ∈ calls, x.now = t := by
  induction calls using reverseRecOn with
  | nil => cases h
  | append_singleton calls c ih =>
    rw [history_snoc, openedAt] at h
    split at h
    · exact ⟨c, by simp, Option.some.inj h⟩
    · obtain ⟨x, hx, hnow⟩ := ih h
      exact ⟨x, mem_append_left _ hx, hnow⟩

structure Transitions (cfg : BreakerConfig) (h : BreakerHistory) (cb : CircuitBreaker) (c : TimedCall) :
    Prop where
  trips : cb.state = .closed → ((breaker cfg cb c).1.state ≠ .closed ↔
      c.call = .recordFailure ∧ (failureCount h + 1 : Int) = max 1 cfg.maxFailures.toInt)
  waits : cb.state = .opened → ∃ t, openedAt h = some t ∧ (c.now.toInt - t.toInt < cfg.openTimeout.toInt →
        (breaker cfg cb c).1.state = .opened ∧ (c.call = .allow → (breaker cfg cb c).2 = some false))
  reopens : cb.state = .halfOpen → c.call = .recordFailure → failureCount h + 1 < 2 ^ 63 →
    (breaker cfg cb c).1.state = .opened ∧ openedAt ((breaker cfg).observe cb c :: h) = some c.now
  closes : cb.state = .halfOpen → ((breaker cfg cb c).1.state = .closed ↔
      c.call = .recordSuccess ∧ (successCount h + 1 : Int) = max 1 cfg.halfOpenProbes.toInt)
  resets : cb.state = .halfOpen → (breaker cfg cb c).1.state = .closed → (breaker cfg cb c).1.failures = 0

theorem timeSince_lt {now opened timeout : Int64} (hle : opened ≤ now)
    (hlt : now.toInt - opened.toInt < timeout.toInt) : timeSince now opened < timeout := by
  rw [le_iff_toInt_le] at hle
  have hmax := timeout.toInt_lt
  rw [lt_iff_toInt_lt, timeSince, SignedWord.toInt_ofIntClamp]
  omega

section
variable {cfg : BreakerConfig} {cb : CircuitBreaker} {c : TimedCall} {h : BreakerHistory}

theorem Tracks.trips_iff (ht : Tracks cfg cb h) (hauto : c.call.isAutomatic = true) (hstate : cb.state = .closed) :
    (breaker cfg cb c).1.state ≠ .closed ↔
      c.call = .recordFailure ∧ (failureCount h + 1 : Int) = max 1 cfg.maxFailures.toInt := by
  have hcount := ht.closed hstate
  have hword := toInt_failures_succ ht (ht.count_lt hstate)
  have hstep := breaker_cases cfg cb hauto
  generalize breaker cfg cb c = next at hstep ⊢
  obtain ⟨after, answer⟩ := next
  cases hstep with
  | pass hcall _ => exact ⟨fun hne => absurd hstate hne, fun hr => by rw [hcall] at hr; cases hr.1⟩
  | refuse hcall _ _ => exact ⟨fun hne => absurd hstate hne, fun hr => by rw [hcall] at hr; cases hr.1⟩
  | reset hcall _ => exact ⟨fun hne => absurd hstate hne, fun hr => by rw [hcall] at hr; cases hr.1⟩
  | ignore hcall _ => exact ⟨fun hne => absurd hstate hne, fun hr => by rw [hcall] at hr; cases hr.1⟩
  | count hcall _ _ => exact ⟨fun hne => absurd hstate hne, fun hr => by rw [hcall] at hr; cases hr.1⟩
  | close hcall hhalf _ => rw [hstate] at hhalf; cases hhalf
  | probe hcall hopened _ => rw [hstate] at hopened; cases hopened
  | fail hcall hlt =>
    have hlt' := hlt.resolve_right (by rw [hstate]; nofun)
    rw [lt_iff_toInt_lt, hword] at hlt'
    exact ⟨fun hne => absurd hstate hne, fun hr => by omega⟩
  | trip hcall hlimit _ =>
    rw [le_iff_toInt_le, hword] at hlimit
    exact ⟨fun _ => ⟨hcall, by omega⟩, fun _ => nofun⟩

theorem breaker_waits (hauto : c.call.isAutomatic = true) (hstate : cb.state = .opened)
    (hlater : cb.lastOpenTime ≤ c.now) (hearly : c.now.toInt - cb.lastOpenTime.toInt < cfg.openTimeout.toInt) :
    (breaker cfg cb c).1.state = .opened ∧ (c.call = .allow → (breaker cfg cb c).2 = some false) := by
  have hlt := timeSince_lt hlater hearly
  -- of the cases for an open breaker only the probe leaves it, and it is too early for that
  have hstep := breaker_cases cfg cb hauto
  generalize breaker cfg cb c = next at hstep ⊢
  obtain ⟨after, answer⟩ := next
  cases hstep with
  | pass hcall hne => exact absurd hstate hne
  | refuse hcall _ _ => exact ⟨hstate, fun _ => rfl⟩
  | probe hcall _ hlate => exact absurd hlate (Int64.not_le.2 hlt)
  | reset hcall hclosed => rw [hstate] at hclosed; cases hclosed
  | ignore hcall _ => exact ⟨hstate, fun hallow => by rw [hcall] at hallow; cases hallow⟩
  | count hcall hhalf _ => rw [hstate] at hhalf; cases hhalf
  | close hcall hhalf _ => rw [hstate] at hhalf; cases hhalf
  | fail hcall _ => exact ⟨hstate, fun hallow => by rw [hcall] at hallow; cases hallow⟩
  | trip hcall _ hne => exact absurd hstate hne

theorem recordFailure_opens (hlimit : cfg.maxFailures ≤ cb.failures + 1) (hstate : cb.state ≠ .opened) (now : Int64) :
    cb.recordFailure cfg now = { cb with state := .opened, failures := cb.failures + 1, lastOpenTime := now } := by
  rw [CircuitBreaker.recordFailure, if_pos hlimit]
  cases hcb : cb.state with
  | closed => rfl
  | halfOpen => rfl
  | opened => exact absurd hcb hstate

theorem recordFailure_counts (hbelow : cb.failures + 1 < cfg.maxFailures) (now : Int64) :
    cb.recordFailure cfg now = { cb with failures := cb.failures + 1 } := by
  rw [CircuitBreaker.recordFailure, if_neg (Int64.not_le.2 hbelow)]

theorem Tracks.reopens (ht : Tracks cfg cb h) (hstate : cb.state = .halfOpen)
    (hcall : c.call = .recordFailure) (hcount : failureCount h + 1 < 2 ^ 63) :
    (breaker cfg cb c).1.state = .opened ∧ openedAt ((breaker cfg).observe cb c :: h) = some c.now := by
  have hlimit : cfg.maxFailures ≤ cb.failures + 1 := by
    have hbefore := ht.limit (by rw [hstate]; nofun)
    rw [le_iff_toInt_le, toInt_failures_succ ht (by omega)]
    omega
  have hafter : (breaker cfg cb c).1 =
      { cb with state := .opened, failures := cb.failures + 1, lastOpenTime := c.now } := by
    rw [← recordFailure_opens hlimit (by rw [hstate]; nofun)]
    simp only [breaker, hcall]
  rw [hafter]
  refine ⟨rfl, ?_⟩
  rw [openedAt, observe, hafter, if_pos ⟨by rw [hstate]; nofun, rfl⟩]

theorem Tracks.closes_iff (ht : Tracks cfg cb h) (hauto : c.call.isAutomatic = true) (hstate : cb.state = .halfOpen) :
    ((breaker cfg cb c).1.state = .closed ↔
      c.call = .recordSuccess ∧ (successCount h + 1 : Int) = max 1 cfg.halfOpenProbes.toInt) ∧
    ((breaker cfg cb c).1.state = .closed → (breaker cfg cb c).1.failures = 0) := by
  have hcount := ht.probes hstate
  have hword := ht.toInt_successes_succ hstate
  have hstep := breaker_cases cfg cb hauto
  have hopen : cb.state ≠ .closed := by rw [hstate]; nofun
  generalize breaker cfg cb c = next at hstep ⊢
  obtain ⟨after, answer⟩ := next
  cases hstep with
  | pass hcall _ =>
    exact ⟨⟨fun hclosed => absurd hclosed hopen, fun hr => by rw [hcall] at hr; cases hr.1⟩,
      fun hclosed => absurd hclosed hopen⟩
  | refuse hcall hopened _ => rw [hstate] at hopened; cases hopened
  | probe hcall hopened _ => rw [hstate] at hopened; cases hopened
  | reset hcall hclosed => exact absurd hclosed hopen
  | ignore hcall hopened => rw [hstate] at hopened; cases hopened
  | count hcall _ hfew =>
    rw [lt_iff_toInt_lt, hword] at hfew
    exact ⟨⟨fun hclosed => absurd hclosed hopen, fun hr => by omega⟩, fun hclosed => absurd hclosed hopen⟩
  | close hcall _ henough =>
    rw [le_iff_toInt_le, hword] at henough
    exact ⟨⟨fun _ => ⟨hcall, by omega⟩, fun _ => rfl⟩, fun _ => rfl⟩
  | fail hcall _ =>
    exact ⟨⟨fun hclosed => absurd hclosed hopen, fun hr => by rw [hcall] at hr; cases hr.1⟩,
      fun hclosed => absurd hclosed hopen⟩
  | trip hcall _ _ => exact ⟨⟨nofun, fun hr => by rw [hcall] at hr; cases hr.1⟩, nofun⟩
end

/-- In every run of automatic calls with a clock that does not go back,
the next call is one of the transitions that the history allows. -/
theorem transitions_of_history (cfg : BreakerConfig) (calls : List TimedCall) (c : TimedCall)
    (hauto : ∀ x ∈ calls ++ [c], x.call.isAutomatic = true)
    (htimes : (calls ++ [c]).Pairwise fun x y => x.now ≤ y.now) :
    Transitions cfg ((breaker cfg).history newCircuitBreaker calls)
      ((breaker cfg).after newCircuitBreaker calls) c := by
  have ht := tracks_history cfg fun x hx => hauto x (mem_append_left [c] hx)
  have hc : c.call.isAutomatic = true := hauto c (by simp)
  constructor
  · exact ht.trips_iff hc
  · intro hstate
    have hopened := ht.opened hstate
    obtain ⟨x, hx, hnow⟩ := openedAt_mem hopened
    -- the call that opened the breaker is an earlier one, so the difference of the times is not negative
    have hlater : x.now ≤ c.now := (pairwise_append.1 htimes).2.2 x hx c (by simp)
    rw [hnow] at hlater
    exact ⟨_, hopened, breaker_waits hc hstate hlater⟩
  · exact ht.reopens
  · exact fun hstate => (ht.closes_iff hc hstate).1
  · exact fun hstate => (ht.closes_iff hc hstate).2

theorem transitions_of_history_open : (breaker ⟨1, 10, 1⟩).after newCircuitBreaker [⟨.recordFailure, 0⟩] = ⟨.opened, 1,
    0, 0⟩ ∧ Transitions ⟨1, 10, 1⟩ ((breaker ⟨1, 10, 1⟩).history newCircuitBreaker
    [⟨.recordFailure, 0⟩]) ((breaker ⟨1, 10, 1⟩).after newCircuitBreaker [⟨.recordFailure, 0⟩]) ⟨.allow, 5⟩ :=
  ⟨by decide, transitions_of_history ⟨1, 10, 1⟩ [⟨.recordFailure, 0⟩] ⟨.allow, 5⟩ (by decide)
    (by decide)⟩

def patientConfig : BreakerConfig := ⟨maxValue, 0, 1⟩

def failure : TimedCall := ⟨.recordFailure, 0⟩

theorem after_failures {n : Nat} (hn : n < 2 ^ 63 - 1) :
    (breaker patientConfig).after newCircuitBreaker (replicate n failure) = ⟨.closed, Int64.ofNat n, 0, 0⟩ := by
  induction n with
  | zero => rfl
  | succ n ih =>
    have hword : Int64.ofNat n + 1 = Int64.ofNat (n + 1) := by
      rw [ofNat_add]
      rfl
    have hbelow : Int64.ofNat n + 1 < patientConfig.maxFailures := by
      change _ < maxValue
      rw [hword, lt_iff_toInt_lt, toInt_ofNat_of_lt (by omega), toInt_maxValue]
      omega
    have hcount := @recordFailure_counts patientConfig ⟨.closed, Int64.ofNat n, 0, 0⟩ hbelow 0
    rw [replicate_succ', after_snoc, ih (by omega), ← hword]
    exact hcount

def wrapRun : List TimedCall := replicate (2 ^ 63 - 1) failure ++ [⟨.allow, 0⟩]

theorem after_wrapRun : (breaker patientConfig).after newCircuitBreaker wrapRun = ⟨.halfOpen, maxValue, 0, 0⟩ := by
  have hlast : (2 ^ 63 - 1 : Nat) = (2 ^ 63 - 2) + 1 := by omega
  have hword : Int64.ofNat (2 ^ 63 - 2) + 1 = maxValue := by decide
  rw [wrapRun, after_snoc, hlast, replicate_succ', after_snoc, after_failures (by omega)]
  have hopened : (breaker patientConfig ⟨.closed, Int64.ofNat (2 ^ 63 - 2), 0, 0⟩ failure).1 =
      ⟨.opened, maxValue, 0, 0⟩ := by decide
  rw [hopened]
  decide

theorem failures_wrap_around : (∀ x ∈ wrapRun ++ [failure], x.call.isAutomatic = true) ∧ (wrapRun ++ [failure]).Pairwise
    (fun x y => x.now ≤ y.now) ∧ ((breaker patientConfig).after newCircuitBreaker wrapRun).state = .halfOpen ∧
    ((breaker patientConfig).after newCircuitBreaker (wrapRun ++ [failure])).state = .halfOpen := by
  have hnow : ∀ x ∈ wrapRun ++ [failure], x.now = 0 ∧ x.call.isAutomatic = true := by
    intro x hx
    rw [wrapRun, mem_append, mem_append] at hx
    rcases hx with (hx | hx) | hx
    · rw [eq_of_mem_replicate hx]
      exact ⟨rfl, rfl⟩
    · rw [mem_singleton.1 hx]
      exact ⟨rfl, rfl⟩
    · rw [mem_singleton.1 hx]
      exact ⟨rfl, rfl⟩
  refine ⟨fun x hx => (hnow x hx).2, ?_, ?_, ?_⟩
  · refine pairwise_of_forall_mem_list fun x hx y hy => ?_
    rw [(hnow x hx).1, (hnow y hy).1]
    exact Int64.le_refl 0
  · rw [after_wrapRun]
  · rw [after_snoc, after_wrapRun]
    decide

def Armed (cfg : BreakerConfig) (cb : CircuitBreaker) : Prop :=
  cb.state ≠ .closed → cfg.maxFailures.toInt ≤ cb.failures.toInt + 1

/-- A call that keeps a breaker armed: `ForceOpen` comes when a closed breaker is about to open anyway, and
the count does not wrap around. -/
def KeepsArmed (cfg : BreakerConfig) (cb : CircuitBreaker) (c : TimedCall) : Prop :=
  (c.call = .forceOpen → cb.state = .closed → cfg.maxFailures.toInt ≤ cb.failures.toInt + 1) ∧
    (c.call = .recordFailure → cb.failures ≠ maxValue)

theorem Armed.automatic {cb : CircuitBreaker} {c : TimedCall} (h : Armed cfg cb) (hkeeps : KeepsArmed cfg cb c)
    (hauto : c.call.isAutomatic = true) : Armed cfg (breaker cfg cb c).1 := by
  have hstep := breaker_cases cfg cb hauto
  generalize breaker cfg cb c = next at hstep ⊢
  obtain ⟨after, answer⟩ := next
  cases hstep with
  | pass _ _ => exact h
  | refuse _ _ _ => exact h
  | ignore _ _ => exact h
  | count _ _ _ => exact h
  | probe _ hstate _ => exact fun _ => h (by rw [hstate]; nofun)
  | reset _ hstate => exact fun hne => absurd hstate hne
  | close _ _ _ => exact fun hne => absurd rfl hne
  | fail hcall _ =>
    intro hne
    have hbefore := h hne
    change _ ≤ (cb.failures + 1).toInt + 1
    rw [SignedWord.toInt_add_one (hkeeps.2 hcall)]
    omega
  | trip _ hlimit _ =>
    intro _
    rw [le_iff_toInt_le] at hlimit
    change _ ≤ (cb.failures + 1).toInt + 1
    omega

theorem Armed.step (cb : CircuitBreaker) (c : TimedCall) (h : Armed cfg cb) (hkeeps : KeepsArmed cfg cb c) :
    Armed cfg (breaker cfg cb c).1 := by
  obtain ⟨call, now⟩ := c
  cases call with
  | allow => exact h.automatic hkeeps rfl
  | recordSuccess => exact h.automatic hkeeps rfl
  | recordFailure => exact h.automatic hkeeps rfl
  | forceOpen =>
    intro _
    by_cases hstate : cb.state = .closed
    · exact hkeeps.1 rfl hstate
    · exact h hstate
  | forceClose => exact fun hne => absurd rfl hne

theorem Armed.limit {cb : CircuitBreaker} (h : Armed cfg cb) (hstate : cb.state = .halfOpen)
    (hcount : cb.failures ≠ maxValue) : cfg.maxFailures ≤ cb.failures + 1 := by
  rw [le_iff_toInt_le, SignedWord.toInt_add_one hcount]
  exact h (by rw [hstate]; nofun)

/-- In every run whose calls keep the breaker armed, the failure of a probe opens the
breaker again, and requests are refused until the timeout has elapsed. -/
theorem failed_probe_reopens (cfg : BreakerConfig) (calls : List TimedCall) (now : Int64)
    (hsteps : (breaker cfg).AllSteps (KeepsArmed cfg) newCircuitBreaker
      (calls ++ [⟨.recordFailure, now⟩]))
    (hstate : ((breaker cfg).after newCircuitBreaker calls).state = .halfOpen) :
    ((breaker cfg).after newCircuitBreaker (calls ++ [⟨.recordFailure, now⟩])).state = .opened ∧
      ∀ later, timeSince later now < cfg.openTimeout →
        (breaker cfg ((breaker cfg).after newCircuitBreaker (calls ++ [⟨.recordFailure, now⟩]))
          ⟨.allow, later⟩).2 = some false := by
  obtain ⟨hcalls, hlast⟩ := allSteps_snoc.1 hsteps
  have harmed : Armed cfg ((breaker cfg).after newCircuitBreaker calls) :=
    hcalls.invariant Armed.step fun hne => absurd rfl hne
  rw [after_snoc]
  generalize (breaker cfg).after newCircuitBreaker calls = cb at *
  have hafter : (breaker cfg cb ⟨.recordFailure, now⟩).1 =
      { cb with state := .opened, failures := cb.failures + 1, lastOpenTime := now } :=
    recordFailure_opens (harmed.limit hstate (hlast.2 rfl)) (by rw [hstate]; nofun) now
  rw [hafter]
  refine ⟨rfl, fun later hearly => ?_⟩
  simp only [breaker, CircuitBreaker.allow, if_neg (Int64.not_le.2 hearly)]

theorem failed_probe_reopens_tripped : ((breaker ⟨2, 10, 1⟩).after newCircuitBreaker
        ([⟨.recordFailure, 0⟩, ⟨.recordFailure, 1⟩, ⟨.allow, 11⟩] ++ [⟨.recordFailure, 12⟩])).state = .opened ∧
      ∀ later, timeSince later 12 < 10 → (breaker ⟨2, 10, 1⟩ ((breaker ⟨2, 10, 1⟩).after newCircuitBreaker
          ([⟨.recordFailure, 0⟩, ⟨.recordFailure, 1⟩, ⟨.allow, 11⟩] ++ [⟨.recordFailure, 12⟩]))
          ⟨.allow, later⟩).2 = some false :=
  failed_probe_reopens ⟨2, 10, 1⟩ [⟨.recordFailure, 0⟩, ⟨.recordFailure, 1⟩, ⟨.allow, 11⟩] 12
    (by
      simp only [cons_append, nil_append, Machine.AllSteps, KeepsArmed]
      decide)
    (by decide)

theorem forced_probe_stays : ((breaker ⟨2, 10, 1⟩).after newCircuitBreaker [⟨.forceOpen, 0⟩, ⟨.allow, 10⟩]).state =
        .halfOpen ∧ ((breaker ⟨2, 10, 1⟩).after newCircuitBreaker
        [⟨.forceOpen, 0⟩, ⟨.allow, 10⟩, ⟨.recordFailure, 11⟩]).state = .halfOpen ∧
      (breaker ⟨2, 10, 1⟩).answers newCircuitBreaker
        [⟨.forceOpen, 0⟩, ⟨.allow, 10⟩, ⟨.recordFailure, 11⟩, ⟨.allow, 12⟩] = [none, some true, none, some true] := by
  decide

end HelixRpc.Runtime.Go
