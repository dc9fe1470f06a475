import HelixRpc.Runtime.Breakers
import HelixRpc.Runtime.CallRecords

/-!
# The breaker of a client

Model of a client that makes requests with one policy, one after the other or at the same time.
-/

namespace HelixRpc.Runtime

open Foundation List Option Machine Int64
open HelixRpc.Runtime.Go (CircuitState)
open HelixRpc.Runtime.Go.Retry (Recorded)
open HelixRpc.Runtime.PortRetry (Completion)
variable {β σ ι : Type}

structure BreakerPort (β : Type) where
  new : β
  allow : β → Int64 → β × Bool
  record : β → Recorded → Int64 → β
  state : β → CircuitState
  failures : β → Int

namespace BreakerPort

def Sane (v : BreakerPort β) (limit : Int) (b : β) : Prop :=
  v.state b = .closed → 0 ≤ v.failures b ∧ (v.failures b = 0 ∨ v.failures b < limit)

structure Trips (v : BreakerPort β) (limit : Int) : Prop where
  new : v.state v.new = .closed ∧ v.failures v.new = 0
  allow_closed : ∀ b now, v.state b = .closed → v.allow b now = (b, true)
  allow_other : ∀ b now, v.state b ≠ .closed → v.state (v.allow b now).1 ≠ .closed
  success : ∀ b now, v.state (v.record b .success now) = .closed → v.failures (v.record b .success now) = 0
  failure_closed : ∀ b now, v.Sane limit b → v.state b = .closed → v.state (v.record b .failure now) = .opened ∨
      (v.state (v.record b .failure now) = .closed ∧ v.failures (v.record b .failure now) = v.failures b + 1 ∧
        v.failures b + 1 < limit)
  failure_other : ∀ b now, v.state b ≠ .closed → v.state (v.record b .failure now) ≠ .closed

section
variable {v : BreakerPort β} {limit : Int} {b : β}

theorem Trips.sane_new (h : v.Trips limit) : v.Sane limit v.new :=
  fun _ => ⟨Int.le_of_eq h.new.2.symm, .inl h.new.2⟩

theorem Sane.allow (hsane : v.Sane limit b) (h : v.Trips limit) (now : Int64) : v.Sane limit (v.allow b now).1 := by
  by_cases hstate : v.state b = .closed
  · rw [h.allow_closed b now hstate]
    exact hsane
  · exact fun hclosed => absurd hclosed (h.allow_other b now hstate)

theorem Sane.record (hsane : v.Sane limit b) (h : v.Trips limit) (r : Recorded) (now : Int64) :
    v.Sane limit (v.record b r now) := by
  intro hclosed
  cases r with
  | success =>
    have hzero := h.success b now hclosed
    exact ⟨Int.le_of_eq hzero.symm, .inl hzero⟩
  | failure =>
    by_cases hstate : v.state b = .closed
    · rcases h.failure_closed b now hsane hstate with hopened | ⟨-, hcount, hbelow⟩
      · rw [hopened] at hclosed
        cases hclosed
      · rw [hcount]
        exact ⟨Int.add_nonneg (hsane hstate).1 (by decide), .inr hbelow⟩
    · exact absurd hclosed (h.failure_other b now hstate)
end

end BreakerPort

theorem toInt_succ_of_sane {word limit : Int64} (h : word.toInt = 0 ∨ word.toInt < limit.toInt) :
    (word + 1).toInt = word.toInt + 1 := by
  refine SignedWord.toInt_add_one fun hmax => ?_
  have hlimit := limit.toInt_lt
  rw [hmax, toInt_maxValue] at h
  omega

def Go.breakerPort (cfg : Go.BreakerConfig) : BreakerPort Go.CircuitBreaker where
  new := Go.newCircuitBreaker
  allow cb now := cb.allow cfg now
  record cb r now :=
    match r with
    | .success => cb.recordSuccess cfg
    | .failure => cb.recordFailure cfg now
  state := Go.CircuitBreaker.state
  failures cb := cb.failures.toInt

theorem Go.breakerPort_trips (cfg : Go.BreakerConfig) : (Go.breakerPort cfg).Trips cfg.maxFailures.toInt where
  new := ⟨rfl, rfl⟩
  allow_closed cb now hstate := by
    change cb.state = .closed at hstate
    simp only [Go.breakerPort, Go.CircuitBreaker.allow, hstate]
  allow_other cb now hstate := by
    obtain ⟨state, failures, successes, lastOpenTime⟩ := cb
    simp only [Go.breakerPort, Go.CircuitBreaker.allow]
    cases state with
    | closed => exact absurd rfl hstate
    | halfOpen => exact hstate
    | opened =>
      dsimp only
      split_ifs
      · intro h
        cases h
      · exact hstate
  success cb now hclosed := by
    obtain ⟨state, failures, successes, lastOpenTime⟩ := cb
    simp only [Go.breakerPort, Go.CircuitBreaker.recordSuccess] at hclosed ⊢
    cases state with
    | closed => rfl
    | opened => cases hclosed
    | halfOpen =>
      dsimp only at hclosed ⊢
      split_ifs at hclosed ⊢
      rfl
  failure_closed cb now hsane hstate := by
    change cb.state = .closed at hstate
    have hcount := toInt_succ_of_sane (hsane hstate).2
    simp only [Go.breakerPort, Go.CircuitBreaker.recordFailure, hstate]
    split_ifs with hlimit
    · exact .inl rfl
    · rw [le_iff_toInt_le, hcount] at hlimit
      exact .inr ⟨rfl, hcount, Int.not_le.1 hlimit⟩
  failure_other cb now hstate := by
    obtain ⟨state, failures, successes, lastOpenTime⟩ := cb
    simp only [Go.breakerPort, Go.CircuitBreaker.recordFailure]
    split_ifs
    · cases state with
      | closed => exact absurd rfl hstate
      | halfOpen =>
        intro h
        cases h
      | opened => exact hstate
    · exact hstate

def Rust.breakerPort (checks : Bool) (cfg : PortConfig) : BreakerPort Rust.CircuitBreaker where
  new := Rust.newCircuitBreaker
  allow cb now := cb.allow cfg now
  record cb r now :=
    match r with
    | .success => (cb.recordSuccess checks cfg).1
    | .failure => (cb.recordFailure checks cfg now).1
  state := Rust.CircuitBreaker.state
  failures cb := cb.failures.toInt

theorem Rust.breakerPort_trips (checks : Bool) (cfg : PortConfig) :
    (Rust.breakerPort checks cfg).Trips cfg.maxFailures.toInt where
  new := ⟨rfl, rfl⟩
  allow_closed cb now hstate := by
    change cb.state = .closed at hstate
    simp only [Rust.breakerPort, Rust.CircuitBreaker.allow, hstate]
  allow_other cb now hstate := by
    obtain ⟨state, failures, successes, lastOpenNs⟩ := cb
    simp only [Rust.breakerPort, Rust.CircuitBreaker.allow]
    cases state with
    | closed => exact absurd rfl hstate
    | halfOpen => exact hstate
    | opened =>
      dsimp only
      split
      · split_ifs
        · intro h
          cases h
        · exact hstate
      · exact hstate
  success cb now hclosed := by
    obtain ⟨state, failures, successes, lastOpenNs⟩ := cb
    simp only [Rust.breakerPort, Rust.CircuitBreaker.recordSuccess] at hclosed ⊢
    cases state with
    | closed => rfl
    | opened => cases hclosed
    | halfOpen =>
      dsimp only at hclosed ⊢
      split at hclosed
      · cases hclosed
      · split_ifs at hclosed ⊢
        rfl
  failure_closed cb now hsane hstate := by
    change cb.state = .closed at hstate
    have hcount := toInt_succ_of_sane (hsane hstate).2
    have hword : cb.failures ≠ maxValue := by
      intro hmax
      have hlimit := cfg.maxFailures.toInt_lt
      have hbelow := (hsane hstate).2
      simp only [Rust.breakerPort, hmax, toInt_maxValue] at hbelow
      omega
    simp only [Rust.breakerPort, Rust.CircuitBreaker.recordFailure, Rust.increment_of_ne checks hword, hstate, if_true]
    split_ifs with hlimit
    · exact .inl rfl
    · rw [le_iff_toInt_le, hcount] at hlimit
      exact .inr ⟨rfl, hcount, Int.not_le.1 hlimit⟩
  failure_other cb now hstate := by
    change cb.state ≠ .closed at hstate
    simp only [Rust.breakerPort, Rust.CircuitBreaker.recordFailure, if_neg hstate, ite_self]
    split
    all_goals exact hstate

def Python.breakerPort (cfg : PortConfig) (monotonic : Int64 → ℚ) : BreakerPort Python.CircuitBreaker where
  new := Python.newCircuitBreaker
  allow cb now := cb.allow cfg (monotonic now)
  record cb r now :=
    match r with
    | .success => cb.recordSuccess cfg
    | .failure => cb.recordFailure cfg (monotonic now)
  state := Python.CircuitBreaker.state
  failures := Python.CircuitBreaker.failures

theorem Python.breakerPort_trips (cfg : PortConfig) (monotonic : Int64 → ℚ) :
    (Python.breakerPort cfg monotonic).Trips cfg.maxFailures.toInt where
  new := ⟨rfl, rfl⟩
  allow_closed cb now hstate := if_pos hstate
  allow_other cb now hstate := by
    change cb.state ≠ .closed at hstate
    simp only [Python.breakerPort, Python.CircuitBreaker.allow, if_neg hstate]
    split_ifs
    · exact hstate
    · intro h
      cases h
    · exact hstate
  success cb now hclosed := by
    simp only [Python.breakerPort, Python.CircuitBreaker.recordSuccess] at hclosed ⊢
    split_ifs at hclosed ⊢ with hhalf hprobes hstate
    · rfl
    · cases hhalf.symm.trans hclosed
    · rfl
    · exact absurd hclosed hstate
  failure_closed cb now hsane hstate := by
    change cb.state = .closed at hstate
    simp only [Python.breakerPort, Python.CircuitBreaker.recordFailure, hstate, and_true]
    split_ifs with hlimit
    · exact .inl rfl
    · exact .inr ⟨rfl, rfl, Int.not_le.1 hlimit⟩
  failure_other cb now hstate := by
    change cb.state ≠ .closed at hstate
    simp only [Python.breakerPort, Python.CircuitBreaker.recordFailure, hstate, and_false, if_false]
    exact hstate

structure Client (β σ : Type) where
  breaker : β
  executions : List σ

inductive ClientEvent (ι : Type) where
  | start (now : Int64)
  | work (j : Nat) (input : ι) (now : Int64)

section
variable (v : BreakerPort β) (x : Execution σ ι)

def newClient : Client β σ := ⟨v.new, []⟩

def client : Machine (Client β σ) (ClientEvent ι) (Option Recorded) := fun c e =>
  match e with
  | .start now =>
    let (b, allowed) := v.allow c.breaker now
    (⟨b, if allowed then c.executions ++ [x.start] else c.executions⟩, none)
  | .work j input now =>
    match c.executions[j]? with
    | none => (c, none)
    | some s =>
      let (s', record) := x.work s input
      (⟨record.elim c.breaker fun r => v.record c.breaker r now, c.executions.set j s'⟩, record)

def Client.completed (c : Client β σ) : List Completion := c.executions.flatMap x.completed

def SeesAll (events : List (ClientEvent ι)) : Prop := ((client v x).told (newClient v) events).Perm
    ((((client v x).after (newClient v) events).completed x).map Completion.record)

def OpensAtLimit (limit : Int) : Prop :=
  ∀ events later n, v.state ((client v x).after (newClient v) events).breaker = .closed →
    (((client v x).after (newClient v) (events ++ later)).completed x).Perm
      (((client v x).after (newClient v) events).completed x ++ replicate n .failed) →
    1 ≤ n → limit ≤ n → ∃ m, v.state ((client v x).after (newClient v) (events ++ later.take m)).breaker = .opened

variable {v x} {tell : Completion → Option Recorded} {limit : Int}

theorem client_journals {Inv : σ → Prop} (hempty : x.completed x.start = []) (hstart : Inv x.start)
    (hwork : x.work.Journals Inv x.completed tell) :
    (client v x).Journals (fun c => ∀ s ∈ c.executions, Inv s) (Client.completed x) tell := by
  intro c e hc
  cases e with
  | start now =>
    simp only [client]
    split_ifs
    · refine ⟨fun s hs => ?_, silent ?_ _⟩
      · rcases mem_append.1 hs with hold | hnew
        · exact hc s hold
        · rw [mem_singleton.1 hnew]
          exact hstart
      · simp [Client.completed, hempty]
    · exact ⟨hc, silent rfl _⟩
  | work j input now =>
    cases hexecution : c.executions[j]? with
    | none =>
      simp only [client, hexecution]
      exact ⟨hc, silent rfl _⟩
    | some s =>
      obtain ⟨hkeep, new, hnew, hanswer⟩ := hwork s input (hc s (mem_of_getElem? hexecution))
      simp only [client, hexecution]
      refine ⟨fun s' hs' => ?_, new, flatMap_set_perm _ hexecution hnew, hanswer⟩
      rcases mem_or_eq_of_mem_set hs' with hother | rfl
      · exact hc s' hother
      · exact hkeep

theorem Execution.Accounts.client (h : x.Accounts tell) (v : BreakerPort β) :
    ∃ Inv : Client β σ → Prop, Inv (newClient v) ∧ (client v x).Journals Inv (Client.completed x) tell := by
  obtain ⟨Inv, hstart, hwork⟩ := h.journals
  exact ⟨_, nofun, client_journals h.empty hstart hwork⟩

theorem seesAll_iff (h : x.Accounts tell) (htell : ∀ c r, tell c = some r → r = Completion.record c)
    (events : List (ClientEvent ι)) :
    SeesAll v x events ↔ ∀ c ∈ ((client v x).after (newClient v) events).completed x, (tell c).isSome := by
  obtain ⟨Inv, hnew, hjournals⟩ := h.client v
  rw [← perm_map_iff htell, SeesAll]
  exact (hjournals.told_perm hnew rfl events).congr_left _

theorem sane_client (h : v.Trips limit) (c : Client β σ) (e : ClientEvent ι) (hc : v.Sane limit c.breaker) :
    v.Sane limit (client v x c e).1.breaker := by
  cases e with
  | start now => exact hc.allow h now
  | work j input now =>
    simp only [client]
    split
    · exact hc
    · cases (x.work _ input).2 with
      | none => exact hc
      | some r => exact hc.record h r now

/-- What a step does to a closed breaker: nothing if it makes no record, and a failure opens the breaker or
is counted. -/
theorem client_closed (h : v.Trips limit) {c : Client β σ} (hsane : v.Sane limit c.breaker)
    (hclosed : v.state c.breaker = .closed) (e : ClientEvent ι) :
    ((client v x c e).2 = none → (client v x c e).1.breaker = c.breaker) ∧
      ((client v x c e).2 = some .failure → v.state (client v x c e).1.breaker = .opened ∨
        (v.state (client v x c e).1.breaker = .closed ∧
          v.failures (client v x c e).1.breaker = v.failures c.breaker + 1)) := by
  cases e with
  | start now => exact ⟨fun _ => congrArg Prod.fst (h.allow_closed _ now hclosed), nofun⟩
  | work j input now =>
    cases hexecution : c.executions[j]? with
    | none =>
      simp only [client, hexecution]
      exact ⟨fun _ => trivial, nofun⟩
    | some s =>
      simp only [client, hexecution]
      refine ⟨fun hnone => ?_, fun hfailure => ?_⟩
      · rw [hnone]
        rfl
      · rw [hfailure]
        exact (h.failure_closed _ now hsane hclosed).imp_right fun hcounted => ⟨hcounted.1, hcounted.2.1⟩

theorem client_failures (h : v.Trips limit) {c : Client β σ} (hsane : v.Sane limit c.breaker)
    (hclosed : v.state c.breaker = .closed) {events : List (ClientEvent ι)} {n : Nat}
    (htold : (client v x).told c events = replicate n .failure) :
    (∃ m, v.state ((client v x).after c (events.take m)).breaker = .opened) ∨
      (v.state ((client v x).after c events).breaker = .closed ∧
        v.failures ((client v x).after c events).breaker = v.failures c.breaker + n) := by
  induction events generalizing c n with
  | nil =>
    right
    have hzero : n = 0 := by
      have hlength := congrArg List.length htold
      rw [length_replicate] at hlength
      exact hlength.symm
    exact ⟨hclosed, by rw [hzero, Int.natCast_zero, Int.add_zero, after_nil]⟩
  | cons e events ih =>
    have hlater := sane_client (x := x) h c e hsane
    obtain ⟨hsilent, hfails⟩ := client_closed (x := x) h hsane hclosed e
    rw [told_cons] at htold
    -- a breaker that opens later is open after one event more
    have hshift : (∃ m, v.state ((client v x).after (client v x c e).1 (events.take m)).breaker = .opened) →
        ∃ m, v.state ((client v x).after c ((e :: events).take m)).breaker = .opened :=
      fun ⟨m, hm⟩ => ⟨m + 1, hm⟩
    cases hanswer : (client v x c e).2 with
    | none =>
      rw [hanswer, toList_none, nil_append] at htold
      have hsame := hsilent hanswer
      rw [after_cons, ← hsame]
      exact (ih hlater (by rw [hsame]; exact hclosed) htold).imp_left hshift
    | some r =>
      rw [hanswer, toList_some, singleton_append] at htold
      cases n with
      | zero => cases htold
      | succ n =>
        rw [replicate_succ, cons.injEq] at htold
        obtain ⟨rfl, htold⟩ := htold
        rcases hfails hanswer with hopened | ⟨hstill, hcount⟩
        · exact .inl ⟨1, by simpa using hopened⟩
        · rcases ih hlater hstill htold with hopened | ⟨hend, hall⟩
          · exact .inl (hshift hopened)
          · refine .inr ⟨hend, ?_⟩
            rw [after_cons, hall, hcount]
            push_cast
            omega

theorem opensAtLimit (h : v.Trips limit) (haccounts : x.Accounts tell) (htell : tell .failed = some .failure) :
    OpensAtLimit v x limit := by
  intro events later n hclosed hfailed hpos hlimit
  obtain ⟨Inv, hnew, hjournals⟩ := haccounts.client v
  have hsane : ∀ events, v.Sane limit ((client v x).after (newClient v) events).breaker :=
    invariant_after (sane_client h) h.sane_new
  -- the later events add the failures to the log, and tell them
  obtain ⟨new, hlog, htold⟩ := hjournals.run (invariant_after (fun s e hs => (hjournals s e hs).1) hnew events) later
  rw [after_append] at hfailed
  have hnewFailed := perm_replicate.1 ((perm_append_left_iff _).1 (hlog.symm.trans hfailed))
  rw [hnewFailed, filterMap_replicate_of_some htell] at htold
  simp only [after_append]
  refine (client_failures h (hsane events) hclosed htold).resolve_right fun ⟨hend, hcount⟩ => ?_
  have hbefore := hsane events hclosed
  have hafter := hsane (events ++ later) (by rw [after_append]; exact hend)
  rw [after_append] at hafter
  omega

theorem breaker_of_silent (h : v.Trips limit) (haccounts : x.Accounts fun _ => none) (events : List (ClientEvent ι)) :
    ((client v x).after (newClient v) events).breaker = v.new := by
  obtain ⟨Inv, hnew, hjournals⟩ := haccounts.client v
  have hstep : ∀ c e, Inv c ∧ c.breaker = v.new → Inv (client v x c e).1 ∧ (client v x c e).1.breaker = v.new := by
    rintro c e ⟨hc, hbreaker⟩
    obtain ⟨hkeep, new, -, hanswer⟩ := hjournals c e hc
    have hclosed : v.state c.breaker = .closed := by rw [hbreaker]; exact h.new.1
    have hsane : v.Sane limit c.breaker := by rw [hbreaker]; exact h.sane_new
    refine ⟨hkeep, ((client_closed h hsane hclosed e).1 ?_).trans hbreaker⟩
    rw [hanswer]
    cases new <;> rfl
  exact (invariant_after hstep ⟨hnew, rfl⟩ events).2

/-- What the breaker of a client sees, with the consequences: it opens at the limit if it sees failures, and it stays as
it was made if it sees nothing. -/
structure Sees (v : BreakerPort β) (x : Execution σ ι) (Seen : Completion → Prop) (limit : Int) : Prop where
  records : ∀ events, SeesAll v x events ↔ ∀ c ∈ ((client v x).after (newClient v) events).completed x, Seen c
  opens : Seen .failed → OpensAtLimit v x limit
  untouched : (∀ c, ¬ Seen c) → ∀ events, ((client v x).after (newClient v) events).breaker = v.new

theorem sees_of_accounts (h : v.Trips limit) (haccounts : x.Accounts tell)
    (htell : ∀ c r, tell c = some r → r = Completion.record c) {Seen : Completion → Prop}
    (hseen : ∀ c, (tell c).isSome ↔ Seen c) : Sees v x Seen limit where
  records events := by
    rw [seesAll_iff haccounts htell]
    simp only [hseen]
  opens hfailed := by
    obtain ⟨r, hr⟩ := isSome_iff_exists.1 ((hseen .failed).2 hfailed)
    exact opensAtLimit h haccounts (by rw [hr, htell _ r hr]; rfl)
  untouched hnone := by
    refine breaker_of_silent h ?_
    have hsilent : tell = fun _ => none := by
      funext c
      exact not_isSome_iff_eq_none.1 fun hsome => hnone c ((hseen c).1 hsome)
    exact hsilent ▸ haccounts
end

theorem report_eq_record (c : Completion) (r : Recorded) (h : c.report = some r) : r = c.record := by
  cases c with
  | interrupted => cases h
  | _ => exact (some.inj h).symm

theorem report_isSome_iff (c : Completion) : c.report.isSome ↔ c ≠ .interrupted := by
  cases c <;> decide

theorem Rust.tells_eq_record {B : Type} (policy : Rust.RetryPolicy B) (c : Completion) (r : Recorded)
    (h : Rust.tells policy c = some r) : r = c.record := by
  unfold Rust.tells at h
  split_ifs at h
  exact report_eq_record c r h

theorem Rust.tells_isSome_iff {B : Type} (policy : Rust.RetryPolicy B) (c : Completion) :
    (Rust.tells policy c).isSome ↔ policy.hedgeDelay = false ∧ c ≠ .interrupted := by
  unfold Rust.tells
  cases policy.hedgeDelay with
  | true => simp
  | false => simp [report_isSome_iff]

section
variable {B T Err Exc : Type} (outside : Go.Float64 → Int64) (goPolicy : Go.Retry.RetryPolicy Err) (zero : T)
  (hedgeDelay : Int64) (bucket : Option (Go.HedgeConfig × Go.HedgeBucket)) (goConfig : Go.BreakerConfig)
  (rustPolicy : Rust.RetryPolicy B) (checks : Bool) (pythonPolicy : Python.RetryPolicy B Exc)
  (monotonic : Int64 → ℚ) (cfg : PortConfig)

/-- With or without hedging, the breaker of Go sees all calls of the operation, that of Rust the ones
that have not panicked and that are not of a hedged request, and that of Python the ones that were not interrupted. -/
theorem breaker_sees_completed (hgo : goPolicy.breaker = true) (hrust : rustPolicy.breaker = true)
    (hpython : pythonPolicy.breaker = true) : Sees (Go.breakerPort goConfig)
    (Go.execution outside goPolicy zero hedgeDelay bucket) (fun _ => True) goConfig.maxFailures.toInt ∧ Sees
    (Rust.breakerPort checks cfg) (Rust.execution rustPolicy : Execution (_ ⊕ PortHedging.System _ T _) _)
    (fun c => rustPolicy.hedgeDelay = false ∧ c ≠ .interrupted) cfg.maxFailures.toInt ∧ Sees
    (Python.breakerPort cfg monotonic) (Python.execution pythonPolicy : Execution (_ ⊕ PortHedging.System _ T _) _)
    (fun c => c ≠ .interrupted) cfg.maxFailures.toInt := by
  refine ⟨?_, ?_, ?_⟩
  · exact sees_of_accounts (Go.breakerPort_trips goConfig) (Go.execution_accounts hgo)
      (fun c r h => (some.inj h).symm) fun c => iff_of_true rfl trivial
  · exact sees_of_accounts (Rust.breakerPort_trips checks cfg) (Rust.execution_accounts rustPolicy hrust)
      (Rust.tells_eq_record rustPolicy) (Rust.tells_isSome_iff rustPolicy)
  · exact sees_of_accounts (Python.breakerPort_trips cfg monotonic) (Python.execution_accounts pythonPolicy hpython)
      report_eq_record report_isSome_iff
end

def strictConfig : PortConfig := ⟨1, 0, 1, 0, by decide⟩

theorem breaker_sees_completed_strict : Sees (Go.breakerPort strictConfig.go)
        (Go.execution (fun _ => 0) (⟨1, 1, 1, .finite 1, none, true⟩ : Go.Retry.RetryPolicy Nat) (0 : Nat) 5 none)
        (fun _ => True) 1 ∧ Sees (Rust.breakerPort true strictConfig)
        (Rust.execution (⟨1, 0, some, false, true, true⟩ : Rust.RetryPolicy Nat) :
          Execution (_ ⊕ PortHedging.System _ Nat _) _) (fun c => false = false ∧ c ≠ .interrupted) 1 ∧
      Sees (Python.breakerPort strictConfig fun _ => 0)
        (Python.execution (⟨1, 0, id, 0, true, true, true⟩ : Python.RetryPolicy Nat Nat) :
          Execution (_ ⊕ PortHedging.System _ Nat _) _) (fun c => c ≠ .interrupted) 1 :=
  breaker_sees_completed _ _ _ _ _ _ _ _ _ _ _ rfl rfl rfl

theorem rust_hedged_failure_unseen : let v := Rust.breakerPort true strictConfig
    let x : Execution (_ ⊕ PortHedging.System _ Nat _) _ :=
      Rust.execution (⟨1, 0, some, true, false, true⟩ : Rust.RetryPolicy Nat)
    let events := [.start 0, .work 0 (.inr (.work 0 (.returns (.error [])))) 0]
    ((client v x).after (newClient v) events).completed x = [.failed] ∧ (client v x).told (newClient v) events = [] ∧
      ¬ SeesAll v x events ∧ v.state ((client v x).after (newClient v) events).breaker = .closed := by
  refine ⟨rfl, rfl, fun h => ?_, rfl⟩
  exact absurd h.length_eq (by decide)

end HelixRpc.Runtime
