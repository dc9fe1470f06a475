import HelixRpc.Runtime.Go.CircuitBreaker

/-!
# Requests that share a circuit breaker

Model of concurrent calls of `ExecuteWithRetry` (`runtimes/go/retry.go`).
-/

namespace HelixRpc.Runtime.Go.Interleaving

open Foundation

inductive AllowPoint where
  | loadState
  | loadOpenTime
  | since (openedAt : Int64)
  | swapState
  | resetSuccesses
  deriving DecidableEq

inductive SuccessPoint where
  | loadState
  | addSuccess
  | storeClosed
  | resetFailures
  deriving DecidableEq

inductive FailurePoint where
  | addFailure
  | swapClosed
  | swapHalfOpen
  | readClock
  | storeOpenTime (now : Int64)
  deriving DecidableEq

inductive Admission where
  | refused
  | admitted (seen : CircuitState)
  deriving DecidableEq

def Admission.answer : Admission → Bool
  | .refused => false
  | .admitted _ => true

variable (cfg : BreakerConfig) (cb : CircuitBreaker)

def allowStep (point : AllowPoint) (now : Int64) :
    CircuitBreaker × (AllowPoint ⊕ Admission) :=
  match point with
  | .loadState =>
    match cb.state with
    | .closed => (cb, .inr (.admitted .closed))
    | .opened => (cb, .inl .loadOpenTime)
    | .halfOpen => (cb, .inr (.admitted .halfOpen))
  | .loadOpenTime => (cb, .inl (.since cb.lastOpenTime))
  | .since openedAt =>
    if cfg.openTimeout ≤ timeSince now openedAt then (cb, .inl .swapState) else (cb, .inr .refused)
  | .swapState =>
    if cb.state = .opened then ({ cb with state := .halfOpen }, .inl .resetSuccesses)
    else (cb, .inr (.admitted cb.state))
  | .resetSuccesses => ({ cb with successes := 0 }, .inr (.admitted .halfOpen))

def successStep (point : SuccessPoint) (_now : Int64) :
    CircuitBreaker × (SuccessPoint ⊕ Unit) :=
  match point with
  | .loadState =>
    match cb.state with
    | .halfOpen => (cb, .inl .addSuccess)
    | .closed => (cb, .inl .resetFailures)
    | .opened => (cb, .inr ())
  | .addSuccess =>
    let probes := cb.successes + 1
    if cfg.halfOpenProbes ≤ probes then ({ cb with successes := probes }, .inl .storeClosed)
    else ({ cb with successes := probes }, .inr ())
  | .storeClosed => ({ cb with state := .closed }, .inl .resetFailures)
  | .resetFailures => ({ cb with failures := 0 }, .inr ())

def failureStep (point : FailurePoint) (now : Int64) :
    CircuitBreaker × (FailurePoint ⊕ Unit) :=
  match point with
  | .addFailure =>
    let f := cb.failures + 1
    if cfg.maxFailures ≤ f then ({ cb with failures := f }, .inl .swapClosed)
    else ({ cb with failures := f }, .inr ())
  | .swapClosed =>
    if cb.state = .closed then ({ cb with state := .opened }, .inl .readClock)
    else (cb, .inl .swapHalfOpen)
  | .swapHalfOpen =>
    if cb.state = .halfOpen then ({ cb with state := .opened }, .inl .readClock)
    else (cb, .inr ())
  | .readClock => (cb, .inl (.storeOpenTime now))
  | .storeOpenTime now => ({ cb with lastOpenTime := now }, .inr ())

structure RetryPolicy where
  maxAttempts : Int
  hedged : Bool

structure Choice where
  now : Int64
  succeeds : Bool
  retryable : Bool
  proceeds : Bool
  deriving DecidableEq

inductive Worker where
  | operating (left : Nat)
  | succeeding (point : SuccessPoint)
  | failing (point : FailurePoint) (left : Nat) (retryable : Bool)
  | sleeping (left : Nat)
  | finished
  deriving DecidableEq

inductive Caller where
  | allowing (point : AllowPoint)
  | delaying
  | waiting
  deriving DecidableEq

structure Request where
  caller : Caller
  workers : List Worker
  deriving DecidableEq

inductive Label where
  | silent
  | allow (admission : Admission)
  | recorded
  deriving DecidableEq

def beginAttempt : Nat → Worker
  | 0 => .finished
  | left + 1 => .operating left

variable (cfg : BreakerConfig)

def workerStep (cb : CircuitBreaker) (w : Worker) (c : Choice) :
    CircuitBreaker × Worker × Label :=
  match w with
  | .operating left =>
    if c.succeeds then (cb, .succeeding .loadState, .silent)
    else (cb, .failing .addFailure left c.retryable, .silent)
  | .succeeding point =>
    match successStep cfg cb point c.now with
    | (cb, .inl point) => (cb, .succeeding point, .silent)
    | (cb, .inr ()) => (cb, .finished, .recorded)
  | .failing point left retryable =>
    match failureStep cfg cb point c.now with
    | (cb, .inl point) => (cb, .failing point left retryable, .silent)
    | (cb, .inr ()) =>
      (cb, if retryable = true ∧ left ≠ 0 then .sleeping left else .finished, .recorded)
  | .sleeping left => (cb, if c.proceeds then beginAttempt left else .finished, .silent)
  | .finished => (cb, .finished, .silent)

def callerStep (policy : RetryPolicy) (cb : CircuitBreaker) (r : Request)
    (c : Choice) : CircuitBreaker × Request × Label :=
  match r.caller with
  | .allowing point =>
    match allowStep cfg cb point c.now with
    | (cb, .inl point) => (cb, { r with caller := .allowing point }, .silent)
    | (cb, .inr .refused) => (cb, { r with caller := .waiting }, .allow .refused)
    | (cb, .inr (.admitted seen)) =>
      (cb, ⟨if policy.hedged then .delaying else .waiting, [beginAttempt policy.maxAttempts.toNat]⟩,
        .allow (.admitted seen))
  | .delaying =>
    if c.proceeds then
      (cb, ⟨.waiting, r.workers ++ [beginAttempt policy.maxAttempts.toNat]⟩, .silent)
    else (cb, { r with caller := .waiting }, .silent)
  | .waiting => (cb, r, .silent)

structure System where
  cb : CircuitBreaker
  requests : Nat → Request

def newSystem : System := ⟨newCircuitBreaker, fun _ => ⟨.allowing .loadState, []⟩⟩

structure Event where
  request : Nat
  worker : Option Nat
  choice : Choice
  deriving DecidableEq

variable (policies : Nat → RetryPolicy)

def system : Machine System Event Label :=
  fun s e =>
    let r := s.requests e.request
    match e.worker with
    | none =>
      let (cb, r, label) := callerStep cfg (policies e.request) s.cb r e.choice
      (⟨cb, Function.update s.requests e.request r⟩, label)
    | some i =>
      match r.workers[i]? with
      | none => (s, .silent)
      | some w =>
        let (cb, w, label) := workerStep cfg s.cb w e.choice
        (⟨cb, Function.update s.requests e.request { r with workers := r.workers.set i w }⟩, label)

/-- A request was admitted as a probe, and none of its outcomes has been recorded since. -/
def probing (request : Nat) : List (Observed System Event Label) → Bool
  | [] => false
  | o :: earlier =>
    if o.input.request = request then
      match o.answer with
      | .allow (.admitted seen) => seen = .halfOpen
      | .recorded => false
      | _ => probing request earlier
    else probing request earlier

def OtherProbing (earlier : List Event) (e : Event) : Prop :=
  ∃ request, request ≠ e.request ∧ probing request ((system cfg policies).history newSystem earlier) = true

/-- While the outcome of a probe is not recorded, no other request is admitted. -/
def OneProbe (events : List Event) : Prop :=
  ∀ earlier e later, events = earlier ++ e :: later → OtherProbing cfg policies earlier e →
    ∀ admission, (system cfg policies ((system cfg policies).after newSystem earlier) e).2 =
      .allow admission → admission.answer = false

/-- A request in `Allow` finds the breaker open where it looks at the state, and it has not taken the
breaker to half-open itself. -/
def FindsOpen (s : System) (e : Event) : Prop :=
  e.worker = none → ∀ point, (s.requests e.request).caller = .allowing point →
    ((point = .loadState ∨ point = .swapState) → s.cb.state = .opened) ∧ point ≠ .resetSuccesses

section
variable {cfg : BreakerConfig} {policies : Nat → RetryPolicy} {s : System} {e : Event}

theorem workerStep_label (cb : CircuitBreaker) (w : Worker) (c : Choice) (admission : Admission) :
    (workerStep cfg cb w c).2.2 ≠ .allow admission := by
  cases w with
  | operating left =>
    rw [workerStep]
    split <;> nofun
  | succeeding point =>
    rw [workerStep]
    split <;> nofun
  | failing point left retryable =>
    rw [workerStep]
    split <;> nofun
  | sleeping left => nofun
  | finished => nofun

theorem allowStep_admits_iff (cb : CircuitBreaker) (point : AllowPoint) (now : Int64) :
    (∀ seen, (allowStep cfg cb point now).2 ≠ .inr (.admitted seen)) ↔
      ((point = .loadState ∨ point = .swapState) → cb.state = .opened) ∧ point ≠ .resetSuccesses := by
  cases point with
  | loadState =>
    rcases cb.state.eq_or with hstate | hstate | hstate <;> simp [allowStep, hstate]
  | loadOpenTime => simp [allowStep]
  | since openedAt =>
    by_cases hlate : cfg.openTimeout ≤ timeSince now openedAt <;> simp [allowStep, hlate]
  | swapState =>
    by_cases hstate : cb.state = .opened <;> simp [allowStep, hstate]
  | resetSuccesses => simp [allowStep]

theorem callerStep_label (policy : RetryPolicy) (cb : CircuitBreaker) (r : Request) (c : Choice) {point : AllowPoint}
    (hpoint : r.caller = .allowing point) (seen : CircuitState) : (callerStep cfg policy cb r c).2.2 = .allow
    (.admitted seen) ↔ (allowStep cfg cb point c.now).2 = .inr (.admitted seen) := by
  rw [callerStep, hpoint]
  dsimp only
  rcases allowStep cfg cb point c.now with ⟨cb', point' | _ | seen'⟩ <;> simp

theorem callerStep_admits_iff (policy : RetryPolicy) (cb : CircuitBreaker) (r : Request) (c : Choice) :
    (∀ seen, (callerStep cfg policy cb r c).2.2 ≠ .allow (.admitted seen)) ↔ ∀ point, r.caller = .allowing point →
        ((point = .loadState ∨ point = .swapState) → cb.state = .opened) ∧ point ≠ .resetSuccesses := by
  cases hcaller : r.caller with
  | allowing point =>
    simp only [ne_eq, callerStep_label _ _ _ _ hcaller]
    rw [allowStep_admits_iff]
    constructor
    · intro h point' hpoint'
      cases hpoint'
      exact h
    · exact fun h => h point rfl
  | delaying =>
    refine iff_of_true (fun seen => ?_) nofun
    rw [callerStep, hcaller]
    dsimp only
    split <;> nofun
  | waiting =>
    refine iff_of_true (fun seen => ?_) nofun
    rw [callerStep, hcaller]
    nofun

theorem refuses_iff (label : Label) : (∀ admission, label = .allow admission → admission.answer = false) ↔
      ∀ seen, label ≠ .allow (.admitted seen) := by
  constructor
  · intro h seen hseen
    exact absurd (h _ hseen) nofun
  · intro h admission hadmission
    cases admission with
    | refused => rfl
    | admitted seen => exact absurd hadmission (h seen)

theorem step_admits_iff : (∀ admission, (system cfg policies s e).2 = .allow admission → admission.answer = false) ↔
      FindsOpen s e := by
  rw [refuses_iff]
  obtain ⟨request, worker, choice⟩ := e
  cases worker with
  | some i =>
    refine iff_of_true (fun seen => ?_) nofun
    rw [system]
    dsimp only
    split
    · nofun
    · exact workerStep_label _ _ _ _
  | none =>
    change (∀ seen, (callerStep cfg (policies request) s.cb (s.requests request) choice).2.2 ≠
      .allow (.admitted seen)) ↔ _
    rw [callerStep_admits_iff]
    exact ⟨fun h _ => h, fun h => h rfl⟩
end

/-- In every interleaving of requests one probe is admitted at a time exactly if all other requests that
are in `Allow` in that time find the breaker open again. -/
theorem one_probe_iff (cfg : BreakerConfig) (policies : Nat → RetryPolicy) (events : List Event) :
    OneProbe cfg policies events ↔ ∀ earlier e later, events = earlier ++ e :: later →
    OtherProbing cfg policies earlier e → FindsOpen ((system cfg policies).after newSystem earlier) e :=
  forall_congr' fun _ => forall_congr' fun _ => forall_congr' fun _ => forall_congr' fun _ =>
    forall_congr' fun _ => step_admits_iff

def callerEvent (request : Nat) (now : Int64) : Event := ⟨request, none, ⟨now, false, true, true⟩⟩

def failEvent (request : Nat) (now : Int64) : Event := ⟨request, some 0, ⟨now, false, true, true⟩⟩

/-- Request 0 is admitted and its failure opens the breaker; after the timeout request 1 takes it to
half-open. -/
def probeRun : List Event := callerEvent 0 0 :: List.replicate 5 (failEvent 0 1) ++ List.replicate 5 (callerEvent 1 9)

theorem second_probe_admitted : (system ⟨1, 5, 1⟩ fun _ => ⟨1, false⟩).answers newSystem
    (probeRun ++ [callerEvent 2 9]) = .allow (.admitted .closed) :: List.replicate 4 .silent ++ .recorded ::
    List.replicate 4 .silent ++ [.allow (.admitted .halfOpen), .allow (.admitted .halfOpen)] ∧ ¬ OneProbe ⟨1, 5, 1⟩
    (fun _ => ⟨1, false⟩) (probeRun ++ [callerEvent 2 9]) := by
  refine ⟨by decide, fun hone => ?_⟩
  have hrefused := hone probeRun (callerEvent 2 9) [] rfl ⟨1, by decide, by decide⟩
    (.admitted .halfOpen) (by decide)
  cases hrefused

end HelixRpc.Runtime.Go.Interleaving
