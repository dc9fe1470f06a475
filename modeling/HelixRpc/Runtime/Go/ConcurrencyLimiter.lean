import HelixRpc.Foundation.Machine
import HelixRpc.Foundation.SignedWord

/-!
# The adaptive concurrency limiter

Model of `AdaptiveConcurrencyLimiter` (`runtimes/go/ratelimit.go`).
-/

namespace HelixRpc.Runtime.Go.Concurrency

open Foundation List Machine

structure LimiterConfig where
  minLimit : Int32
  maxLimit : Int32
  deriving DecidableEq

structure Limiter where
  limit : Int32
  activeRequests : Int32
  rttNoLoad : Int64
  rttActual : Int64
  deriving DecidableEq

def newAdaptiveConcurrencyLimiter (initialLimit : Int32) : Limiter := ⟨initialLimit, 0, 0, 0⟩

structure FloatOps where
  average : Int64 → Int64 → Int64
  belowAlpha : Int32 → Int64 → Int64 → Bool
  aboveBeta : Int32 → Int64 → Int64 → Bool

variable (cfg : LimiterConfig)

def updateLimit (ops : FloatOps) (l : Limiter) (rtt : Int64) : Limiter :=
  let rttNoLoad := if l.rttNoLoad = 0 ∨ rtt < l.rttNoLoad then rtt else l.rttNoLoad
  let rttActual := if l.rttActual = 0 then rtt else ops.average l.rttActual rtt
  let limit :=
    if ops.belowAlpha l.limit rttNoLoad rttActual then
      if l.limit < cfg.maxLimit then l.limit + 1 else l.limit
    else if ops.aboveBeta l.limit rttNoLoad rttActual then
      if cfg.minLimit < l.limit then l.limit - 1 else l.limit
    else l.limit
  { l with limit := limit, rttNoLoad := rttNoLoad, rttActual := rttActual }

inductive Point where
  | loadActive
  | loadLimit (active : Int32)
  | swap (active : Int32)
  | refused
  | inside
  | updating (rtt : Int64)
  | done
  | panicked
  deriving DecidableEq

inductive Outcome where
  | value
  | error
  | panic
  deriving DecidableEq

structure System where
  limiter : Limiter
  requests : List Point
  deriving DecidableEq

def newSystem (initialLimit : Int32) : System := ⟨newAdaptiveConcurrencyLimiter initialLimit, []⟩

inductive Event where
  | arrive
  | acquire (request : Nat)
  | finish (request : Nat) (outcome : Outcome) (rtt : Int64)
  | update (request : Nat) (ops : FloatOps)

inductive Label where
  | silent
  | acquired
  | refused
  | released
  | panicked
  deriving DecidableEq

variable (s : System)

def System.move (limiter : Limiter) (request : Nat) (point : Point) : System :=
  ⟨limiter, s.requests.set request point⟩

def system : Machine System Event Label := fun s e =>
  let l := s.limiter
  match e with
  | .arrive => ({ s with requests := s.requests ++ [.loadActive] }, .silent)
  | .acquire i =>
    match s.requests[i]? with
    | some .loadActive => (s.move l i (.loadLimit l.activeRequests), .silent)
    | some (.loadLimit active) =>
      if l.limit ≤ active then (s.move l i .refused, .refused)
      else (s.move l i (.swap active), .silent)
    | some (.swap active) =>
      if l.activeRequests = active then
        (s.move { l with activeRequests := active + 1 } i .inside, .acquired)
      else (s.move l i .loadActive, .silent)
    | _ => (s, .silent)
  | .finish i outcome rtt =>
    match s.requests[i]? with
    | some .inside =>
      -- a panic leaves the interceptor before `Release`
      if outcome = .panic then (s.move l i .panicked, .panicked)
      else (s.move { l with activeRequests := l.activeRequests - 1 } i (.updating rtt), .released)
    | _ => (s, .silent)
  | .update i ops =>
    match s.requests[i]? with
    | some (.updating rtt) => (s.move (updateLimit cfg ops l rtt) i .done, .silent)
    | _ => (s, .silent)

inductive LimiterStep (cfg : LimiterConfig) (s : System) : Event → System → Label → Prop where
  | idle (e : Event) : LimiterStep cfg s e s .silent
  | arrive : LimiterStep cfg s .arrive { s with requests := s.requests ++ [.loadActive] } .silent
  | load {i : Nat} (hpoint : s.requests[i]? = some .loadActive) :
      LimiterStep cfg s (.acquire i) (s.move s.limiter i (.loadLimit s.limiter.activeRequests)) .silent
  | refuse {i : Nat} {active : Int32} (hpoint : s.requests[i]? = some (.loadLimit active))
      (hlimit : s.limiter.limit ≤ active) :
      LimiterStep cfg s (.acquire i) (s.move s.limiter i .refused) .refused
  | pass {i : Nat} {active : Int32} (hpoint : s.requests[i]? = some (.loadLimit active))
      (hlimit : active < s.limiter.limit) :
      LimiterStep cfg s (.acquire i) (s.move s.limiter i (.swap active)) .silent
  | enter {i : Nat} {active : Int32} (hpoint : s.requests[i]? = some (.swap active))
      (hsame : s.limiter.activeRequests = active) :
      LimiterStep cfg s (.acquire i)
        (s.move { s.limiter with activeRequests := active + 1 } i .inside) .acquired
  | again {i : Nat} {active : Int32} (hpoint : s.requests[i]? = some (.swap active)) :
      LimiterStep cfg s (.acquire i) (s.move s.limiter i .loadActive) .silent
  | panic {i : Nat} (rtt : Int64) (hpoint : s.requests[i]? = some .inside) :
      LimiterStep cfg s (.finish i .panic rtt) (s.move s.limiter i .panicked) .panicked
  | release {i : Nat} {outcome : Outcome} (rtt : Int64) (hpoint : s.requests[i]? = some .inside)
      (houtcome : outcome ≠ .panic) :
      LimiterStep cfg s (.finish i outcome rtt)
        (s.move { s.limiter with activeRequests := s.limiter.activeRequests - 1 } i (.updating rtt))
        .released
  | update {i : Nat} {rtt : Int64} (ops : FloatOps) (hpoint : s.requests[i]? = some (.updating rtt)) :
      LimiterStep cfg s (.update i ops) (s.move (updateLimit cfg ops s.limiter rtt) i .done) .silent

theorem system_cases (e : Event) : LimiterStep cfg s e (system cfg s e).1 (system cfg s e).2 := by
  cases e with
  | arrive => exact .arrive
  | acquire i =>
    rw [system]
    split
    · rename_i hpoint
      exact .load hpoint
    · rename_i active hpoint
      split_ifs with hlimit
      · exact .refuse hpoint hlimit
      · exact .pass hpoint (Int32.not_le.1 hlimit)
    · rename_i active hpoint
      split_ifs with hsame
      · exact .enter hpoint hsame
      · exact .again hpoint
    · exact .idle _
  | finish i outcome rtt =>
    rw [system]
    split
    · rename_i hpoint
      split_ifs with houtcome
      · rw [houtcome]
        exact .panic rtt hpoint
      · exact .release rtt hpoint houtcome
    · exact .idle _
  | update i ops =>
    rw [system]
    split
    · rename_i rtt hpoint
      exact .update ops hpoint
    · exact .idle _

def Point.hasSlot : Point → Bool
  | .inside => true
  | .panicked => true
  | _ => false

def System.slots : Nat := s.requests.countP Point.hasSlot

def System.insideHandler : Nat := s.requests.countP (· = .inside)

theorem countP_set_add {p : Point → Bool} {requests : List Point} {i : Nat} {old : Point}
    (h : requests[i]? = some old) (new : Point) :
    (requests.set i new).countP p + (if p old then 1 else 0) = requests.countP p + (if p new then 1 else 0) := by
  obtain ⟨hi, hold⟩ := List.getElem?_eq_some_iff.1 h
  have hpos : (if p old = true then 1 else 0) ≤ requests.countP p := by
    split_ifs with hp
    · exact countP_pos_iff.2 ⟨old, hold ▸ getElem_mem hi, hp⟩
    · exact Nat.zero_le _
  rw [countP_set hi, hold]
  omega

section
variable {cfg : LimiterConfig} {s s' : System} {e : Event} {label : Label}

theorem LimiterStep.countP {p : Point → Bool} (hinside : p .inside = true) (houtside : ∀ point, point ≠ .inside →
    point ≠ .panicked → p point = false) (hstep : LimiterStep cfg s e s' label) : s'.requests.countP p + (if label =
    .released ∨ label = .panicked then 1 else 0) = s.requests.countP p + (if label = .acquired ∨ (label = .panicked ∧
    p .panicked = true) then 1 else 0) := by
  -- a request that moves is counted by its old point and by its new one
  have hmove : ∀ (limiter : Limiter) {i : Nat} {old : Point}, s.requests[i]? = some old →
      ∀ new : Point, (s.move limiter i new).requests.countP p + (if p old then 1 else 0) =
        s.requests.countP p + (if p new then 1 else 0) := fun _ _ _ => countP_set_add
  cases hstep with
  | idle => simp
  | arrive => simp [houtside]
  | load hpoint => simpa [houtside] using hmove s.limiter hpoint (.loadLimit s.limiter.activeRequests)
  | refuse hpoint hlimit => simpa [houtside] using hmove s.limiter hpoint .refused
  | @pass i active hpoint hlimit => simpa [houtside] using hmove s.limiter hpoint (.swap active)
  | enter hpoint hsame => simpa [houtside, hinside] using hmove _ hpoint .inside
  | again hpoint => simpa [houtside] using hmove s.limiter hpoint .loadActive
  | panic rtt hpoint => simpa [hinside] using hmove s.limiter hpoint .panicked
  | release rtt hpoint houtcome => simpa [houtside, hinside] using hmove _ hpoint (.updating rtt)
  | update ops hpoint => simpa [houtside] using hmove _ hpoint .done

theorem LimiterStep.slots (hstep : LimiterStep cfg s e s' label) :
    s'.slots + (if label = .released then 1 else 0) = s.slots + (if label = .acquired then 1 else 0) := by
  have houtside : ∀ point : Point, point ≠ .inside → point ≠ .panicked → point.hasSlot = false := by
    intro point hinside hpanicked
    cases point with
    | inside => exact absurd rfl hinside
    | panicked => exact absurd rfl hpanicked
    | _ => rfl
  have hcount := hstep.countP rfl houtside
  -- a request that panics keeps its slot
  cases label with
  | panicked => exact Nat.add_right_cancel hcount
  | _ => exact hcount

theorem LimiterStep.insideHandler (hstep : LimiterStep cfg s e s' label) : s'.insideHandler + (if label = .released ∨
    label = .panicked then 1 else 0) = s.insideHandler + (if label = .acquired then 1 else 0) := by
  have hcount := hstep.countP (p := fun point => point = .inside) (decide_eq_true rfl)
    (fun _ hinside _ => decide_eq_false hinside)
  simpa [System.insideHandler] using hcount

def SwapsBelow (bound : Int) (s : System) : Prop := ∀ active : Int32, .swap active ∈ s.requests → active.toInt < bound

theorem SwapsBelow.step {bound : Int} (h : SwapsBelow bound s) (hlimit : s.limiter.limit.toInt ≤ bound)
    (hstep : LimiterStep cfg s e s' label) : SwapsBelow bound s' := by
  -- only a move to a compare-and-swap could break the bound
  have hset : ∀ (limiter : Limiter) (i : Nat) (point : Point), (∀ active : Int32, point = .swap active →
    active.toInt < bound) → SwapsBelow bound (s.move limiter i point) := by
    intro limiter i point hpoint active hmem
    rcases mem_or_eq_of_mem_set hmem with hmem | heq
    · exact h active hmem
    · exact hpoint active heq.symm
  cases hstep with
  | idle => exact h
  | arrive =>
    intro active hmem
    rcases mem_append.1 hmem with hmem | hmem
    · exact h active hmem
    · cases mem_singleton.1 hmem
  | pass _ hactive =>
    refine hset _ _ _ (fun active heq => ?_)
    cases heq
    exact (Int32.lt_iff_toInt_lt.1 hactive).trans_le hlimit
  | _ => exact hset _ _ _ (fun _ heq => by cases heq)

theorem active_step (h : s.limiter.activeRequests.toInt = s.slots) (hswap : SwapsBelow (2 ^ 31 - 1) s)
    (hstep : LimiterStep cfg s e s' label) : s'.limiter.activeRequests.toInt = s'.slots := by
  have hslots := hstep.slots
  cases hstep with
  | enter hpoint hsame =>
    -- the counter is the one that was read, and that one was below a limit
    have hbound := hswap _ (mem_of_getElem? hpoint)
    rw [if_pos rfl, if_neg (by decide), Nat.add_zero] at hslots
    rw [hsame] at h
    rw [hslots]
    push_cast
    rw [← h]
    exact SignedWord.toInt32_add_one (by omega)
  | release _ _ _ =>
    rw [if_pos rfl, if_neg (by decide), Nat.add_zero] at hslots
    -- the request that is released has a slot, so the counter is positive
    have hactive := SignedWord.toInt32_sub_one (show -2 ^ 31 < s.limiter.activeRequests.toInt by omega)
    exact hactive.trans (by omega)
  -- the other steps leave the counter, and the slots with it
  | _ => exact h.trans (congrArg Nat.cast hslots.symm)

structure Counted (s : System) : Prop where
  active : s.limiter.activeRequests.toInt = s.slots
  swaps : SwapsBelow (2 ^ 31 - 1) s

theorem counted_newSystem (initialLimit : Int32) : Counted (newSystem initialLimit) :=
  ⟨rfl, fun _ hmem => absurd hmem not_mem_nil⟩

theorem Counted.step (h : Counted s) (hstep : LimiterStep cfg s e s' label) : Counted s' := by
  have hlimit : s.limiter.limit.toInt ≤ 2 ^ 31 - 1 := Int.le_sub_one_of_lt s.limiter.limit.toInt_lt
  exact ⟨active_step h.active h.swaps hstep, h.swaps.step hlimit hstep⟩
end

variable (cfg : LimiterConfig)

theorem counted_after {s : System} (hs : Counted s) (events : List Event) : Counted ((system cfg).after s events) :=
  invariant_after (fun s e hs => hs.step (system_cases cfg s e)) hs events

theorem slots_after (s : System) (events : List Event) : (((system cfg).after s events).slots : Int) = s.slots +
    ((system cfg).answers s events).count .acquired - ((system cfg).answers s events).count .released := by
  induction events generalizing s with
  | nil => simp [answers]
  | cons e events ih =>
    have hfirst := (system_cases cfg s e).slots
    rw [after_cons, ih, answers, count_cons, count_cons]
    simp only [beq_iff_eq]
    omega

structure WithinLimits (cfg : LimiterConfig) (s : System) : Prop where
  lower : cfg.minLimit.toInt ≤ s.limiter.limit.toInt
  upper : s.limiter.limit.toInt ≤ cfg.maxLimit.toInt
  swaps : SwapsBelow cfg.maxLimit.toInt s
  active : s.limiter.activeRequests.toInt ≤ max 0 cfg.maxLimit.toInt

theorem updateLimit_limit (ops : FloatOps) {l : Limiter} (rtt : Int64) (hlow : cfg.minLimit.toInt ≤ l.limit.toInt)
    (hhigh : l.limit.toInt ≤ cfg.maxLimit.toInt) : cfg.minLimit.toInt ≤ (updateLimit cfg ops l rtt).limit.toInt ∧
    (updateLimit cfg ops l rtt).limit.toInt ≤ cfg.maxLimit.toInt := by
  have hmin := cfg.minLimit.le_toInt
  have hmax := cfg.maxLimit.toInt_lt
  unfold updateLimit
  dsimp only
  generalize (if l.rttNoLoad = 0 ∨ rtt < l.rttNoLoad then rtt else l.rttNoLoad) = rttNoLoad
  generalize (if l.rttActual = 0 then rtt else ops.average l.rttActual rtt) = rttActual
  split_ifs with hbelow hlt habove hgt
  · rw [Int32.lt_iff_toInt_lt] at hlt
    rw [SignedWord.toInt32_add_one (by omega)]
    omega
  · exact ⟨hlow, hhigh⟩
  · rw [Int32.lt_iff_toInt_lt] at hgt
    rw [SignedWord.toInt32_sub_one (by omega)]
    omega
  all_goals exact ⟨hlow, hhigh⟩

section
variable {cfg : LimiterConfig} {s s' : System} {e : Event} {label : Label}

theorem limit_step (h : WithinLimits cfg s) (hstep : LimiterStep cfg s e s' label) :
    cfg.minLimit.toInt ≤ s'.limiter.limit.toInt ∧ s'.limiter.limit.toInt ≤ cfg.maxLimit.toInt := by
  cases hstep with
  | update ops _ => exact updateLimit_limit cfg ops _ h.lower h.upper
  | _ => exact ⟨h.lower, h.upper⟩

theorem active_le_step (h : WithinLimits cfg s) (hcounted : Counted s) (hstep : LimiterStep cfg s e s' label) :
    s'.limiter.activeRequests.toInt ≤ max 0 cfg.maxLimit.toInt := by
  have hmax := cfg.maxLimit.toInt_lt
  have hactive := h.active
  cases hstep with
  | enter hpoint _ =>
    have hbound := h.swaps _ (mem_of_getElem? hpoint)
    exact (SignedWord.toInt32_add_one (by omega)).trans_le (by omega)
  | release _ hpoint _ =>
    have hslots := hcounted.active
    exact (SignedWord.toInt32_sub_one (by omega)).trans_le (by omega)
  | _ => exact hactive

theorem WithinLimits.step (h : WithinLimits cfg s) (hcounted : Counted s)
    (hstep : LimiterStep cfg s e s' label) : WithinLimits cfg s' := by
  obtain ⟨hlower, hupper⟩ := limit_step h hstep
  exact ⟨hlower, hupper, h.swaps.step h.upper hstep, active_le_step h hcounted hstep⟩
end

variable {s : System} {cfg : LimiterConfig} {e : Event}

theorem withinLimits_after (cfg : LimiterConfig) (hs : WithinLimits cfg s)
    (hcounted : Counted s) (events : List Event) : WithinLimits cfg ((system cfg).after s events) := by
  -- the bound on the counter needs that the counter is right, so both are carried along
  have hkeep : ∀ s e, WithinLimits cfg s ∧ Counted s →
      WithinLimits cfg (system cfg s e).1 ∧ Counted (system cfg s e).1 := by
    rintro s e ⟨hs, hcounted⟩
    have hstep := system_cases cfg s e
    exact ⟨hs.step hcounted hstep, hcounted.step hstep⟩
  exact (invariant_after hkeep ⟨hs, hcounted⟩ events).1

/-- Whatever the measured times are, the limit stays between its bounds, and the active
requests are those that have acquired a slot and not released it. -/
theorem limiter_invariant (cfg : LimiterConfig) (initialLimit : Int32) (events : List Event)
    (hmin : cfg.minLimit ≤ initialLimit) (hmax : initialLimit ≤ cfg.maxLimit) :
    let s := (system cfg).after (newSystem initialLimit) events
    let labels := (system cfg).answers (newSystem initialLimit) events
    (cfg.minLimit ≤ s.limiter.limit ∧ s.limiter.limit ≤ cfg.maxLimit) ∧
      s.limiter.activeRequests.toInt = labels.count .acquired - labels.count .released ∧
      0 ≤ s.limiter.activeRequests.toInt ∧ s.limiter.activeRequests.toInt ≤ max 0 cfg.maxLimit.toInt := by
  have hnew := counted_newSystem initialLimit
  have hstart : WithinLimits cfg (newSystem initialLimit) :=
    ⟨Int32.le_iff_toInt_le.1 hmin, Int32.le_iff_toInt_le.1 hmax, fun _ hmem => absurd hmem not_mem_nil, le_max_left 0 _⟩
  have hend := withinLimits_after cfg hstart hnew events
  have hactive := (counted_after cfg hnew events).active
  have hslots := slots_after cfg (newSystem initialLimit) events
  have hzero : (newSystem initialLimit).slots = 0 := rfl
  rw [hzero] at hslots
  refine ⟨⟨Int32.le_iff_toInt_le.2 hend.lower, Int32.le_iff_toInt_le.2 hend.upper⟩, ?_, ?_, hend.active⟩
  · rw [hactive, hslots]
    omega
  · rw [hactive]
    omega

theorem limiter_invariant_released : let cfg : LimiterConfig := ⟨1, 5⟩
    let rising : FloatOps := ⟨fun last _ => last, fun _ _ _ => true, fun _ _ _ => false⟩
    let events : List Event := [.arrive, .arrive, .acquire 0, .acquire 0, .acquire 0, .acquire 1, .acquire 1,
      .acquire 1, .finish 0 .value 7, .update 0 rising]
    let s := (system cfg).after (newSystem 2) events
    (s.limiter.limit = 3 ∧ s.limiter.activeRequests = 1) ∧ s.limiter.activeRequests.toInt ≤ max 0 cfg.maxLimit.toInt :=
  ⟨by decide, (limiter_invariant _ _ _ (by decide) (by decide)).2.2.2⟩

theorem negative_limit_exceeded : let cfg : LimiterConfig := ⟨-1, -1⟩
    (cfg.minLimit ≤ -1 ∧ -1 ≤ cfg.maxLimit) ∧
      ¬((system cfg).after (newSystem (-1)) []).limiter.activeRequests ≤ cfg.maxLimit := by decide

def SlotsGivenBack (s : System) : Prop :=
  s.limiter.activeRequests.toInt = s.insideHandler ∧ (s.insideHandler = 0 → s.limiter.activeRequests = 0)

instance (s : System) : Decidable (SlotsGivenBack s) := inferInstanceAs (Decidable (_ ∧ _))

def Panics (s : System) (e : Event) : Prop := ∃ i rtt, e = .finish i .panic rtt ∧ s.requests[i]? = some .inside

theorem LimiterStep.panics {s s' : System} (hstep : LimiterStep cfg s e s' .panicked) : Panics s e := by
  cases hstep with
  | panic rtt hpoint => exact ⟨_, rtt, rfl, hpoint⟩

theorem panicked_iff (cfg : LimiterConfig) (s : System) (e : Event) : (system cfg s e).2 = .panicked ↔ Panics s e := by
  constructor
  · intro hlabel
    exact LimiterStep.panics (hlabel ▸ system_cases cfg s e)
  · rintro ⟨i, rtt, rfl, hpoint⟩
    simp [system, hpoint]

theorem Counted.slotsGivenBack_iff (h : Counted s) : SlotsGivenBack s ↔ s.slots = s.insideHandler := by
  unfold SlotsGivenBack
  rw [h.active]
  constructor
  · intro hgiven
    exact_mod_cast hgiven.1
  · intro heq
    refine ⟨congrArg Nat.cast heq, fun hzero => ?_⟩
    have hactive := h.active
    rw [heq, hzero] at hactive
    exact Int32.toInt_inj.1 hactive

theorem slots_eq_step_iff (h : s.slots = s.insideHandler) :
    (system cfg s e).1.slots = (system cfg s e).1.insideHandler ↔ ¬ Panics s e := by
  have hstep := system_cases cfg s e
  have hslots := hstep.slots
  have hinside := hstep.insideHandler
  rw [← panicked_iff cfg]
  cases hlabel : (system cfg s e).2 <;> simp [hlabel] at hslots hinside ⊢ <;> omega

/-- At every moment of a run the counter is the number of requests inside their handler exactly if
no handler of the run panics. -/
theorem slots_given_back_iff (cfg : LimiterConfig) (initialLimit : Int32) (events : List Event) :
    (∀ earlier, earlier <+: events → SlotsGivenBack ((system cfg).after (newSystem initialLimit) earlier)) ↔
      (system cfg).AllSteps (fun s e => ¬ Panics s e) (newSystem initialLimit) events := by
  have hcounted := fun earlier => counted_after cfg (counted_newSystem initialLimit) earlier
  constructor
  · intro hall
    refine allSteps_iff.2 fun earlier e later heq => ?_
    have hbefore := hall earlier ⟨e :: later, heq.symm⟩
    have hafter := hall (earlier ++ [e]) ⟨later, by rw [heq, append_assoc, singleton_append]⟩
    rw [(hcounted _).slotsGivenBack_iff] at hbefore hafter
    rw [after_snoc] at hafter
    exact (slots_eq_step_iff hbefore).1 hafter
  · rintro hall earlier ⟨later, rfl⟩
    have hearlier := (allSteps_append.1 hall).1
    refine (hcounted earlier).slotsGivenBack_iff.2 ?_
    have hkeep : ∀ (s : System) (e : Event), s.slots = s.insideHandler → ¬ Panics s e →
        (system cfg s e).1.slots = (system cfg s e).1.insideHandler := fun _ _ hs => (slots_eq_step_iff hs).2
    exact hearlier.invariant hkeep rfl

theorem panic_keeps_slot : let cfg : LimiterConfig := ⟨1, 5⟩
    let events : List Event := [.arrive, .acquire 0, .acquire 0, .acquire 0, .finish 0 .panic 7]
    let s := (system cfg).after (newSystem 1) events
    (s.insideHandler = 0 ∧ s.limiter.activeRequests = 1) ∧ ¬ SlotsGivenBack s := by decide

end HelixRpc.Runtime.Go.Concurrency
