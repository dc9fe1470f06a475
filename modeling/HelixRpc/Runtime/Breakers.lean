import HelixRpc.Foundation.Double
import HelixRpc.Runtime.Go.BreakerHistory

/-!
# The circuit breakers of Rust and Python

Models of `CircuitBreaker` in `runtimes/rust/src/retry.rs` and `runtimes/python/helix_rt/retry.py`, which are ports of
the Go breaker.
-/

namespace HelixRpc.Runtime

open Foundation Runtime.Go Machine Int64

inductive RequestCall where
  | allow
  | recordSuccess
  | recordFailure
  deriving DecidableEq

structure PortCall where
  call : RequestCall
  now : Int64
  deriving DecidableEq

def PortCall.timed (c : PortCall) : TimedCall := ⟨match c.call with
    | .allow => .allow
    | .recordSuccess => .recordSuccess
    | .recordFailure => .recordFailure, c.now⟩

theorem PortCall.timed_isAutomatic (c : PortCall) : c.timed.call.isAutomatic = true := by
  obtain ⟨call, now⟩ := c
  cases call <;> rfl

structure PortConfig where
  maxFailures : Int64
  openTimeout : Int64
  halfOpenProbes : Int64
  openSeconds : ℚ
  nonneg : 0 ≤ openTimeout.toInt

def PortConfig.go (cfg : PortConfig) : BreakerConfig := ⟨cfg.maxFailures, cfg.openTimeout, cfg.halfOpenProbes⟩

def goBreaker (cfg : PortConfig) : Machine Go.CircuitBreaker PortCall (Option Bool) := fun cb c =>
  Go.breaker cfg.go cb c.timed

namespace Rust

structure CircuitBreaker where
  state : CircuitState
  failures : Int64
  successes : Int64
  lastOpenNs : UInt64
  deriving DecidableEq

def newCircuitBreaker : CircuitBreaker := ⟨.closed, 0, 0, 0⟩

def unixNanos (now : Int64) : UInt64 := UInt64.ofNat now.toInt.toNat

def elapsed (now : Int64) (openedNs : UInt64) : Option Nat :=
  if (openedNs.toNat : Int) ≤ now.toInt then some (now.toInt - openedNs.toNat).toNat else none

def increment (checks : Bool) (word : Int64) : Int64 × Option Int64 :=
  (word + 1, if checks && word = maxValue then none else some (word + 1))

namespace CircuitBreaker

variable (checks : Bool) (cfg : PortConfig) (cb : CircuitBreaker) (now : Int64)

def allow : CircuitBreaker × Bool :=
  match cb.state with
  | .closed => (cb, true)
  | .halfOpen => (cb, true)
  | .opened =>
    match elapsed now cb.lastOpenNs with
    | some elapsed =>
      if cfg.openTimeout.toInt ≤ elapsed then
        ({ cb with state := .halfOpen, successes := 0 }, true)
      else (cb, false)
    | none => (cb, false)

def recordSuccess : CircuitBreaker × Option Unit :=
  match cb.state with
  | .halfOpen =>
    let (word, sum) := increment checks cb.successes
    match sum with
    | none => ({ cb with successes := word }, none)
    | some probes =>
      if cfg.halfOpenProbes ≤ probes then
        ({ cb with state := .closed, successes := word, failures := 0 }, some ())
      else ({ cb with successes := word }, some ())
  | .closed => ({ cb with failures := 0 }, some ())
  | .opened => (cb, some ())

def recordFailure : CircuitBreaker × Option Unit :=
  let (word, sum) := increment checks cb.failures
  match sum with
  | none => ({ cb with failures := word }, none)
  | some f =>
    if cfg.maxFailures ≤ f then
      -- the exchange expects a closed breaker
      if cb.state = .closed then
        ({ cb with state := .opened, failures := word, lastOpenNs := unixNanos now }, some ())
      else ({ cb with failures := word }, some ())
    else ({ cb with failures := word }, some ())

end CircuitBreaker

def breaker (checks : Bool) (cfg : PortConfig) : Machine CircuitBreaker PortCall (Option (Option Bool)) := fun cb c =>
  match c.call with
  | .allow => ((cb.allow cfg c.now).1, some (some (cb.allow cfg c.now).2))
  | .recordSuccess =>
    ((cb.recordSuccess checks cfg).1, (cb.recordSuccess checks cfg).2.map fun _ => none)
  | .recordFailure =>
    ((cb.recordFailure checks cfg c.now).1, (cb.recordFailure checks cfg c.now).2.map fun _ => none)

end Rust

namespace Python

structure CircuitBreaker where
  state : CircuitState
  failures : Int
  successes : Int
  openedAt : ℚ
  deriving DecidableEq

def newCircuitBreaker : CircuitBreaker := ⟨.closed, 0, 0, 0⟩

namespace CircuitBreaker

variable (cfg : PortConfig) (cb : CircuitBreaker) (now : ℚ)

def allow : CircuitBreaker × Bool :=
  if cb.state = .closed then (cb, true)
  else if cb.state = .halfOpen then (cb, true)
  else if cfg.openSeconds ≤ Double.round (now - cb.openedAt) then
    ({ cb with state := .halfOpen, successes := 0 }, true)
  else (cb, false)

def recordSuccess : CircuitBreaker :=
  if cb.state = .halfOpen then
    let cb := { cb with successes := cb.successes + 1 }
    if cfg.halfOpenProbes.toInt ≤ cb.successes then { cb with state := .closed, failures := 0 } else cb
  else if cb.state = .closed then { cb with failures := 0 }
  else cb

def recordFailure : CircuitBreaker :=
  let cb := { cb with failures := cb.failures + 1 }
  if cfg.maxFailures.toInt ≤ cb.failures ∧ cb.state = .closed then
    { cb with state := .opened, openedAt := now }
  else cb

end CircuitBreaker

def breaker (cfg : PortConfig) (monotonic : Int64 → ℚ) : Machine CircuitBreaker PortCall (Option Bool) := fun cb c =>
  match c.call with
  | .allow => ((cb.allow cfg (monotonic c.now)).1, some (cb.allow cfg (monotonic c.now)).2)
  | .recordSuccess => (cb.recordSuccess cfg, none)
  | .recordFailure => (cb.recordFailure cfg (monotonic c.now), none)

end Python

/-- A call at which the clocks of the three breakers read alike: not before 1970, without a wrapped count, and with a
rounded difference in Python on the same side of the timeout. -/
structure ReadAlike (cfg : PortConfig) (monotonic : Int64 → ℚ) (go : Go.CircuitBreaker) (c : PortCall) : Prop where
  after1970 : 0 ≤ c.now.toInt
  counted : c.call = .recordFailure → go.failures ≠ maxValue
  rounded : c.call = .allow → go.state = .opened →
    (cfg.openSeconds ≤ Double.round (monotonic c.now - monotonic go.lastOpenTime) ↔
      cfg.openTimeout.toInt ≤ c.now.toInt - go.lastOpenTime.toInt)

def NoFailedProbe (go : Go.CircuitBreaker) (c : PortCall) : Prop := c.call = .recordFailure → go.state ≠ .halfOpen

structure Sound (cfg : PortConfig) (go : Go.CircuitBreaker) : Prop where
  armed : Armed cfg.go go
  probes : go.state = .halfOpen → go.successes.toInt < max 1 cfg.halfOpenProbes.toInt
  time : 0 ≤ go.lastOpenTime.toInt

section
variable {cfg : PortConfig} {monotonic : Int64 → ℚ} {go : Go.CircuitBreaker} {c : PortCall}

theorem timed_call_eq_recordFailure (h : c.timed.call = .recordFailure) : c.call = .recordFailure := by
  obtain ⟨call, now⟩ := c
  cases call with
  | allow => cases h
  | recordSuccess => cases h
  | recordFailure => rfl

theorem Sound.successes_ne (h : Sound cfg go) (hstate : go.state = .halfOpen) : go.successes ≠ maxValue := by
  intro hmax
  have hprobes := h.probes hstate
  have hlimit := cfg.halfOpenProbes.toInt_lt
  rw [hmax, toInt_maxValue] at hprobes
  omega

variable {after : Go.CircuitBreaker} {answer : Option Bool}

theorem Sound.probes_step (h : Sound cfg go) (hstep : BreakerStep cfg.go go c.timed after answer)
    (hstate : after.state = .halfOpen) : after.successes.toInt < max 1 cfg.halfOpenProbes.toInt := by
  cases hstep with
  | pass _ _ => exact h.probes hstate
  | refuse _ _ _ => exact h.probes hstate
  | ignore _ _ => exact h.probes hstate
  | reset _ _ => exact h.probes hstate
  | fail _ _ => exact h.probes hstate
  | probe _ _ _ =>
    change (0 : Int) < _
    omega
  | count _ _ hfew =>
    rw [lt_iff_toInt_lt] at hfew
    exact lt_of_lt_of_le hfew (le_max_right _ _)
  | close _ _ _ => cases hstate
  | trip _ _ _ => cases hstate

theorem Sound.time_step (h : Sound cfg go) (hnow : 0 ≤ c.now.toInt)
    (hstep : BreakerStep cfg.go go c.timed after answer) :
    0 ≤ after.lastOpenTime.toInt := by
  cases hstep with
  | pass _ _ => exact h.time
  | refuse _ _ _ => exact h.time
  | ignore _ _ => exact h.time
  | reset _ _ => exact h.time
  | fail _ _ => exact h.time
  | probe _ _ _ => exact h.time
  | count _ _ _ => exact h.time
  | close _ _ _ => exact h.time
  | trip _ _ _ => exact hnow

theorem Sound.step (h : Sound cfg go) (halike : ReadAlike cfg monotonic go c) : Sound cfg (goBreaker cfg go c).1 := by
  have harmed : Armed cfg.go (goBreaker cfg go c).1 := by
    refine h.armed.automatic ⟨fun hforce => ?_, fun hcall => ?_⟩ c.timed_isAutomatic
    · have hauto := c.timed_isAutomatic
      rw [hforce] at hauto
      cases hauto
    · exact halike.counted (timed_call_eq_recordFailure hcall)
  have hstep : BreakerStep cfg.go go c.timed (goBreaker cfg go c).1 (goBreaker cfg go c).2 :=
    breaker_cases cfg.go go c.timed_isAutomatic
  exact ⟨harmed, h.probes_step hstep, h.time_step halike.after1970 hstep⟩

theorem goBreaker_failed_probe (h : Sound cfg go) (halike : ReadAlike cfg monotonic go c)
    (hcall : c.call = .recordFailure) (hstate : go.state = .halfOpen) : (goBreaker cfg go c).1.state = .opened := by
  have hafter := recordFailure_opens (h.armed.limit hstate (halike.counted hcall)) (by rw [hstate]; nofun) c.now
  rw [goBreaker, PortCall.timed, hcall]
  exact congrArg Go.CircuitBreaker.state hafter

def toRust (go : Go.CircuitBreaker) : Rust.CircuitBreaker :=
  ⟨go.state, go.failures, go.successes, Rust.unixNanos go.lastOpenTime⟩

theorem Rust.increment_of_ne {word : Int64} (checks : Bool) (h : word ≠ maxValue) :
    Rust.increment checks word = (word + 1, some (word + 1)) := by simp [Rust.increment, h]

theorem Rust.elapsed_unixNanos {now opened : Int64} (h : 0 ≤ opened.toInt) : Rust.elapsed now (Rust.unixNanos opened) =
      if opened.toInt ≤ now.toInt then some (now.toInt - opened.toInt).toNat else none := by
  have hlt := opened.toInt_lt
  have hnat : ((Rust.unixNanos opened).toNat : Int) = opened.toInt := by
    rw [Rust.unixNanos, UInt64.toNat_ofNat_of_lt' (show opened.toInt.toNat < 2 ^ 64 by omega)]
    omega
  rw [Rust.elapsed, hnat]

theorem rust_allow (h : Sound cfg go) (now : Int64) :
    (toRust go).allow cfg now = (toRust (go.allow cfg.go now).1, (go.allow cfg.go now).2) := by
  have hnonneg := cfg.nonneg
  cases hstate : go.state with
  | closed => simp only [Rust.CircuitBreaker.allow, toRust, Go.CircuitBreaker.allow, hstate]
  | halfOpen => simp only [Rust.CircuitBreaker.allow, toRust, Go.CircuitBreaker.allow, hstate]
  | opened =>
    simp only [Rust.CircuitBreaker.allow, toRust, Go.CircuitBreaker.allow, hstate, Rust.elapsed_unixNanos h.time]
    by_cases hlate : cfg.go.openTimeout ≤ timeSince now go.lastOpenTime
    · have hge : cfg.openTimeout.toInt ≤ now.toInt - go.lastOpenTime.toInt := (le_timeSince_iff hnonneg).1 hlate
      rw [if_pos hlate, if_pos (by omega)]
      dsimp only
      rw [if_pos (by omega)]
    · have hlt : ¬ cfg.openTimeout.toInt ≤ now.toInt - go.lastOpenTime.toInt :=
        fun hge => hlate ((le_timeSince_iff hnonneg).2 hge)
      rw [if_neg hlate]
      -- `duration_since` fails if the clock has gone back; then it is too early as well
      by_cases hle : go.lastOpenTime.toInt ≤ now.toInt
      · rw [if_pos hle]
        dsimp only
        rw [if_neg (by omega), hstate]
      · rw [if_neg hle, hstate]

theorem rust_recordSuccess (h : Sound cfg go) (checks : Bool) :
    (toRust go).recordSuccess checks cfg = (toRust (go.recordSuccess cfg.go), some ()) := by
  cases hstate : go.state with
  | closed =>
    simp only [Rust.CircuitBreaker.recordSuccess, toRust, Go.CircuitBreaker.recordSuccess, hstate]
  | opened =>
    simp only [Rust.CircuitBreaker.recordSuccess, toRust, Go.CircuitBreaker.recordSuccess, hstate]
  | halfOpen =>
    simp only [Rust.CircuitBreaker.recordSuccess, toRust, Go.CircuitBreaker.recordSuccess, hstate,
      Rust.increment_of_ne checks (h.successes_ne hstate)]
    by_cases henough : cfg.halfOpenProbes ≤ go.successes + 1
    · rw [if_pos henough, if_pos (show cfg.go.halfOpenProbes ≤ go.successes + 1 from henough)]
    · rw [if_neg henough, if_neg (show ¬ cfg.go.halfOpenProbes ≤ go.successes + 1 from henough)]

theorem rust_recordFailure (hcount : go.failures ≠ maxValue) (hstate : go.state ≠ .halfOpen) (checks : Bool)
    (now : Int64) : (toRust go).recordFailure checks cfg now = (toRust (go.recordFailure cfg.go now), some ()) := by
  simp only [Rust.CircuitBreaker.recordFailure, toRust, Go.CircuitBreaker.recordFailure,
    Rust.increment_of_ne checks hcount]
  by_cases hlimit : cfg.maxFailures ≤ go.failures + 1
  · rw [if_pos hlimit, if_pos (show cfg.go.maxFailures ≤ go.failures + 1 from hlimit)]
    cases hcb : go.state with
    | closed => rfl
    | opened => rfl
    | halfOpen => exact absurd hcb hstate
  · rw [if_neg hlimit, if_neg (show ¬ cfg.go.maxFailures ≤ go.failures + 1 from hlimit)]

theorem rust_step (h : Sound cfg go) (halike : ReadAlike cfg monotonic go c)
    (hprobe : NoFailedProbe go c) (checks : Bool) :
    Rust.breaker checks cfg (toRust go) c = (toRust (goBreaker cfg go c).1, some (goBreaker cfg go c).2) := by
  obtain ⟨call, now⟩ := c
  cases call with
  | allow =>
    change (((toRust go).allow cfg now).1, some (some ((toRust go).allow cfg now).2)) = _
    rw [rust_allow h now]
    rfl
  | recordSuccess =>
    change (((toRust go).recordSuccess checks cfg).1, ((toRust go).recordSuccess checks cfg).2.map fun _ => none) = _
    rw [rust_recordSuccess h checks]
    rfl
  | recordFailure =>
    change (((toRust go).recordFailure checks cfg now).1,
      ((toRust go).recordFailure checks cfg now).2.map fun _ => none) = _
    rw [rust_recordFailure (halike.counted rfl) (hprobe rfl) checks now]
    rfl

theorem rust_failed_probe (hcall : c.call = .recordFailure) (hstate : go.state = .halfOpen)
    (checks : Bool) : (Rust.breaker checks cfg (toRust go) c).1.state = .halfOpen := by
  have hne : (toRust go).state ≠ .closed := by rw [toRust, hstate]; nofun
  have hrust : (toRust go).state = .halfOpen := hstate
  -- whatever the count is, only a closed breaker is opened
  have hafter : ((toRust go).recordFailure checks cfg c.now).1.state = .halfOpen := by
    simp only [Rust.CircuitBreaker.recordFailure, if_neg hne, ite_self]
    split
    all_goals exact hrust
  simpa only [Rust.breaker, hcall] using hafter

structure PythonSim (monotonic : Int64 → ℚ) (go : Go.CircuitBreaker) (py : Python.CircuitBreaker) : Prop where
  state : py.state = go.state
  failures : py.failures = go.failures.toInt
  successes : py.successes = go.successes.toInt
  opened : go.state = .opened → py.openedAt = monotonic go.lastOpenTime

variable {py : Python.CircuitBreaker}

theorem PythonSim.ofNotOpened (hstate : py.state = go.state) (hfailures : py.failures = go.failures.toInt)
    (hsuccesses : py.successes = go.successes.toInt) (hne : go.state ≠ .opened) : PythonSim monotonic go py :=
  ⟨hstate, hfailures, hsuccesses, fun hopened => absurd hopened hne⟩

theorem python_allow (hsim : PythonSim monotonic go py) {now : Int64}
    (halike : ReadAlike cfg monotonic go ⟨.allow, now⟩) :
    PythonSim monotonic (go.allow cfg.go now).1 (py.allow cfg (monotonic now)).1 ∧
      (py.allow cfg (monotonic now)).2 = (go.allow cfg.go now).2 := by
  have hstate := hsim.state
  cases hcb : go.state with
  | closed =>
    rw [hcb] at hstate
    simp only [Python.CircuitBreaker.allow, hstate, if_true, Go.CircuitBreaker.allow, hcb]
    exact ⟨hsim, trivial⟩
  | halfOpen =>
    rw [hcb] at hstate
    simp only [Python.CircuitBreaker.allow, hstate, Go.CircuitBreaker.allow, hcb, if_true, ite_self]
    exact ⟨hsim, trivial⟩
  | opened =>
    rw [hcb] at hstate
    have hrounded := halike.rounded rfl hcb
    simp only [Python.CircuitBreaker.allow, hstate, Go.CircuitBreaker.allow, hcb, hsim.opened hcb,
      reduceCtorEq, if_false, hrounded]
    by_cases hlate : cfg.go.openTimeout ≤ timeSince now go.lastOpenTime
    · have hge : cfg.openTimeout.toInt ≤ now.toInt - go.lastOpenTime.toInt := (le_timeSince_iff cfg.nonneg).1 hlate
      rw [if_pos hlate, if_pos hge]
      exact ⟨.ofNotOpened rfl hsim.failures rfl CircuitState.halfOpen_ne_opened, rfl⟩
    · have hlt : ¬ cfg.openTimeout.toInt ≤ now.toInt - go.lastOpenTime.toInt :=
        fun hge => hlate ((le_timeSince_iff cfg.nonneg).2 hge)
      rw [if_neg hlate, if_neg hlt]
      exact ⟨hsim, rfl⟩

theorem python_recordSuccess (h : Sound cfg go) (hsim : PythonSim monotonic go py) :
    PythonSim monotonic (go.recordSuccess cfg.go) (py.recordSuccess cfg) := by
  have hstate := hsim.state
  cases hcb : go.state with
  | closed =>
    rw [hcb] at hstate
    simp only [Python.CircuitBreaker.recordSuccess, hstate, Go.CircuitBreaker.recordSuccess, hcb,
      reduceCtorEq, if_false, if_true]
    exact .ofNotOpened rfl rfl hsim.successes CircuitState.closed_ne_opened
  | opened =>
    rw [hcb] at hstate
    simp only [Python.CircuitBreaker.recordSuccess, hstate, Go.CircuitBreaker.recordSuccess, hcb,
      reduceCtorEq, if_false]
    exact hsim
  | halfOpen =>
    rw [hcb] at hstate
    have hword := SignedWord.toInt_add_one (h.successes_ne hcb)
    have hsuccesses : py.successes + 1 = (go.successes + 1).toInt := by rw [hword, hsim.successes]
    simp only [Python.CircuitBreaker.recordSuccess, hstate, Go.CircuitBreaker.recordSuccess, hcb, if_true, hsuccesses]
    by_cases henough : cfg.halfOpenProbes ≤ go.successes + 1
    · rw [if_pos (show cfg.go.halfOpenProbes ≤ go.successes + 1 from henough), if_pos (le_iff_toInt_le.1 henough)]
      exact .ofNotOpened rfl rfl rfl CircuitState.closed_ne_opened
    · rw [if_neg (show ¬ cfg.go.halfOpenProbes ≤ go.successes + 1 from henough),
        if_neg (fun hge => henough (le_iff_toInt_le.2 hge))]
      exact .ofNotOpened rfl hsim.failures rfl CircuitState.halfOpen_ne_opened

theorem python_recordFailure (hsim : PythonSim monotonic go py)
    (hcount : go.failures ≠ maxValue) (hprobe : go.state ≠ .halfOpen) (now : Int64) :
    PythonSim monotonic (go.recordFailure cfg.go now) (py.recordFailure cfg (monotonic now)) := by
  have hword := SignedWord.toInt_add_one hcount
  have hfailures : py.failures + 1 = (go.failures + 1).toInt := by rw [hword, hsim.failures]
  simp only [Python.CircuitBreaker.recordFailure, Go.CircuitBreaker.recordFailure, hfailures, hsim.state]
  by_cases hlimit : cfg.go.maxFailures ≤ go.failures + 1
  · rw [if_pos hlimit]
    have hge : cfg.maxFailures.toInt ≤ (go.failures + 1).toInt := le_iff_toInt_le.1 hlimit
    cases hcb : go.state with
    | closed =>
      rw [if_pos ⟨hge, rfl⟩]
      exact ⟨rfl, rfl, hsim.successes, fun _ => rfl⟩
    | opened =>
      rw [if_neg (fun hboth => absurd hboth.2 (by decide))]
      exact ⟨rfl, rfl, hsim.successes, fun _ => hsim.opened hcb⟩
    | halfOpen => exact absurd hcb hprobe
  · rw [if_neg hlimit, if_neg (fun hboth => hlimit (le_iff_toInt_le.2 hboth.1))]
    exact ⟨rfl, rfl, hsim.successes, hsim.opened⟩

theorem python_step (h : Sound cfg go) (hsim : PythonSim monotonic go py) (halike : ReadAlike cfg monotonic go c)
    (hprobe : NoFailedProbe go c) : PythonSim monotonic (goBreaker cfg go c).1 (Python.breaker cfg monotonic py c).1 ∧
    (Python.breaker cfg monotonic py c).2 = (goBreaker cfg go c).2 := by
  obtain ⟨call, now⟩ := c
  cases call with
  | allow =>
    obtain ⟨hnext, hanswer⟩ := python_allow hsim halike
    exact ⟨hnext, congrArg some hanswer⟩
  | recordSuccess => exact ⟨python_recordSuccess h hsim, rfl⟩
  | recordFailure => exact ⟨python_recordFailure hsim (halike.counted rfl) (hprobe rfl) now, rfl⟩

theorem python_failed_probe (hcall : c.call = .recordFailure) (hstate : py.state = .halfOpen) :
    (Python.breaker cfg monotonic py c).1.state = .halfOpen := by
  have hafter : (py.recordFailure cfg (monotonic c.now)).state = .halfOpen := by
    rw [Python.CircuitBreaker.recordFailure]
    dsimp only
    rw [if_neg (fun hboth => by rw [hstate] at hboth; exact nomatch hboth.2)]
    exact hstate
  simpa only [Python.breaker, hcall] using hafter
end

def goViews (cfg : PortConfig) (calls : List PortCall) : List (CircuitState × Option (Option Bool)) :=
  (goBreaker cfg).views (fun cb answer => (cb.state, some answer)) Go.newCircuitBreaker calls

def rustViews (checks : Bool) (cfg : PortConfig) (calls : List PortCall) : List (CircuitState × Option (Option Bool)) :=
  (Rust.breaker checks cfg).views (fun cb answer => (cb.state, answer)) Rust.newCircuitBreaker calls

def pythonViews (cfg : PortConfig) (monotonic : Int64 → ℚ) (calls : List PortCall) :
    List (CircuitState × Option (Option Bool)) :=
  (Python.breaker cfg monotonic).views (fun cb answer => (cb.state, some answer))
    Python.newCircuitBreaker calls

section
variable {cfg : PortConfig} {monotonic : Int64 → ℚ} {calls : List PortCall}

theorem sound_new (cfg : PortConfig) : Sound cfg Go.newCircuitBreaker := ⟨fun hne => absurd rfl hne, nofun, le_refl 0⟩

theorem rust_matches_iff (checks : Bool)
    (halike : (goBreaker cfg).AllSteps (ReadAlike cfg monotonic) Go.newCircuitBreaker calls) :
    goViews cfg calls = rustViews checks cfg calls ↔
      (goBreaker cfg).AllSteps NoFailedProbe Go.newCircuitBreaker calls := by
  refine views_eq_iff (R := fun go rust => Sound cfg go ∧ rust = toRust go) ?_ ?_ ⟨sound_new cfg, rfl⟩ halike
  · rintro go rust c ⟨hsound, rfl⟩ hstep hprobe
    rw [rust_step hsound hstep hprobe checks]
    exact ⟨⟨hsound.step hstep, rfl⟩, rfl⟩
  · rintro go rust c ⟨hsound, rfl⟩ hstep hprobe heq
    obtain ⟨hcall, hstate⟩ := Classical.not_imp.1 hprobe
    have hstates := congrArg Prod.fst heq
    dsimp only at hstates
    rw [goBreaker_failed_probe hsound hstep hcall (not_not.1 hstate),
      rust_failed_probe hcall (not_not.1 hstate)] at hstates
    cases hstates

theorem python_matches_iff (halike : (goBreaker cfg).AllSteps (ReadAlike cfg monotonic) Go.newCircuitBreaker calls) :
    goViews cfg calls = pythonViews cfg monotonic calls ↔
      (goBreaker cfg).AllSteps NoFailedProbe Go.newCircuitBreaker calls := by
  refine views_eq_iff (R := fun go py => Sound cfg go ∧ PythonSim monotonic go py) ?_ ?_
    ⟨sound_new cfg, ⟨rfl, rfl, rfl, nofun⟩⟩ halike
  · rintro go py c ⟨hsound, hsim⟩ hstep hprobe
    obtain ⟨hnext, hanswer⟩ := python_step hsound hsim hstep hprobe
    exact ⟨⟨hsound.step hstep, hnext⟩, by rw [hanswer, hnext.state]⟩
  · rintro go py c ⟨hsound, hsim⟩ hstep hprobe heq
    obtain ⟨hcall, hstate⟩ := Classical.not_imp.1 hprobe
    have hstates := congrArg Prod.fst heq
    dsimp only at hstates
    rw [goBreaker_failed_probe hsound hstep hcall (not_not.1 hstate),
      python_failed_probe hcall (hsim.state.trans (not_not.1 hstate))] at hstates
    cases hstates
end

/-- In a run that the clocks read alike, the Rust and the Python breaker go through the states of
the Go breaker and decide as it does exactly if no probe fails. -/
theorem ports_match_iff (checks : Bool) (cfg : PortConfig) (monotonic : Int64 → ℚ) (calls : List PortCall)
    (halike : (goBreaker cfg).AllSteps (ReadAlike cfg monotonic) Go.newCircuitBreaker calls) :
    (goViews cfg calls = rustViews checks cfg calls ∧ goViews cfg calls = pythonViews cfg monotonic calls) ↔
      (goBreaker cfg).AllSteps NoFailedProbe Go.newCircuitBreaker calls := by
  rw [rust_matches_iff checks halike, python_matches_iff halike, and_self]

def halfMinute : PortConfig := ⟨1, 30000000000, 1, 30, by decide⟩

def exactSeconds (now : Int64) : ℚ := now.toInt / 10 ^ 9

def probed : List PortCall := [⟨.recordFailure, 0⟩, ⟨.allow, 40000000000⟩]

theorem round_forty : Double.round (exactSeconds 40000000000 - exactSeconds 0) = 40 := by
  have hforty : exactSeconds 40000000000 - exactSeconds 0 = ((40 : ℤ) : ℚ) := by
    have hlate : (40000000000 : Int64).toInt = 40000000000 := by decide
    have hstart : (0 : Int64).toInt = 0 := rfl
    rw [exactSeconds, exactSeconds, hlate, hstart]
    norm_num
  rw [hforty, Double.round_intCast (by decide)]
  rfl

theorem python_allow_forty : Python.CircuitBreaker.allow halfMinute ⟨.opened, 1, 0, exactSeconds 0⟩
    (exactSeconds 40000000000) = (⟨.halfOpen, 1, 0, exactSeconds 0⟩, true) := by
  have hlate : halfMinute.openSeconds ≤ Double.round (exactSeconds 40000000000 - exactSeconds 0) := by
    rw [round_forty]
    change (30 : ℚ) ≤ 40
    norm_num
  simp [Python.CircuitBreaker.allow, reduceCtorEq, if_pos hlate]

theorem ports_match_iff_success : goViews halfMinute (probed ++ [⟨.recordSuccess, 41000000000⟩]) =
        rustViews true halfMinute (probed ++ [⟨.recordSuccess, 41000000000⟩]) ∧
      goViews halfMinute (probed ++ [⟨.recordSuccess, 41000000000⟩]) =
        pythonViews halfMinute exactSeconds (probed ++ [⟨.recordSuccess, 41000000000⟩]) := by
  refine (ports_match_iff true halfMinute exactSeconds (probed ++ [⟨.recordSuccess, 41000000000⟩]) ?_).2 ?_
  · refine show _ ∧ _ ∧ _ ∧ True from ⟨⟨by decide, fun _ => by decide, nofun⟩,
      ⟨by decide, nofun, fun _ _ => ?_⟩, ⟨by decide, nofun, nofun⟩, trivial⟩
    change (30 : ℚ) ≤ Double.round (exactSeconds 40000000000 - exactSeconds 0) ↔ _
    rw [round_forty]
    exact iff_of_true (by norm_num) (by decide)
  · exact show _ ∧ _ ∧ _ ∧ True from ⟨fun _ => by decide, nofun, nofun, trivial⟩

theorem failed_probe_sets_apart :
    goViews halfMinute (probed ++ [⟨.recordFailure, 41000000000⟩, ⟨.allow, 41000000001⟩]) =
        [(.opened, some none), (.halfOpen, some (some true)), (.opened, some none), (.opened, some (some false))] ∧
      rustViews true halfMinute (probed ++ [⟨.recordFailure, 41000000000⟩, ⟨.allow, 41000000001⟩]) =
        [(.opened, some none), (.halfOpen, some (some true)), (.halfOpen, some none), (.halfOpen, some (some true))] ∧
      pythonViews halfMinute exactSeconds
          (probed ++ [⟨.recordFailure, 41000000000⟩, ⟨.allow, 41000000001⟩]) =
        [(.opened, some none), (.halfOpen, some (some true)), (.halfOpen, some none),
          (.halfOpen, some (some true))] := by
  refine ⟨by decide, by decide, ?_⟩
  have hopened : (Python.breaker halfMinute exactSeconds Python.newCircuitBreaker
      ⟨.recordFailure, 0⟩) = (⟨.opened, 1, 0, exactSeconds 0⟩, none) := rfl
  have hprobe : Python.breaker halfMinute exactSeconds ⟨.opened, 1, 0, exactSeconds 0⟩
      ⟨.allow, 40000000000⟩ = (⟨.halfOpen, 1, 0, exactSeconds 0⟩, some true) := by
    simp only [Python.breaker, python_allow_forty]
  simp only [pythonViews, probed, List.cons_append, List.nil_append, views, hopened, hprobe]
  rfl

end HelixRpc.Runtime
