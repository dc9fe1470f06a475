import HelixRpc.Foundation.Machine
import HelixRpc.Foundation.SignedWord

/-!
# Token buckets

A bucket holds a level of tokens in a signed word.
-/

namespace HelixRpc.Foundation.TokenBucket

open Machine Int64
universe u v w x

def refilled (capacity level refill : Int64) : Int64 :=
  if capacity < level + refill then capacity else level + refill

def take (unit level : Int64) : Int64 × Bool :=
  if level < unit then (level, false) else (level - unit, true)

section
variable {capacity level refill unit : Int64}

theorem toInt_refilled (capacity level refill : Int64) : (refilled capacity level refill).toInt =
      min ((level.toInt + refill.toInt).bmod (2 ^ 64)) capacity.toInt := by
  have hsum := toInt_add level refill
  rw [refilled]
  split <;> rename_i h <;> rw [lt_iff_toInt_lt] at h <;> omega

theorem toInt_refilled_mul (elapsed rate : Int64) : (refilled capacity level (elapsed * rate)).toInt =
      min ((level.toInt + elapsed.toInt * rate.toInt).bmod (2 ^ 64)) capacity.toInt := by
  rw [toInt_refilled, toInt_mul, Int.add_bmod_bmod]

theorem max_refilled_mul_le {elapsed rate : Int64} (h : 0 ≤ elapsed.toInt * rate.toInt) :
    max (refilled capacity level (elapsed * rate)).toInt 0 ≤ max level.toInt 0 + elapsed.toInt * rate.toInt := by
  have hlow := level.le_toInt
  have hsum := bmod_le_self (show -2 ^ 63 ≤ level.toInt + elapsed.toInt * rate.toInt by omega)
  rw [toInt_refilled_mul]
  omega

theorem max_refilled_elapsed_le {now last rate : Int64} (hrate : 0 ≤ rate.toInt) (helapsed : 0 < now - last)
    (hback : last.toInt - now.toInt ≤ 2 ^ 63) : max (refilled capacity level ((now - last) * rate)).toInt 0 ≤
    max level.toInt 0 + (now.toInt - last.toInt) * rate.toInt := by
  rw [lt_iff_toInt_lt, toInt_zero] at helapsed
  have hle : (now - last).toInt ≤ now.toInt - last.toInt := by
    rw [toInt_sub]
    exact bmod_le_self (by omega)
  calc max (refilled capacity level ((now - last) * rate)).toInt 0
      ≤ max level.toInt 0 + (now - last).toInt * rate.toInt := max_refilled_mul_le (Int.mul_nonneg helapsed.le hrate)
    _ ≤ max level.toInt 0 + (now.toInt - last.toInt) * rate.toInt :=
        Int.add_le_add_left (Int.mul_le_mul_of_nonneg_right hle hrate) _

theorem toInt_refilled_le_capacity : (refilled capacity level refill).toInt ≤ capacity.toInt := by
  rw [toInt_refilled]
  exact min_le_right _ _

theorem take_cases (level : Int64) (hunit : 0 ≤ unit.toInt) : (level.toInt < unit.toInt ∧
    take unit level = (level, false)) ∨ (unit.toInt ≤ level.toInt ∧ (take unit level).1.toInt =
    level.toInt - unit.toInt ∧ (take unit level).2 = true) := by
  have hhigh := level.toInt_lt
  have hlow := level.le_toInt
  by_cases h : level < unit
  · exact .inl ⟨lt_iff_toInt_lt.1 h, if_pos h⟩
  · have hle : unit.toInt ≤ level.toInt := by
      rw [lt_iff_toInt_lt] at h
      omega
    refine .inr ⟨hle, ?_, ?_⟩
    · rw [take, if_neg h]
      exact SignedWord.toInt_sub_of_mem (by omega) (by omega)
    · rw [take, if_neg h]

theorem max_take (hunit : 0 ≤ unit.toInt) (level : Int64) :
    max (take unit level).1.toInt 0 + unit.toInt * (if (take unit level).2 then 1 else 0) = max level.toInt 0 := by
  rcases take_cases level hunit with ⟨_, h⟩ | ⟨hle, hlevel, htaken⟩
  · rw [h]
    simp
  · rw [hlevel, htaken, if_pos rfl]
    omega

theorem take_le (hunit : 0 ≤ unit.toInt) (level : Int64) : (take unit level).1.toInt ≤ level.toInt := by
  rcases take_cases level hunit with ⟨_, h⟩ | ⟨_, hlevel, _⟩
  · rw [h]
  · rw [hlevel]
    omega

theorem take_mem_iff {high : Int} (hunit : 0 ≤ unit.toInt) (hhigh : level.toInt ≤ high) :
    (0 ≤ (take unit level).1.toInt ∧ (take unit level).1.toInt ≤ high) ↔ 0 ≤ level.toInt := by
  rcases take_cases level hunit with ⟨_, h⟩ | ⟨hle, hlevel, _⟩
  · rw [h]
    exact and_iff_left hhigh
  · rw [hlevel]
    omega
end

section
variable {σ : Type u} {ι : Type v} {ο : Type w}

def admitted (step : Machine σ ι ο) (accepts : ο → Bool) (s : σ) (inputs : List ι) : Nat :=
  (step.answers s inputs).countP accepts

/-- If each step pays for its request out of the level and of what it is credited, then
a run pays for all its requests so. -/
theorem unit_mul_admitted_le {R : Type x} [CommRing R] [LinearOrder R] [IsStrictOrderedRing R] (step : Machine σ ι ο)
    (accepts : ο → Bool) {P : σ → ι → Prop} (level credit : σ → R) (unit : R) (hstep : ∀ s input, P s input →
    level (step s input).1 + unit * (if accepts (step s input).2 then 1 else 0) ≤ level s +
    (credit (step s input).1 - credit s)) {s : σ} {inputs : List ι} (h :
    step.AllSteps P s inputs) : unit * admitted step accepts s inputs + level (step.after s inputs) ≤ level s + (credit
    (step.after s inputs) - credit s) := by
  induction inputs generalizing s with
  | nil => simp [admitted, answers]
  | cons input inputs ih =>
    have hfirst := hstep s input h.1
    have hrest := ih h.2
    have hcount : (admitted step accepts s (input :: inputs) : R) = admitted step accepts (step s input).1 inputs +
          (if accepts (step s input).2 then 1 else 0) := by
      rw [admitted, answers, List.countP_cons]
      push_cast
      rw [admitted]
    rw [hcount, after_cons, mul_add]
    linarith
end

def latest (creation : Int64) (readings : List Int64) : Int :=
  readings.foldr (fun reading largest => max reading.toInt largest) creation.toInt

theorem creation_le_latest (creation : Int64) (readings : List Int64) : creation.toInt ≤ latest creation readings := by
  induction readings with
  | nil => exact le_rfl
  | cons reading readings ih => exact le_max_of_le_right ih

variable {readings : List Int64} {σ : Type u} {ο : Type w}

theorem le_latest {creation reading : Int64} (h : reading ∈ readings) : reading.toInt ≤ latest creation readings := by
  induction readings with
  | nil => cases h
  | cons first readings ih =>
    rcases List.mem_cons.1 h with rfl | hmem
    · exact le_max_left _ _
    · exact le_max_of_le_right (ih hmem)

theorem stored_le_latest {step : Machine σ Int64 ο} (stored : σ → Int64) (hstep : ∀ s reading,
    stored (step s reading).1 = reading ∨ stored (step s reading).1 = stored s) (s : σ) (readings :
    List Int64) : (stored (step.after s readings)).toInt ≤ latest (stored s) readings := by
  have hall : step.AllSteps (fun _ reading => reading.toInt ≤ latest (stored s) readings) s readings :=
    allSteps_of_forall_mem fun reading hmem _ => le_latest hmem
  have hkeep : ∀ t reading, (stored t).toInt ≤ latest (stored s) readings → reading.toInt ≤ latest (stored s) readings →
      (stored (step t reading).1).toInt ≤ latest (stored s) readings := by
    intro t reading ht hreading
    rcases hstep t reading with h | h
    · rw [h]
      exact hreading
    · rw [h]
      exact ht
  exact hall.invariant hkeep (creation_le_latest _ _)

/-- A machine that is credited for the time up to the reading it stores admits at most what its
level and its rate give up to the largest reading. -/
theorem unit_mul_admitted_le_latest (step : Machine σ Int64 ο) (accepts : ο → Bool) (stored : σ → Int64) (level : σ →
    Int) (unit : Int) {rate : Int} (hrate : 0 ≤ rate) {P : σ → Int64 → Prop} (hpays : ∀ s reading, P s reading → level
    (step s reading).1 + unit * (if accepts (step s reading).2 then 1 else 0) ≤ level s +
    ((stored (step s reading).1).toInt - (stored s).toInt) * rate) (hstored : ∀ s reading, stored (step s reading).1 =
    reading ∨ stored (step s reading).1 = stored s) {s : σ} (hnonneg : 0 ≤ level (step.after s readings)) (h :
    step.AllSteps P s readings) : unit * (admitted step accepts s readings : Int) ≤ level s + (latest
    (stored s) readings - (stored s).toInt) * rate := by
  have hpaid := unit_mul_admitted_le step accepts level (fun s => (stored s).toInt * rate) unit
    (fun s reading hP => by rw [← Int.sub_mul]; exact hpays s reading hP) h
  -- the credits of the steps telescope: what is credited in all is for the last stored reading
  have hcredit := Int.mul_le_mul_of_nonneg_right (stored_le_latest stored hstored s readings) hrate
  rw [Int.sub_mul]
  omega

end HelixRpc.Foundation.TokenBucket
