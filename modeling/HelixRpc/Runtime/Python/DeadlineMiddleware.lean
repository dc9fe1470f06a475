import HelixRpc.Runtime.Python.Middlewares
import HelixRpc.Runtime.TimeoutParsers

/-!
# How often deadline_middleware calls its handler

Model of `deadline_middleware` (`runtimes/python/helix_rt/server.py`).
-/

namespace HelixRpc.Runtime.Python

open Foundation Runtime.Go List
variable {Json ρ : Type}

structure Raised where
  isTimeoutError : Bool
  isValueError : Bool
  isKeyError : Bool
  deriving DecidableEq

inductive Ending (ρ : Type) where
  | returned (response : ρ)
  | raised (exc : Raised)
  deriving DecidableEq

/-- A handler, by how its calls for a request end: the number of the call, and whether it is under a
deadline. -/
abbrev Handler (ρ : Type) := Nat → Bool → Ending ρ

def overflowError : Raised := ⟨false, false, false⟩

def timeoutError : Raised := ⟨true, false, false⟩

def afterCall (deadlineExceeded : ρ) (handler : Handler ρ) : Nat × Ending ρ :=
  match handler 0 true with
  | .returned response => (1, .returned response)
  | .raised exc =>
    if exc.isTimeoutError then (1, .returned deadlineExceeded)
    else if exc.isValueError || exc.isKeyError then (2, handler 1 false)
    else (1, .raised exc)

def deadlineRun (u : Unicode) (limit : Option Nat) (deadlineExceeded : ρ) (timeoutHeader : Option Text)
    (handler : Handler ρ) : Nat × Ending ρ :=
  match timeoutHeader with
  | none => (1, handler 0 false)
  | some text =>
    if text = [] then (1, handler 0 false)
    else
      match timeoutSecs u limit text with
      | .accepted _ => afterCall deadlineExceeded handler
      -- the `ValueError` of `int` is passed over
      | .rejected => (1, handler 0 false)
      | .failed => (0, .raised overflowError)

def Exc.raised : Exc → Raised
  | .valueError _ => ⟨false, true, false⟩
  | .keyError _ => ⟨false, false, true⟩
  | _ => ⟨false, false, false⟩

def endingOf : Except Exc Response → Ending Response
  | .ok response => .returned response
  | .error exc => .raised exc.raised

def routeHandler (clock : Clock) (route : Route Json) (req : Request) : Handler Response :=
  fun attempt within =>
    match within, clock with
    | true, .expired _ => .raised timeoutError
    | _, _ => endingOf (route attempt req).2

def IsPassedOver : Ending ρ → Prop
  | .returned _ => False
  | .raised exc => exc.isTimeoutError = false ∧ (exc.isValueError || exc.isKeyError) = true

variable {u : Unicode} {limit : Option Nat} {text : Text}

theorem deadlineRun_number {val : Int}
    (hint : int u limit text = some val) (deadlineExceeded : ρ) (last : Char) (handler : Handler ρ) :
    deadlineRun u limit deadlineExceeded (some (text ++ [last])) handler =
      if Double.round |(val : ℚ)| < 2 ^ 1024 then afterCall deadlineExceeded handler
      else (0, .raised overflowError) := by
  have hne : text ++ [last] ≠ [] := append_ne_nil_of_right_ne_nil text (cons_ne_nil _ _)
  rw [deadlineRun, if_neg hne, timeoutSecs, getLast?_concat, dropLast_concat, hint]
  dsimp only
  split_ifs <;> rfl

theorem deadlineRun_invalid (hint : int u limit text = none) (deadlineExceeded : ρ) (last : Char)
    (handler : Handler ρ) :
    deadlineRun u limit deadlineExceeded (some (text ++ [last])) handler = (1, handler 0 false) := by
  have hne : text ++ [last] ≠ [] := append_ne_nil_of_right_ne_nil text (cons_ne_nil _ _)
  rw [deadlineRun, if_neg hne, timeoutSecs, getLast?_concat, dropLast_concat, hint]

theorem afterCall_eq_one_iff (deadlineExceeded : ρ) (handler : Handler ρ) :
    (afterCall deadlineExceeded handler).1 = 1 ↔ ¬ IsPassedOver (handler 0 true) := by
  rw [afterCall]
  cases handler 0 true with
  | returned response => exact iff_of_true rfl id
  | raised exc =>
    obtain ⟨isTimeoutError, isValueError, isKeyError⟩ := exc
    cases isTimeoutError <;> cases isValueError <;> cases isKeyError <;> simp [IsPassedOver]

/-- The middleware calls its handler exactly once, for every header and every handler, exactly if a number
in the header fits into a double and the call under its deadline does not end with a `ValueError` or
`KeyError`. -/
theorem runs_once_iff (u : Unicode) (limit : Option Nat) (deadlineExceeded : ρ)
    (timeoutHeader : Option Text) (handler : Handler ρ) :
    (deadlineRun u limit deadlineExceeded timeoutHeader handler).1 = 1 ↔
      ∀ text last val, timeoutHeader = some (text ++ [last]) → int u limit text = some val →
        Double.round |(val : ℚ)| < 2 ^ 1024 ∧ ¬ IsPassedOver (handler 0 true) := by
  cases timeoutHeader with
  | none => exact iff_of_true rfl nofun
  | some header =>
    rcases eq_nil_or_concat' header with rfl | ⟨text, last, rfl⟩
    · refine iff_of_true rfl fun text last val heq => ?_
      exact absurd (Option.some.inj heq).symm (append_ne_nil_of_right_ne_nil text (cons_ne_nil _ _))
    · -- the text before the last character is determined by the header
      have hforall : (∀ text' last' val, some (text ++ [last]) = some (text' ++ [last']) →
            int u limit text' = some val → Double.round |(val : ℚ)| < 2 ^ 1024 ∧ ¬ IsPassedOver (handler 0 true)) ↔
          ∀ val, int u limit text = some val →
            Double.round |(val : ℚ)| < 2 ^ 1024 ∧ ¬ IsPassedOver (handler 0 true) := by
        constructor
        · exact fun h val => h text last val rfl
        · intro h text' last' val heq
          rw [← (append_inj' (Option.some.inj heq) rfl).1]
          exact h val
      rw [hforall]
      cases hint : int u limit text with
      | none =>
        rw [deadlineRun_invalid hint]
        exact iff_of_true rfl nofun
      | some val =>
        rw [deadlineRun_number hint]
        simp only [Option.some.injEq, forall_eq']
        split_ifs with hfits
        · rw [afterCall_eq_one_iff, and_iff_right hfits]
        · exact iff_of_false nofun fun h => hfits h.1

def timedRequest : Request :=
  ⟨"application/grpc-web".toList, [], some "1S".toList, false, [0, 0, 0, 0, 0]⟩

theorem encoding_error_runs_again : ¬ ∃ (u : Unicode) (lib : Library Unit),
      (deadlineRun u (some 4300) deadlineExceeded timedRequest.grpcTimeout
        (routeHandler .inTime (webHandler lib fun _ _ => .error (.helix .notFound "é".toList))
          timedRequest)).1 = 1 := by
  rintro ⟨u, lib, honce⟩
  have hint : int u (some 4300) ['1'] = some ((1 : Nat) : Int) := int_numeral u (some 4300) (by decide)
  have hrun := deadlineRun_number hint deadlineExceeded 'S'
    (routeHandler .inTime (webHandler lib fun _ _ => .error (.helix .notFound "é".toList)) timedRequest)
  rw [if_pos (fits_of_lt (by decide))] at hrun
  change (deadlineRun u (some 4300) deadlineExceeded (some (['1'] ++ ['S'])) _).1 = 1 at honce
  rw [hrun, afterCall_eq_one_iff] at honce
  exact honce ⟨rfl, rfl⟩

end HelixRpc.Runtime.Python
