import Mathlib.Tactic.Common

/-!
# Machines that answer calls

A component with a state is called again and again.
-/

namespace HelixRpc.Foundation

open List
universe u v w x

abbrev Machine (σ : Type u) (ι : Type v) (ο : Type w) := σ → ι → σ × ο

structure Observed (σ : Type u) (ι : Type v) (ο : Type w) where
  before : σ
  input : ι
  answer : ο
  after : σ

namespace Machine

section
variable {σ : Type u} {ι : Type v} {ο : Type w} (step : Machine σ ι ο)

def after (s : σ) : List ι → σ
  | [] => s
  | input :: inputs => after (step s input).1 inputs

def answers (s : σ) : List ι → List ο
  | [] => []
  | input :: inputs => (step s input).2 :: answers (step s input).1 inputs

variable (s : σ)

def observe (input : ι) : Observed σ ι ο := ⟨s, input, (step s input).2, (step s input).1⟩

def trace (s : σ) : List ι → List (Observed σ ι ο)
  | [] => []
  | input :: inputs => step.observe s input :: trace (step s input).1 inputs

variable (inputs : List ι)

def history : List (Observed σ ι ο) := (step.trace s inputs).reverse

def AllSteps (P : σ → ι → Prop) (s : σ) : List ι → Prop
  | [] => True
  | input :: inputs => P s input ∧ AllSteps P (step s input).1 inputs

@[simp] theorem after_nil : step.after s [] = s := rfl

variable (input : ι)

@[simp] theorem after_cons (inputs : List ι) :
    step.after s (input :: inputs) = step.after (step s input).1 inputs := rfl

theorem after_append (inputs later : List ι) :
    step.after s (inputs ++ later) = step.after (step.after s inputs) later := by
  induction inputs generalizing s with
  | nil => rfl
  | cons input inputs ih => exact ih (step s input).1

theorem after_snoc : step.after s (inputs ++ [input]) = (step (step.after s inputs) input).1 := by
  rw [after_append]
  rfl

theorem length_answers : (step.answers s inputs).length = inputs.length := by
  induction inputs generalizing s with
  | nil => rfl
  | cons input inputs ih => exact congrArg (· + 1) (ih (step s input).1)

theorem answers_snoc :
    step.answers s (inputs ++ [input]) = step.answers s inputs ++ [(step (step.after s inputs) input).2] := by
  induction inputs generalizing s with
  | nil => rfl
  | cons first inputs ih => exact congrArg ((step s first).2 :: ·) (ih (step s first).1)

theorem history_snoc : step.history s (inputs ++ [input]) =
      step.observe (step.after s inputs) input :: step.history s inputs := by
  have htrace : ∀ s, step.trace s (inputs ++ [input]) =
      step.trace s inputs ++ [step.observe (step.after s inputs) input] := by
    induction inputs with
    | nil => exact fun _ => rfl
    | cons first inputs ih =>
      intro s
      exact congrArg (step.observe s first :: ·) (ih (step s first).1)
  rw [history, htrace, reverse_append]
  rfl

variable {step}
variable {s : σ} {inputs : List ι} {P Q : σ → ι → Prop} {Inv : σ → Prop}

theorem exists_of_mem_trace {call : Observed σ ι ο} (h : call ∈ step.trace s inputs) :
    ∃ before, call.answer = (step before call.input).2 := by
  induction inputs generalizing s with
  | nil => cases h
  | cons input inputs ih =>
    rcases mem_cons.1 h with rfl | hlater
    · exact ⟨s, rfl⟩
    · exact ih hlater

theorem allSteps_append {later : List ι} : step.AllSteps P s (inputs ++ later) ↔
      step.AllSteps P s inputs ∧ step.AllSteps P (step.after s inputs) later := by
  induction inputs generalizing s with
  | nil => exact (and_iff_right trivial).symm
  | cons input inputs ih =>
    change (P s input ∧ step.AllSteps P (step s input).1 (inputs ++ later)) ↔
      (P s input ∧ step.AllSteps P (step s input).1 inputs) ∧ _
    rw [ih, and_assoc]
    rfl

theorem allSteps_snoc {input : ι} : step.AllSteps P s (inputs ++ [input]) ↔
      step.AllSteps P s inputs ∧ P (step.after s inputs) input := by
  rw [allSteps_append]
  exact and_congr_right fun _ => and_iff_left trivial

theorem allSteps_iff : step.AllSteps P s inputs ↔
      ∀ earlier input later, inputs = earlier ++ input :: later → P (step.after s earlier) input := by
  constructor
  · rintro h earlier input later rfl
    exact (allSteps_append.1 h).2.1
  · intro h
    induction inputs generalizing s with
    | nil => trivial
    | cons first inputs ih =>
      refine ⟨h [] first inputs rfl, ih fun earlier input later heq => ?_⟩
      exact h (first :: earlier) input later (congrArg (first :: ·) heq)

theorem allSteps_of_forall_mem (h : ∀ input ∈ inputs, ∀ s, P s input) : step.AllSteps P s inputs :=
  allSteps_iff.2 fun earlier input _ heq =>
    h input (heq ▸ mem_append_right earlier mem_cons_self) _

theorem AllSteps.and (h : step.AllSteps P s inputs) (h' : step.AllSteps Q s inputs) :
    step.AllSteps (fun s input => P s input ∧ Q s input) s inputs := by
  induction inputs generalizing s with
  | nil => trivial
  | cons input inputs ih => exact ⟨⟨h.1, h'.1⟩, ih h.2 h'.2⟩

theorem invariant_after (hstep : ∀ s input, Inv s → Inv (step s input).1) (hs : Inv s) (inputs : List ι) :
    Inv (step.after s inputs) := by
  induction inputs generalizing s with
  | nil => exact hs
  | cons input inputs ih => exact ih (hstep s input hs)

theorem AllSteps.invariant (hstep : ∀ s input, Inv s → P s input → Inv (step s input).1) (h : step.AllSteps P s inputs)
    (hs : Inv s) : Inv (step.after s inputs) := by
  induction inputs generalizing s with
  | nil => exact hs
  | cons input inputs ih => exact ih h.2 (hstep s input hs h.1)

theorem AllSteps.imp (hstep : ∀ s input, Inv s → P s input → Q s input ∧ Inv (step s input).1)
    (h : step.AllSteps P s inputs) (hs : Inv s) : step.AllSteps Q s inputs := by
  induction inputs generalizing s with
  | nil => trivial
  | cons input inputs ih =>
    obtain ⟨hq, hinv⟩ := hstep s input hs h.1
    exact ⟨hq, ih h.2 hinv⟩

theorem AllSteps.ledger {Led : List ο → σ → Prop} (hstep : ∀ outs s input, Led outs s → P s input →
    Led (outs ++ [(step s input).2]) (step s input).1) (h : step.AllSteps P s inputs) (outs : List ο) (hs :
    Led outs s) : Led (outs ++ step.answers s inputs) (step.after s inputs) := by
  induction inputs generalizing s outs with
  | nil => rwa [answers, append_nil]
  | cons input inputs ih =>
    have hlater := ih h.2 _ (hstep outs s input hs h.1)
    rwa [append_assoc] at hlater

theorem allSteps_congr (Inv : σ → Prop) (hiff : ∀ s input, Inv s → (P s input ↔ Q s input)) (hkeep : ∀ s input, Inv s →
    P s input → Inv (step s input).1) (hs : Inv s) : step.AllSteps P s inputs ↔ step.AllSteps Q s inputs := by
  constructor
  · intro h
    exact h.imp (fun s input hs hP => ⟨(hiff s input hs).1 hP, hkeep s input hs hP⟩) hs
  · intro h
    refine h.imp (fun s input hs hQ => ?_) hs
    have hP := (hiff s input hs).2 hQ
    exact ⟨hP, hkeep s input hs hP⟩
end

section
variable {σ : Type u} {τ : Type x} {ι : Type v} {ο ο' ω : Type w}

def views (step : Machine σ ι ο) (view : σ → ο → ω) (s : σ) : List ι → List ω
  | [] => []
  | input :: inputs =>
    view (step s input).1 (step s input).2 :: views step view (step s input).1 inputs

variable {step : Machine σ ι ο} {step' : Machine τ ι ο'} {view : σ → ο → ω} {view' : τ → ο' → ω}

/-- Let a relation of their states be kept, with the same view, by each step that
meets `Q`, and let the views be different after a step that does not meet `Q`. -/
theorem views_eq_iff {R : σ → τ → Prop} {P Q : σ → ι → Prop} (hgood : ∀ s t input, R s t → P s input → Q s input →
    R (step s input).1 (step' t input).1 ∧ view (step s input).1 (step s input).2 = view' (step' t input).1
    (step' t input).2) (hbad : ∀ s t input, R s t → P s input → ¬ Q s input → view (step s input).1 (step s input).2 ≠
    view' (step' t input).1 (step' t input).2) {s : σ} {t : τ} {inputs : List ι} (hst : R s t) (h :
    step.AllSteps P s inputs) : step.views view s inputs = step'.views view' t inputs ↔ step.AllSteps Q s inputs := by
  induction inputs generalizing s t with
  | nil => exact ⟨fun _ => trivial, fun _ => rfl⟩
  | cons input inputs ih =>
    rw [views, views, cons.injEq]
    -- as long as `Q` holds the states stay related; the first step without it is seen
    by_cases hq : Q s input
    · obtain ⟨hnext, hview⟩ := hgood s t input hst h.1 hq
      rw [ih hnext h.2]
      exact and_congr (iff_of_true hview hq) Iff.rfl
    · exact iff_of_false (fun heq => hbad s t input hst h.1 hq heq.1) fun hsteps => hq hsteps.1
end

end Machine

end HelixRpc.Foundation
