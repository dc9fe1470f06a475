import HelixRpc.Foundation.Machine

/-!
# Machines with several users

A machine serves several users, and one of them sees the answers to its own inputs only (`answersOf`).
-/

namespace HelixRpc.Foundation.Machine

universe u v w x
variable {σ : Type u} {ι : Type v} {ο : Type w} {τ : Type x}

def answersOf (step : Machine σ ι ο) (mine : ι → Bool) (s : σ) : List ι → List ο
  | [] => []
  | input :: inputs =>
    if mine input then (step s input).2 :: answersOf step mine (step s input).1 inputs
    else answersOf step mine (step s input).1 inputs

/-- A part of the state, with a machine for it: the inputs of the user do there what the machine does, and
the others do nothing. -/
structure Projects (step : Machine σ ι ο) (part : Machine τ ι ο) (mine : ι → Bool) (Inv : σ → Prop)
    (view : σ → τ) : Prop where
  keeps : ∀ s input, Inv s → Inv (step s input).1
  own : ∀ s input, Inv s → mine input = true → part (view s) input = (view (step s input).1, (step s input).2)
  other : ∀ s input, Inv s → mine input = false → view (step s input).1 = view s

namespace Projects

variable {step : Machine σ ι ο} {part : Machine τ ι ο} {mine : ι → Bool} {Inv : σ → Prop} {view : σ → τ}

theorem answersOf_eq (h : Projects step part mine Inv view) {s : σ} (hs : Inv s) (inputs : List ι) :
    step.answersOf mine s inputs = part.answers (view s) (inputs.filter mine) := by
  induction inputs generalizing s with
  | nil => rfl
  | cons input inputs ih =>
    have hrest := ih (h.keeps s input hs)
    cases hmine : mine input with
    | true =>
      rw [answersOf, if_pos hmine, List.filter_cons_of_pos hmine, answers, h.own s input hs hmine, hrest]
    | false =>
      have hneg : ¬ mine input = true := by rw [hmine]; decide
      rw [answersOf, if_neg hneg, List.filter_cons_of_neg hneg, hrest, h.other s input hs hmine]

theorem noninterference (h : Projects step part mine Inv view) {s : σ} (hs : Inv s)
    {inputs inputs' : List ι} (hsame : inputs.filter mine = inputs'.filter mine) :
    step.answersOf mine s inputs = step.answersOf mine s inputs' := by rw [h.answersOf_eq hs, h.answersOf_eq hs, hsame]

end Projects

end HelixRpc.Foundation.Machine
