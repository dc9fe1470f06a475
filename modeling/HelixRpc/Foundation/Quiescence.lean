import HelixRpc.Foundation.Machine
import Mathlib.Algebra.GroupWithZero.Nat

/-!
# Machines that come to rest

Some inputs of a machine are steps that it takes by itself (`Internal`); the others come from outside.
-/

namespace HelixRpc.Foundation

open List Option
universe u v w

namespace Machine

variable {σ : Type u} {ι : Type v} {ο : Type w} (step : Machine σ ι ο) (Internal : ι → Prop)

def Quiescent (s : σ) : Prop := ∀ input, Internal input → (step s input).1 = s

def Moves (s : σ) (input : ι) : Prop := Internal input ∧ (step s input).1 ≠ s

structure Settles (Goal : σ → Prop) (s : σ) : Prop where
  ends : ∃ n, ∀ inputs, step.AllSteps (step.Moves Internal) s inputs → inputs.length ≤ n
  goal : ∀ inputs, (∀ input ∈ inputs, Internal input) → step.Quiescent Internal (step.after s inputs) →
    Goal (step.after s inputs)

theorem Settles.imp {step : Machine σ ι ο} {Internal : ι → Prop} {Goal Goal' : σ → Prop} {s : σ}
    (h : step.Settles Internal Goal s) (himp : ∀ s, Goal s → Goal' s) : step.Settles Internal Goal' s :=
  ⟨h.ends, fun inputs hinputs hquiet => himp _ (h.goal inputs hinputs hquiet)⟩

section
variable {step Internal} {Inv : σ → Prop} {rank : σ → Nat}

theorem length_add_rank_le (hkeep : ∀ s input, Inv s → Internal input → Inv (step s input).1)
    (hrank : ∀ s input, Inv s → Internal input → (step s input).1 = s ∨ rank (step s input).1 < rank s)
    {s : σ} (hs : Inv s) {inputs : List ι} (h : step.AllSteps (step.Moves Internal) s inputs) :
    inputs.length + rank (step.after s inputs) ≤ rank s := by
  induction inputs generalizing s with
  | nil => exact Nat.le_of_eq (Nat.zero_add _)
  | cons input inputs ih =>
    have hlower := (hrank s input hs h.1.1).resolve_left h.1.2
    have hlater := ih (hkeep s input hs h.1.1) h.2
    rw [length_cons, after_cons]
    omega

theorem settles_of_rank {Goal : σ → Prop} (hkeep : ∀ s input, Inv s → Internal input → Inv (step s input).1)
    (hrank : ∀ s input, Inv s → Internal input → (step s input).1 = s ∨ rank (step s input).1 < rank s) (hgoal : ∀ s,
    Inv s → step.Quiescent Internal s → Goal s) {s : σ} (hs : Inv s) : step.Settles Internal Goal s := by
  refine ⟨⟨rank s, fun inputs h => ?_⟩, fun inputs hinputs hquiet => ?_⟩
  · exact Nat.le_trans (Nat.le_add_right _ _) (length_add_rank_le hkeep hrank hs h)
  · have hsteps : step.AllSteps (fun _ input => Internal input) s inputs :=
      allSteps_of_forall_mem fun input hmem _ => hinputs input hmem
    exact hgoal _ (hsteps.invariant hkeep hs) hquiet
end

def guarded (next : σ → ι → Option σ) : Machine σ ι Unit := fun s input => ((next s input).getD s, ())

section
variable {next : σ → ι → Option σ} {Inv : σ → Prop}
variable {s : σ} {rank : σ → Nat}

theorem guarded_of_none {input : ι} (h : next s input = none) : (guarded next s input).1 = s := by
  rw [guarded, h, getD_none]

theorem guarded_keeps (h : ∀ s input s', next s input = some s' → Inv s → Inv s') (s : σ) (input : ι) (hs : Inv s) :
    Inv (guarded next s input).1 := by
  unfold guarded
  cases hnext : next s input with
  | none => exact hs
  | some s' => exact h s input s' hnext hs

/-- If each step of its own lowers a rank, the machine settles; where it comes to rest, none of them is
possible. -/
theorem guarded_settles {Internal : ι → Prop} {Goal : σ → Prop} (hkeep : ∀ s input s', next s input = some s' → Inv s →
    Inv s') (hrank : ∀ s input s', Internal input → next s input = some s' → Inv s → rank s' < rank s) (hgoal : ∀ s,
    Inv s → (∀ input, Internal input → next s input = none) → Goal s) (hs :
    Inv s) : (guarded next).Settles Internal Goal s := by
  have hlower : ∀ s input, Inv s → Internal input →
      (guarded next s input).1 = s ∨ rank (guarded next s input).1 < rank s := by
    intro s input hs hinput
    unfold guarded
    cases hnext : next s input with
    | none => exact .inl rfl
    | some s' => exact .inr (hrank s input s' hinput hnext hs)
  refine settles_of_rank (fun s input hs _ => guarded_keeps hkeep s input hs) hlower (fun s hs hquiet => ?_) hs
  refine hgoal s hs fun input hinput => eq_none_iff_forall_ne_some.2 fun s' hnext => ?_
  have hsame := hquiet input hinput
  simp only [guarded, hnext, getD_some] at hsame
  exact Nat.lt_irrefl _ (hsame ▸ hrank s input s' hinput hnext hs)

theorem guarded_rests (Internal : ι → Prop) (hstep : ∀ s input s', Internal input → next s input = some s' → Inv s →
    Inv s' ∧ rank s' < rank s) (hs : Inv s) : ∃ inputs, Inv ((guarded next).after s inputs) ∧ ∀ input, Internal input →
    next ((guarded next).after s inputs) input = none := by
  induction hn : rank s using Nat.strongRecOn generalizing s with
  | ind n ih =>
    by_cases hrest : ∀ input, Internal input → next s input = none
    · exact ⟨[], hs, hrest⟩
    · push Not at hrest
      obtain ⟨input, hinput, hsome⟩ := hrest
      obtain ⟨s', hnext⟩ := ne_none_iff_exists'.1 hsome
      obtain ⟨hs', hlower⟩ := hstep s input s' hinput hnext hs
      obtain ⟨inputs, hend⟩ := ih (rank s') (hn ▸ hlower) hs' rfl
      refine ⟨input :: inputs, ?_⟩
      have hfirst : (guarded next s input).1 = s' := by rw [guarded, hnext, getD_some]
      rw [after_cons, hfirst]
      exact hend
end

end Machine

section
variable {α : Type u} (weight : α → Nat)

theorem sum_map_set {l : List α} {i : Nat} {a : α} (h : l[i]? = some a) (b : α) :
    ((l.set i b).map weight).sum + weight a = (l.map weight).sum + weight b := by
  induction l generalizing i with
  | nil => cases h
  | cons first l ih =>
    cases i with
    | zero =>
      cases h
      simp only [set_cons_zero, map_cons, sum_cons]
      omega
    | succ i =>
      have hlater := ih (i := i) h
      simp only [set_cons_succ, map_cons, sum_cons]
      omega
end

end HelixRpc.Foundation
