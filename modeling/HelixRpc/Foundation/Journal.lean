import HelixRpc.Foundation.Machine
import Mathlib.Data.List.Perm.Basic

/-!
# Machines that tell what happens

A machine has a log, and its answers tell of it.
-/

namespace HelixRpc.Foundation

open List
universe u v w x y z

namespace Machine

section
variable {σ : Type u} {ι : Type v} {ρ : Type w} {ε : Type x}

def Journals (step : Machine σ ι (Option ρ)) (Inv : σ → Prop) (log : σ → List ε) (tell : ε → Option ρ) : Prop :=
  ∀ s input, Inv s → Inv (step s input).1 ∧
    ∃ new : Option ε, (log (step s input).1).Perm (log s ++ new.toList) ∧ (step s input).2 = new.bind tell

def told (step : Machine σ ι (Option ρ)) (s : σ) (inputs : List ι) : List ρ := (step.answers s inputs).filterMap id

variable {step : Machine σ ι (Option ρ)} {Inv : σ → Prop} {log : σ → List ε} {tell : ε → Option ρ}

theorem told_cons (s : σ) (input : ι) (inputs : List ι) :
    step.told s (input :: inputs) = (step s input).2.toList ++ step.told (step s input).1 inputs := by
  rw [told, answers]
  cases (step s input).2 <;> rfl

theorem Journals.run (h : step.Journals Inv log tell) {s : σ} (hs : Inv s) (inputs : List ι) :
    ∃ new : List ε, (log (step.after s inputs)).Perm (log s ++ new) ∧ step.told s inputs = new.filterMap tell := by
  induction inputs generalizing s with
  | nil => exact ⟨[], by rw [append_nil, after_nil], rfl⟩
  | cons input inputs ih =>
    obtain ⟨hkeep, first, hfirst, hanswer⟩ := h s input hs
    obtain ⟨later, hlater, htold⟩ := ih hkeep
    refine ⟨first.toList ++ later, ?_, ?_⟩
    · rw [after_cons, ← append_assoc]
      exact hlater.trans (hfirst.append_right later)
    · rw [told_cons, hanswer, htold, filterMap_append]
      cases first with
      | none => rfl
      | some e => cases htell : tell e <;> simp [htell]

theorem Journals.told_perm (h : step.Journals Inv log tell) {s : σ} (hs : Inv s) (hempty : log s = [])
    (inputs : List ι) : (step.told s inputs).Perm ((log (step.after s inputs)).filterMap tell) := by
  obtain ⟨new, hnew, htold⟩ := h.run hs inputs
  rw [hempty, nil_append] at hnew
  rw [htold]
  exact (hnew.filterMap tell).symm

def either {τ : Type y} {κ : Type z} (first : Machine σ ι (Option ρ)) (second : Machine τ κ (Option ρ)) :
    Machine (σ ⊕ τ) (ι ⊕ κ) (Option ρ) := fun s input =>
  match s, input with
  | .inl s, .inl input => (.inl (first s input).1, (first s input).2)
  | .inr s, .inr input => (.inr (second s input).1, (second s input).2)
  | s, _ => (s, none)

theorem Journals.either {τ : Type y} {κ : Type z} {first : Machine σ ι (Option ρ)}
    {second : Machine τ κ (Option ρ)} {Inv' : τ → Prop} {log' : τ → List ε} (hfirst : first.Journals Inv log tell)
    (hsecond : second.Journals Inv' log' tell) :
    (first.either second).Journals (Sum.elim Inv Inv') (Sum.elim log log') tell := by
  -- an input for the other machine does nothing
  have hidle : ∀ s : σ ⊕ τ, Sum.elim Inv Inv' s → Sum.elim Inv Inv' s ∧ ∃ new : Option ε,
      (Sum.elim log log' s).Perm (Sum.elim log log' s ++ new.toList) ∧ (none : Option ρ) = new.bind tell :=
    fun s hs => ⟨hs, none, by rw [Option.toList_none, append_nil], rfl⟩
  intro s input hs
  cases s with
  | inl s =>
    cases input with
    | inl input => exact hfirst s input hs
    | inr input => exact hidle (.inl s) hs
  | inr s =>
    cases input with
    | inl input => exact hidle (.inr s) hs
    | inr input => exact hsecond s input hs
end

end Machine

section
variable {ρ : Type w} {ε : Type x} {α : Type u}

theorem perm_map_iff {tell : ε → Option ρ} {record : ε → ρ} (htell : ∀ e r, tell e = some r → r = record e)
    (log : List ε) : (log.filterMap tell).Perm (log.map record) ↔ ∀ e ∈ log, (tell e).isSome := by
  constructor
  · intro h
    have hlength := h.length_eq
    rw [length_map] at hlength
    exact filterMap_length_eq_length.1 hlength
  · intro h
    refine Perm.of_eq ?_
    rw [← filterMap_eq_map]
    refine filterMap_congr fun e he => ?_
    obtain ⟨r, hr⟩ := Option.isSome_iff_exists.1 (h e he)
    rw [hr, htell e r hr]
    rfl

variable {parties : List α} {i : Nat} {a b : α}

theorem flatMap_set_perm (log : α → List ε) {new : List ε} (h : parties[i]? = some a)
    (hlog : (log b).Perm (log a ++ new)) : ((parties.set i b).flatMap log).Perm (parties.flatMap log ++ new) := by
  induction parties generalizing i with
  | nil => cases h
  | cons first parties ih =>
    cases i with
    | zero =>
      cases h
      rw [set_cons_zero, flatMap_cons, flatMap_cons, append_assoc]
      refine (hlog.append_right _).trans ?_
      rw [append_assoc]
      exact perm_append_comm.append_left _
    | succ i =>
      rw [set_cons_succ, flatMap_cons, flatMap_cons, append_assoc]
      exact (ih h).append_left _

theorem flatMap_set_eq (log : α → List ε) (h : parties[i]? = some a)
    (hlog : log b = log a) : (parties.set i b).flatMap log = parties.flatMap log := by
  have hmap : (parties.map log)[i]? = some (log b) := by rw [getElem?_map, h, hlog, Option.map_some]
  obtain ⟨hi, hget⟩ := List.getElem?_eq_some_iff.1 hmap
  rw [flatMap_def, flatMap_def, map_set, ← hget, set_getElem_self]
end

end HelixRpc.Foundation
