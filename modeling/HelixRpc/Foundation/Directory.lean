import Mathlib.Data.List.Basic

/-!
# Directories

Names with the places of their values in a list that only grows.
-/

namespace HelixRpc.Foundation

open List Function
universe u v

structure Directory (κ : Type u) (ν : Type v) where
  index : κ → Option Nat
  cells : List ν
  inRange : ∀ key i, index key = some i → i < cells.length
  separate : ∀ key key' i, index key = some i → index key' = some i → key = key'

namespace Directory

variable {κ : Type u} {ν : Type v}

def empty : Directory κ ν where
  index := fun _ => none
  cells := []
  inRange := by
    intro _ _ h
    cases h
  separate := by
    intro _ _ _ h
    cases h

def Known (d : Directory κ ν) (key : κ) : Prop := (d.index key).isSome

instance (d : Directory κ ν) (key : κ) : Decidable (d.Known key) :=
  inferInstanceAs (Decidable ((d.index key).isSome = true))

def get (d : Directory κ ν) (key : κ) : Option ν := (d.index key).bind (d.cells[·]?)

def modify (d : Directory κ ν) (key : κ) (f : ν → ν) : Directory κ ν :=
  match d.index key with
  | none => d
  | some i =>
    { d with
      cells := d.cells.modify i f
      inRange := fun key' j h => by
        rw [length_modify]
        exact d.inRange key' j h }

section
variable [DecidableEq κ]

def add (d : Directory κ ν) (key : κ) (value : ν) : Directory κ ν where
  index := update d.index key (some d.cells.length)
  cells := d.cells ++ [value]
  inRange := by
    intro key' i h
    rw [length_append, length_singleton]
    rw [update_apply] at h
    split_ifs at h with heq
    · cases h
      exact Nat.lt_succ_self _
    · exact Nat.lt_succ_of_lt (d.inRange key' i h)
  separate := by
    intro key₁ key₂ i h₁ h₂
    rw [update_apply] at h₁ h₂
    split_ifs at h₁ h₂ with heq₁ heq₂ heq₂
    · exact heq₁.trans heq₂.symm
    · -- the next place is nobody's
      cases h₁
      exact absurd (d.inRange key₂ _ h₂) (Nat.lt_irrefl _)
    · cases h₂
      exact absurd (d.inRange key₁ _ h₁) (Nat.lt_irrefl _)
    · exact d.separate key₁ key₂ i h₁ h₂

def ensure (d : Directory κ ν) (value : ν) (key : κ) : Directory κ ν :=
  if d.Known key then d else d.add key value
end

section
variable {d : Directory κ ν} {key other : κ} {value : ν} {f : ν → ν} {i : Nat}

theorem get_eq_none_iff : d.get key = none ↔ ¬ d.Known key := by
  unfold get Known
  cases h : d.index key with
  | none => simp
  | some i => simpa using d.inRange key i h

@[simp] theorem index_modify : (d.modify key f).index = d.index := by
  unfold modify
  split <;> rfl

theorem get_modify_self : (d.modify key f).get key = (d.get key).map f := by
  unfold modify get
  split
  · rename_i h
    rw [h]
    rfl
  · rename_i i h
    simp [h, getElem?_modify_eq]

theorem get_modify_of_ne (h : other ≠ key) : (d.modify key f).get other = d.get other := by
  unfold modify
  split
  · rfl
  · rename_i i hi
    unfold get
    cases hother : d.index other with
    | none => rfl
    | some j =>
      -- another name has another place
      have hne : i ≠ j := by
        rintro rfl
        exact h (d.separate other key i hother hi)
      simp [getElem?_modify_ne f _ hne]

variable [DecidableEq κ]

theorem index_ensure_of_known (h : d.index other = some i) : (d.ensure value key).index other = some i := by
  unfold ensure
  split_ifs with hknown
  · exact h
  · have hne : other ≠ key := by
      rintro rfl
      exact hknown (by rw [Known, h]; rfl)
    exact (update_of_ne hne _ _).trans h

theorem known_ensure_iff : (d.ensure value key).Known other ↔ d.Known other ∨ other = key := by
  unfold ensure
  split_ifs with hknown
  · refine ⟨.inl, ?_⟩
    rintro (h | rfl)
    · exact h
    · exact hknown
  · unfold Known add
    simp only [update_apply]
    split_ifs with heq <;> simp [heq]

theorem get_ensure (hvalue : d.Known key ∨ other ≠ key) : (d.ensure value key).get other = d.get other := by
  unfold ensure
  split_ifs with hknown
  · rfl
  · have hne := hvalue.resolve_left hknown
    unfold get add
    simp only [update_of_ne hne]
    cases hother : d.index other with
    | none => rfl
    | some j => simp [getElem?_append_left (d.inRange other j hother)]

theorem get_ensure_self (h : ¬ d.Known key) : (d.ensure value key).get key = some value := by
  unfold ensure
  rw [if_neg h]
  simp [get, add]
end

end Directory

end HelixRpc.Foundation
