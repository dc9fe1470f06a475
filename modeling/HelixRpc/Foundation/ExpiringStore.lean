import Mathlib.Tactic.Linarith

/-!
# Stores whose keys expire

A key is set with a time to live and is gone when that time is over.
-/

namespace HelixRpc.Foundation

universe u v

structure Expiry where
  gone : ℚ → ℚ → Bool
  le_of_gone : ∀ {expiresAt clock : ℚ}, gone expiresAt clock = true → expiresAt ≤ clock

namespace Expiry

def never : Expiry where
  gone _ _ := false
  le_of_gone h := Bool.noConfusion h

def afterTime : Expiry where
  gone expiresAt clock := decide (expiresAt < clock)
  le_of_gone h := (of_decide_eq_true h).le

end Expiry

structure Entry (ν : Type v) where
  value : ν
  expiresAt : ℚ

abbrev ExpiringStore (κ : Type u) (ν : Type v) := κ → Option (Entry ν)

namespace ExpiringStore

variable {κ : Type u} {ν : Type v}

def empty : ExpiringStore κ ν := fun _ => none

def get (e : Expiry) (clock : ℚ) (s : ExpiringStore κ ν) (key : κ) : Option ν :=
  match s key with
  | none => none
  | some entry => if e.gone entry.expiresAt clock then none else some entry.value

def setex [DecidableEq κ] (clock : ℚ) (s : ExpiringStore κ ν) (key : κ) (ttl : ℚ) (value : ν) :
    ExpiringStore κ ν := Function.update s key (some ⟨value, clock + ttl⟩)

section
variable {e : Expiry} {clock : ℚ} {s : ExpiringStore κ ν} {key : κ}

theorem get_of_none (h : s key = none) : s.get e clock key = none := by rw [get, h]

theorem get_of_gone {entry : Entry ν} (h : s key = some entry)
    (hgone : e.gone entry.expiresAt clock = true) : s.get e clock key = none := by
  rw [get, h]
  exact if_pos hgone

theorem get_of_not_gone {entry : Entry ν} (h : s key = some entry)
    (hgone : e.gone entry.expiresAt clock = false) : s.get e clock key = some entry.value := by
  rw [get, h]
  exact if_neg (by rw [hgone]; exact Bool.false_ne_true)
end

end ExpiringStore

end HelixRpc.Foundation
