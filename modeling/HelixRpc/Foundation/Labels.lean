import Mathlib.Tactic.Common

/-!
# Numbered labels

A name, a separator that is no digit and a decimal number: name and number can be read off the label.
-/

namespace HelixRpc.Foundation

open List

theorem toDigits_injective : Function.Injective (Nat.toDigits 10) :=
  Function.LeftInverse.injective (g := fun digits => Nat.ofDigitChars 10 digits 0) fun _ =>
    Nat.ofDigitChars_ten_toDigits

variable {sep : Char} {n m : List Char} {i j : Nat}

theorem sep_notMem_toDigits (hsep : sep.isDigit = false) (i : Nat) : sep ∉ Nat.toDigits 10 i := by
  intro hmem
  have hdigit := Nat.isDigit_of_mem_toDigits (by decide) (by decide) hmem
  rw [hsep] at hdigit
  cases hdigit

theorem append_toDigits_inj (hsep : sep.isDigit = false)
    (h : n ++ sep :: Nat.toDigits 10 i = m ++ sep :: Nat.toDigits 10 j) : n = m ∧ i = j := by
  rcases append_eq_append_iff.1 h with ⟨between, rfl, hrest⟩ | ⟨between, rfl, hrest⟩
  · cases between with
    | nil => exact ⟨(append_nil n).symm, toDigits_injective (cons.inj hrest).2⟩
    | cons ch between =>
      refine absurd ?_ (sep_notMem_toDigits hsep i)
      rw [(cons.inj hrest).2]
      exact mem_append_right _ mem_cons_self
  · cases between with
    | nil => exact ⟨append_nil m, (toDigits_injective (cons.inj hrest).2).symm⟩
    | cons ch between =>
      refine absurd ?_ (sep_notMem_toDigits hsep j)
      rw [(cons.inj hrest).2]
      exact mem_append_right _ mem_cons_self

end HelixRpc.Foundation
