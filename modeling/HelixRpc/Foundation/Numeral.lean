import Mathlib.Data.List.Forall2
import Mathlib.Tactic.Linarith

/-!
# Reading decimal numerals

A numeral is a list of characters with the values of digits.
-/

namespace HelixRpc.Foundation.Numeral

open List Option
universe u

def value (digits : List Nat) : Nat := digits.foldl (fun n d => 10 * n + d) 0

theorem value_lt {digits : List Nat} (h : ∀ d ∈ digits, d < 10) : value digits < 10 ^ digits.length := by
  have hfold : ∀ (digits : List Nat) (n : Nat), (∀ d ∈ digits, d < 10) →
      digits.foldl (fun n d => 10 * n + d) n < (n + 1) * 10 ^ digits.length := by
    intro digits
    induction digits with
    | nil => intro n _; simp
    | cons d digits ih =>
      intro n h
      have hd := h d mem_cons_self
      have hrest := ih (10 * n + d) fun d hd => h d (mem_cons_of_mem _ hd)
      rw [foldl_cons, length_cons, Nat.pow_succ]
      calc digits.foldl (fun n d => 10 * n + d) (10 * n + d)
          < (10 * n + d + 1) * 10 ^ digits.length := hrest
        _ ≤ (n + 1) * 10 * 10 ^ digits.length := Nat.mul_le_mul_right _ (by omega)
        _ = (n + 1) * (10 ^ digits.length * 10) := by rw [Nat.mul_assoc, Nat.mul_comm 10]
  have h' := hfold digits 0 h
  rwa [Nat.zero_add, Nat.one_mul] at h'

section
variable {α : Type u} (digit : α → Option Nat)

abbrev Spells (text : List α) (digits : List Nat) : Prop := Forall₂ (fun a d => digit a = some d) text digits

def readRun : List α → List Nat × List α
  | [] => ([], [])
  | a :: text =>
    match digit a with
    | none => ([], a :: text)
    | some d => (d :: (readRun text).1, (readRun text).2)

def numeral (text : List α) : Option Nat :=
  match readRun digit text with
  | (d :: digits, []) => some (value (d :: digits))
  | _ => none

def signed [DecidableEq α] (signs : List α) (text : List α) : Option (List α × Nat) :=
  match text with
  | [] => none
  | a :: rest =>
    if a ∈ signs then (numeral digit rest).map ([a], ·) else (numeral digit text).map ([], ·)

def splitNumber (text : List α) : Option (Nat × α × List α) :=
  match readRun digit text with
  | (d :: digits, a :: rest) => some (value (d :: digits), a, rest)
  | _ => none

variable {digit}
variable {text : List α} {n : Nat}
variable {rest : List α} {digits : List Nat} {a : α}

theorem readRun_eq_iff : readRun digit text = (digits, rest) ↔
      (∀ a ∈ rest.head?, digit a = none) ∧ ∃ run, text = run ++ rest ∧ Spells digit run digits := by
  induction text generalizing digits with
  | nil =>
    rw [readRun, Prod.mk.injEq]
    constructor
    · rintro ⟨rfl, rfl⟩
      exact ⟨nofun, [], rfl, .nil⟩
    · rintro ⟨-, run, htext, hrun⟩
      obtain ⟨rfl, rfl⟩ := append_eq_nil_iff.1 htext.symm
      cases hrun
      exact ⟨rfl, rfl⟩
  | cons a text ih =>
    cases ha : digit a with
    | none =>
      rw [readRun, ha, Prod.mk.injEq]
      constructor
      · rintro ⟨rfl, rfl⟩
        refine ⟨?_, [], rfl, .nil⟩
        rintro b hb
        cases hb
        exact ha
      · rintro ⟨-, run, htext, hrun⟩
        cases hrun with
        | nil => exact ⟨rfl, htext⟩
        | cons hb _ =>
          rw [cons_append, cons.injEq] at htext
          rw [← htext.1, ha] at hb
          cases hb
    | some d =>
      rw [readRun, ha, Prod.mk.injEq]
      constructor
      · rintro ⟨rfl, rfl⟩
        obtain ⟨hstop, run, htext, hrun⟩ := ih.1 rfl
        exact ⟨hstop, a :: run, congrArg (a :: ·) htext, .cons ha hrun⟩
      · rintro ⟨hstop, run, htext, hrun⟩
        cases hrun with
        | nil =>
          rw [nil_append] at htext
          rw [← htext] at hstop
          rw [hstop a rfl] at ha
          cases ha
        | cons hb hrun =>
          rw [cons_append, cons.injEq] at htext
          obtain ⟨rfl, htext⟩ := htext
          cases ha.symm.trans hb
          rw [ih.2 ⟨hstop, _, htext, hrun⟩]
          exact ⟨rfl, rfl⟩

theorem numeral_eq_some_iff : numeral digit text = some n ↔
      ∃ digits, digits ≠ [] ∧ Spells digit text digits ∧ value digits = n := by
  constructor
  · intro h
    rw [numeral] at h
    split at h
    · rename_i d digits heq
      obtain ⟨-, run, rfl, hrun⟩ := readRun_eq_iff.1 heq
      rw [append_nil]
      exact ⟨d :: digits, cons_ne_nil _ _, hrun, some.inj h⟩
    · cases h
  · rintro ⟨digits, hne, hspells, rfl⟩
    have hrun := readRun_eq_iff.2 ⟨nofun, text, (append_nil text).symm, hspells⟩
    obtain ⟨d, digits, rfl⟩ := exists_cons_of_ne_nil hne
    rw [numeral, hrun]

theorem numeral_lt (hdigit : ∀ a d, digit a = some d → d < 10) (h : numeral digit text = some n) :
    n < 10 ^ text.length := by
  obtain ⟨digits, hne, hspells, rfl⟩ := numeral_eq_some_iff.1 h
  clear h hne
  rw [hspells.length_eq]
  apply value_lt
  induction hspells with
  | nil => nofun
  | cons ha _ ih => exact forall_mem_cons.2 ⟨hdigit _ _ ha, ih⟩

theorem exists_digit_of_mem (h : Spells digit text digits) (ha : a ∈ text) : ∃ d, digit a = some d := by
  induction h with
  | nil => cases ha
  | cons hfirst _ ih =>
    rcases mem_cons.1 ha with rfl | hmem
    · exact ⟨_, hfirst⟩
    · exact ih hmem

theorem exists_cons_of_numeral (h : numeral digit text = some n) : ∃ a d rest, text = a :: rest ∧ digit a = some d := by
  obtain ⟨digits, hne, hspells, -⟩ := numeral_eq_some_iff.1 h
  cases hspells with
  | nil => exact absurd rfl hne
  | cons ha _ => exact ⟨_, _, _, rfl, ha⟩

theorem splitNumber_eq_some_iff : splitNumber digit text = some (n, a, rest) ↔
      digit a = none ∧ ∃ run, text = run ++ a :: rest ∧ numeral digit run = some n := by
  constructor
  · intro h
    rw [splitNumber] at h
    split at h
    · rename_i d digits b rest' heq
      cases h
      obtain ⟨hstop, run, htext, hrun⟩ := readRun_eq_iff.1 heq
      exact ⟨hstop _ rfl, run, htext, numeral_eq_some_iff.2 ⟨d :: digits, cons_ne_nil _ _, hrun, rfl⟩⟩
    · cases h
  · rintro ⟨ha, run, rfl, hn⟩
    obtain ⟨digits, hne, hspells, rfl⟩ := numeral_eq_some_iff.1 hn
    have hrun : readRun digit (run ++ a :: rest) = (digits, a :: rest) := by
      refine readRun_eq_iff.2 ⟨fun b hb => ?_, run, rfl, hspells⟩
      cases hb
      exact ha
    obtain ⟨d, digits, rfl⟩ := exists_cons_of_ne_nil hne
    rw [splitNumber, hrun]

theorem signed_eq_some_iff [DecidableEq α] {signs : List α} (hsigns : ∀ a ∈ signs, digit a = none) {sign : List α} :
    signed digit signs text = some (sign, n) ↔ (sign = [] ∨ ∃ a ∈ signs, sign = [a]) ∧
        ∃ digits, text = sign ++ digits ∧ numeral digit digits = some n := by
  cases text with
  | nil =>
    refine iff_of_false nofun ?_
    rintro ⟨-, digits, htext, hn⟩
    obtain ⟨rfl, rfl⟩ := append_eq_nil_iff.1 htext.symm
    cases hn
  | cons a rest =>
    by_cases ha : a ∈ signs
    · rw [signed, if_pos ha, map_eq_some_iff]
      constructor
      · rintro ⟨m, hm, heq⟩
        cases heq
        exact ⟨.inr ⟨a, ha, rfl⟩, rest, rfl, hm⟩
      · rintro ⟨rfl | ⟨b, hb, rfl⟩, digits, htext, hn⟩
        · obtain ⟨c, d, rest', rfl, hc⟩ := exists_cons_of_numeral hn
          cases htext
          rw [hsigns _ ha] at hc
          cases hc
        · cases htext
          exact ⟨n, hn, rfl⟩
    · rw [signed, if_neg ha, map_eq_some_iff]
      constructor
      · rintro ⟨m, hm, heq⟩
        cases heq
        exact ⟨.inl rfl, a :: rest, rfl, hm⟩
      · rintro ⟨rfl | ⟨b, hb, rfl⟩, digits, htext, hn⟩
        · cases htext
          exact ⟨n, hn, rfl⟩
        · cases htext
          exact absurd hb ha
end

def asciiDigit (ch : Char) : Option Nat :=
  if 48 ≤ ch.toNat ∧ ch.toNat ≤ 57 then some (ch.toNat - 48) else none

theorem asciiDigit_eq_some {ch : Char} {d : Nat} (h : asciiDigit ch = some d) :
    48 ≤ ch.toNat ∧ ch.toNat ≤ 57 ∧ d < 10 := by
  rw [asciiDigit] at h
  split at h
  · rename_i hrange
    have hd := some.inj h
    omega
  · cases h

end HelixRpc.Foundation.Numeral
