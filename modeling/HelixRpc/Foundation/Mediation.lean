import Mathlib.Data.List.Basic

/-!
# Programs around a call

Middleware is a program that is given a function: it may call it any number of times, with arguments of its own, and
it returns a value (`Script`).
-/

namespace HelixRpc.Foundation

open List
universe u v w

inductive Script (α : Type u) (β : Type v) where
  | ret (b : β)
  | call (a : α) (next : β → Script α β)

inductive Event (τ : Type w) where
  | enter (k : Nat)
  | leave (k : Nat)
  | invoke (t : τ)
  deriving DecidableEq

abbrev Logged (τ : Type w) (β : Type v) := List (Event τ) × β

variable {α : Type u} {β : Type v} {τ : Type w}

def Script.run (f : α → Logged τ β) : Script α β → Logged τ β
  | .ret b => ([], b)
  | .call a next =>
    let (es, b) := f a
    let (es', b') := (next b).run f
    (es ++ es', b')

def Script.runAs (k : Nat) (f : α → Logged τ β) (s : Script α β) : Logged τ β :=
  (.enter k :: ((s.run f).1 ++ [.leave k]), (s.run f).2)

/-- Every invocation stands inside the programs `full`; `inside` are the programs that have been
entered and not been left before the record. -/
def Mediated (full : List Nat) : List Nat → List (Event τ) → Prop
  | _, [] => True
  | inside, .enter k :: es => Mediated full (inside ++ [k]) es
  | inside, .leave _ :: es => Mediated full inside.dropLast es
  | inside, .invoke _ :: es => inside = full ∧ Mediated full inside es

/-- A record that may stand in front of any other: its invocations stand inside of `full`, and it ends
inside of the same programs as it begins. -/
def Nested (full inside : List Nat) (es : List (Event τ)) : Prop :=
  ∀ rest, Mediated full inside rest → Mediated full inside (es ++ rest)

section
variable {full inside : List Nat} {es es' : List (Event τ)}

theorem Nested.mediated (h : Nested full inside es) : Mediated full inside es := by
  have := h [] trivial
  rwa [append_nil] at this

theorem Nested.nil : Nested full inside ([] : List (Event τ)) := fun _ h => h

theorem Nested.append (h : Nested full inside es) (h' : Nested full inside es') : Nested full inside (es ++ es') := by
  intro rest hrest
  rw [append_assoc]
  exact h _ (h' _ hrest)

theorem Nested.invoke (t : τ) : Nested full full [.invoke t] := fun _ h => ⟨rfl, h⟩

variable {k : Nat} {f : α → Logged τ β}

theorem Nested.wrap (h : Nested full (inside ++ [k]) es) : Nested full inside (.enter k :: (es ++ [.leave k])) := by
  intro rest hrest
  rw [cons_append, append_assoc]
  refine h _ ?_
  rw [singleton_append, Mediated, dropLast_concat]
  exact hrest

theorem Nested.script (h : ∀ a, Nested full inside (f a).1) (s : Script α β) : Nested full inside (s.run f).1 := by
  induction s with
  | ret b => exact .nil
  | call a next ih => exact (h a).append (ih (f a).2)

theorem Nested.runAs (h : ∀ a, Nested full (inside ++ [k]) (f a).1)
    (s : Script α β) : Nested full inside (s.runAs k f).1 := (Nested.script h s).wrap
end

end HelixRpc.Foundation
