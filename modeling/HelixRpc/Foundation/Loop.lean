import Mathlib.Logic.Relation
import Mathlib.Tactic.Common

/-!
# Outcomes and loops of an imperative program

A run of an imperative function ends with a value, with an error value, or with a fault (`Outcome`).
-/

namespace HelixRpc.Foundation

open Option
universe u v w

inductive Fault where
  | index
  | slice
  | constant
  deriving DecidableEq, Repr

inductive Outcome (ε : Type u) (α : Type v) where
  | ok (a : α)
  | error (e : ε)
  | fault (f : Fault)
  deriving DecidableEq, Repr

namespace Outcome

variable {ε : Type u} {α β : Type v}

def bind (x : Outcome ε α) (f : α → Outcome ε β) : Outcome ε β :=
  match x with
  | .ok a => f a
  | .error e => .error e
  | .fault g => .fault g

instance : Monad (Outcome ε) where
  pure := Outcome.ok
  bind := Outcome.bind

@[simp] theorem pure_eq (a : α) : (pure a : Outcome ε α) = .ok a := rfl
@[simp] theorem ok_bind (a : α) (f : α → Outcome ε β) : (Outcome.ok a >>= f) = f a := rfl
@[simp] theorem error_bind (e : ε) (f : α → Outcome ε β) : (Outcome.error e >>= f) = .error e := rfl
@[simp] theorem fault_bind (g : Fault) (f : α → Outcome ε β) : (Outcome.fault g >>= f) = .fault g := rfl

instance : LawfulMonad (Outcome ε) :=
  LawfulMonad.mk' (Outcome ε) (fun x => by cases x <;> rfl) (fun _ _ => rfl)
    (fun x _ _ => by cases x <;> rfl)

variable {x : Outcome ε α} {f : α → Outcome ε β}

theorem bind_eq_ok {b : β} : (x >>= f) = .ok b ↔ ∃ a, x = .ok a ∧ f a = .ok b := by
  cases x <;> simp

theorem bind_eq_fault {g : Fault} : (x >>= f) = .fault g ↔ x = .fault g ∨ ∃ a, x = .ok a ∧ f a = .fault g := by
  cases x <;> simp

theorem exists_bind_fault_iff (hf : ∀ a g, f a ≠ .fault g) : (∃ g, (x >>= f) = .fault g) ↔ ∃ g, x = .fault g := by
  constructor
  · rintro ⟨g, hg⟩
    rcases bind_eq_fault.1 hg with hx | ⟨a, -, ha⟩
    · exact ⟨g, hx⟩
    · exact absurd ha (hf a g)
  · rintro ⟨g, hg⟩
    exact ⟨g, bind_eq_fault.2 (Or.inl hg)⟩

end Outcome

inductive Flow (σ : Type v) (ρ : Type w) where
  | next (s : σ)
  | ret (r : ρ)
  deriving DecidableEq, Repr

section
variable {ε : Type u} {σ : Type v} {ρ : Type w}

def runLoop (step : σ → Outcome ε (Flow σ ρ)) : Nat → σ → Option (Outcome ε ρ)
  | 0, _ => none
  | n + 1, s =>
    match step s with
    | .ok (.next t) => runLoop step n t
    | .ok (.ret r) => some (.ok r)
    | .error e => some (.error e)
    | .fault f => some (.fault f)

variable (step : σ → Outcome ε (Flow σ ρ))

def Returns (s : σ) (r : Outcome ε ρ) : Prop := ∃ n, runLoop step n s = some r

def Steps (s t : σ) : Prop := step s = .ok (.next t)

abbrev Reaches : σ → σ → Prop := Relation.ReflTransGen (Steps step)

variable {step : σ → Outcome ε (Flow σ ρ)}
variable {s : σ}

theorem runLoop_mono {n m : Nat} {r : Outcome ε ρ} (h : runLoop step n s = some r) (hm : n ≤ m) :
    runLoop step m s = some r := by
  induction n generalizing m s with
  | zero => simp [runLoop] at h
  | succ n ih =>
    -- a returning loop has fuel left, so the larger amount is a successor too
    obtain ⟨k, rfl⟩ : ∃ k, m = k + 1 := ⟨m - 1, by omega⟩
    simp only [runLoop] at h ⊢
    cases hs : step s with
    | ok fl =>
      cases fl with
      | next t =>
        simp only [hs] at h ⊢
        exact ih h (by omega)
      | ret a => simpa only [hs] using h
    | error e => simpa only [hs] using h
    | fault f => simpa only [hs] using h

theorem returns_unique {r r' : Outcome ε ρ} (h : Returns step s r) (h' : Returns step s r') : r = r' := by
  obtain ⟨n, hn⟩ := h
  obtain ⟨m, hm⟩ := h'
  -- both runs are runs with the larger fuel
  have e1 := runLoop_mono hn (Nat.le_max_left n m)
  have e2 := runLoop_mono hm (Nat.le_max_right n m)
  rw [e1] at e2
  exact some.inj e2

theorem returns_step_iff {t : σ} (h : Steps step s t) (r : Outcome ε ρ) : Returns step s r ↔ Returns step t r := by
  have hs : step s = .ok (.next t) := h
  constructor
  · rintro ⟨n, hn⟩
    cases n with
    | zero => simp [runLoop] at hn
    | succ n => exact ⟨n, by simpa only [runLoop, hs] using hn⟩
  · rintro ⟨n, hn⟩
    exact ⟨n + 1, by simpa only [runLoop, hs] using hn⟩

theorem returns_reaches_iff {t : σ} (h : Reaches step s t) (r : Outcome ε ρ) : Returns step s r ↔ Returns step t r := by
  induction h with
  | refl => exact Iff.rfl
  | tail _ hst ih => exact ih.trans (returns_step_iff hst r)

theorem returns_of_ret {a : ρ} (h : step s = .ok (.ret a)) : Returns step s (.ok a) := ⟨1, by simp only [runLoop, h]⟩

theorem returns_of_error {e : ε} (h : step s = .error e) : Returns step s (.error e) := ⟨1, by simp only [runLoop, h]⟩

theorem returns_of_fault {f : Fault} (h : step s = .fault f) :
    Returns step s (.fault f) := ⟨1, by simp only [runLoop, h]⟩

theorem runLoop_succ_ok {n : Nat} {a : ρ} (h : runLoop step (n + 1) s = some (.ok a)) :
    step s = .ok (.ret a) ∨ ∃ t, Steps step s t ∧ runLoop step n t = some (.ok a) := by
  simp only [runLoop] at h
  cases hs : step s with
  | ok fl =>
    cases fl with
    | next t =>
      simp only [hs] at h
      exact Or.inr ⟨t, hs, h⟩
    | ret b =>
      simp only [hs, some.injEq, Outcome.ok.injEq] at h
      exact Or.inl (by rw [h])
  | error e => simp [hs] at h
  | fault f => simp [hs] at h

theorem not_returns_of_steps_self (h : Steps step s s) (r : Outcome ε ρ) : ¬ Returns step s r := by
  have hs : step s = .ok (.next s) := h
  rintro ⟨n, hn⟩
  induction n with
  | zero => simp [runLoop] at hn
  | succ n ih => exact ih (by simpa only [runLoop, hs] using hn)

theorem exists_returns_of_variant (m : σ → Nat) (hdec : ∀ t t', Reaches step s t → Steps step t t' → m t' < m t) :
    ∃ r, Returns step s r := by
  -- strong induction on the variant, over all states that the loop reaches
  have key : ∀ k t, m t = k → Reaches step s t → ∃ r, Returns step t r := by
    intro k
    induction k using Nat.strongRecOn with
    | ind k ih =>
      intro t hk hr
      cases ht : step t with
      | ok fl =>
        cases fl with
        | next t' =>
          have hlt := hdec t t' hr ht
          obtain ⟨r, hret⟩ := ih (m t') (hk ▸ hlt) t' rfl (hr.tail ht)
          exact ⟨r, (returns_step_iff ht r).2 hret⟩
        | ret a => exact ⟨_, returns_of_ret ht⟩
      | error e => exact ⟨_, returns_of_error ht⟩
      | fault f => exact ⟨_, returns_of_fault ht⟩
  exact key (m s) s rfl Relation.ReflTransGen.refl

theorem exists_fault_step {f : Fault} (h : Returns step s (.fault f)) : ∃ t, Reaches step s t ∧ step t = .fault f := by
  obtain ⟨n, hn⟩ := h
  induction n generalizing s with
  | zero => simp [runLoop] at hn
  | succ n ih =>
    simp only [runLoop] at hn
    cases hs : step s with
    | ok fl =>
      cases fl with
      | next t =>
        simp only [hs] at hn
        obtain ⟨t', ht', hf⟩ := ih hn
        exact ⟨t', Relation.ReflTransGen.head hs ht', hf⟩
      | ret a => simp [hs] at hn
    | error e => simp [hs] at hn
    | fault g =>
      simp only [hs, some.injEq, Outcome.fault.injEq] at hn
      exact ⟨s, Relation.ReflTransGen.refl, hn ▸ hs⟩

/-- A loop that lowers a number in every iteration, as a function: it is run with that much fuel, and
`runLoop_within` says that this is enough. -/
def loopWithin (bound : σ → Nat) (step : σ → Outcome ε (Flow σ ρ)) (s : σ) : Outcome ε ρ :=
  (runLoop step (bound s + 1) s).getD (.fault .index)

section
variable {bound : σ → Nat} (hdec : ∀ s t, Steps step s t → bound t < bound s)
include hdec

theorem runLoop_within (s : σ) : ∃ r, runLoop step (bound s + 1) s = some r := by
  have key : ∀ k t, bound t < k → ∃ r, runLoop step k t = some r := by
    intro k
    induction k with
    | zero =>
      intro t ht
      omega
    | succ k ih =>
      intro t ht
      cases hstep : step t with
      | ok fl =>
        cases fl with
        | next t' =>
          have hlt := hdec t t' hstep
          obtain ⟨r, hr⟩ := ih t' (by omega)
          exact ⟨r, by simp only [runLoop, hstep, hr]⟩
        | ret a => exact ⟨.ok a, by simp only [runLoop, hstep]⟩
      | error e => exact ⟨.error e, by simp only [runLoop, hstep]⟩
      | fault f => exact ⟨.fault f, by simp only [runLoop, hstep]⟩
  exact key (bound s + 1) s (Nat.lt_succ_self _)

theorem loopWithin_eq_iff {s : σ} {r : Outcome ε ρ} : loopWithin bound step s = r ↔ Returns step s r := by
  obtain ⟨r', hr'⟩ := runLoop_within hdec s
  have hloop : loopWithin bound step s = r' := by rw [loopWithin, hr', getD_some]
  rw [hloop]
  constructor
  · rintro rfl
    exact ⟨_, hr'⟩
  · intro h
    exact returns_unique ⟨_, hr'⟩ h

theorem bound_le_of_reaches {s t : σ} (h : Reaches step s t) : bound t ≤ bound s := by
  induction h with
  | refl => exact Nat.le_refl _
  | tail _ hst ih => exact Nat.le_trans (Nat.le_of_lt (hdec _ _ hst)) ih

theorem exists_ret_of_loopWithin {s : σ} {a : ρ} (h : loopWithin bound step s = .ok a) :
    ∃ t, Reaches step s t ∧ step t = .ok (.ret a) := by
  obtain ⟨n, hn⟩ := (loopWithin_eq_iff hdec).1 h
  clear h
  induction n generalizing s with
  | zero => simp [runLoop] at hn
  | succ n ih =>
    rcases runLoop_succ_ok hn with hret | ⟨t, hst, hrest⟩
    · exact ⟨s, Relation.ReflTransGen.refl, hret⟩
    · obtain ⟨t', hreach, hret⟩ := ih hrest
      exact ⟨t', Relation.ReflTransGen.head hst hreach, hret⟩
end

/-- The loop ends with a value or an error, without a fault, and every iteration that goes on moves
the offset forward. -/
structure SafeRun (step : σ → Outcome ε (Flow σ ρ)) (off : σ → Int) (s : σ) : Prop where
  returns : ∃ r, Returns step s r ∧ ∀ f, r ≠ .fault f
  advances : ∀ t t', Reaches step s t → Steps step t t' → off t < off t'

/-- A single iteration that is safe: it does not fault, and if it goes on, it moves the offset
forward. -/
def SafeStep (step : σ → Outcome ε (Flow σ ρ)) (off : σ → Int) (t : σ) : Prop :=
  (∀ f, step t ≠ .fault f) ∧ ∀ t', Steps step t t' → off t < off t'

theorem safeRun_iff {off : σ → Int} (limit : Int) (hlimit : ∀ t t', Steps step t t' → off t < limit) :
    SafeRun step off s ↔ ∀ t, Reaches step s t → SafeStep step off t := by
  constructor
  · rintro ⟨⟨r, hr, hnf⟩, hadv⟩ t ht
    refine ⟨?_, fun t' hst => hadv t t' ht hst⟩
    intro f hf
    have hret : Returns step s (.fault f) := (returns_reaches_iff ht _).2 (returns_of_fault hf)
    exact hnf f (returns_unique hr hret)
  · intro hsafe
    have hadv : ∀ t t', Reaches step s t → Steps step t t' → off t < off t' :=
      fun t t' ht hst => (hsafe t ht).2 t' hst
    refine ⟨?_, hadv⟩
    -- the distance to the limit is the variant
    obtain ⟨r, hr⟩ := exists_returns_of_variant (fun t => (limit - off t).toNat)
      (s := s) (fun t t' ht hst => by
        have h1 := hadv t t' ht hst
        have h2 := hlimit t t' hst
        omega)
    refine ⟨r, hr, ?_⟩
    rintro f rfl
    obtain ⟨t, ht, hf⟩ := exists_fault_step hr
    exact (hsafe t ht).1 f hf
end

end HelixRpc.Foundation
