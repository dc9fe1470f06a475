import HelixRpc.Foundation.Directory
import HelixRpc.Foundation.Machine
import HelixRpc.Foundation.SignedWord
import HelixRpc.Runtime.Go.Router
import Mathlib.Data.List.Induction
import Mathlib.Tactic.Linarith

/-!
# The least-connections balancer of the Go client

Model of `LeastConnBalancer` (`runtimes/go/balancer.go`).
-/

namespace HelixRpc.Runtime.Go.LeastConn

open Foundation List Machine

/-- The index map and the slice of endpoints, each with its `int64` count of active connections. -/
abbrev LeastConnBalancer := Directory Text Int64

def newLeastConnBalancer : LeastConnBalancer := .empty

namespace LeastConnBalancer

variable (b : LeastConnBalancer) (targets : List Text)

def register : LeastConnBalancer := targets.foldl (fun b t => b.ensure 0 t) b

def activeConns (target : Text) : Int64 := (b.get target).getD 0

def registerMissing : LeastConnBalancer := targets.foldl (fun b t => if b.Known t then b else register b [t]) b

/-- One round of the loop of `Next` over the targets; `-1` stands for no target yet. -/
def selectStep (active : Text → Int64) (best : Text × Int64) (t : Text) : Text × Int64 :=
  if best.2 < 0 ∨ active t < best.2 then (t, active t) else best

def select : Text := (targets.foldl (selectStep (activeConns b)) ([], -1)).1

def next : LeastConnBalancer × Except Text Text :=
  if targets.length = 0 then (b, .error "no targets available for load balancing".toList)
  else
    let b := registerMissing b targets
    let selected := select b targets
    (b.modify selected (· + 1), .ok selected)

def done (target : Text) : LeastConnBalancer := b.modify target (· - 1)

end LeastConnBalancer

inductive BalancerCall where
  | register (targets : List Text)
  | next (targets : List Text)
  | done (target : Text)
  deriving DecidableEq

def BalancerCall.targets : BalancerCall → List Text
  | .register targets => targets
  | .next targets => targets
  | .done _ => []

def balancer : Machine LeastConnBalancer BalancerCall (Option (Except Text Text)) := fun b call =>
  match call with
  | .register targets => (b.register targets, none)
  | .next targets => ((b.next targets).1, some (b.next targets).2)
  | .done target => (b.done target, none)

section
variable {b : LeastConnBalancer} {t u : Text} {targets : List Text} {i : Nat}

theorem activeConns_ensure : LeastConnBalancer.activeConns (b.ensure 0 t) u = b.activeConns u := by
  unfold LeastConnBalancer.activeConns
  by_cases hknown : b.Known t
  · rw [Directory.get_ensure (.inl hknown)]
  · by_cases heq : u = t
    · -- the counter is new, and there was none before
      rw [heq, Directory.get_ensure_self hknown, Directory.get_eq_none_iff.2 hknown]
      rfl
    · rw [Directory.get_ensure (.inr heq)]

theorem activeConns_register : (b.register targets).activeConns u = b.activeConns u := by
  induction targets generalizing b with
  | nil => rfl
  | cons t targets ih => exact (ih (b := b.ensure 0 t)).trans activeConns_ensure

theorem index_register (h : b.index u = some i) : (b.register targets).index u = some i := by
  induction targets generalizing b with
  | nil => exact h
  | cons t targets ih => exact ih (Directory.index_ensure_of_known h)

theorem known_register_iff : (b.register targets).Known u ↔ b.Known u ∨ u ∈ targets := by
  induction targets generalizing b with
  | nil => simp [LeastConnBalancer.register]
  | cons t targets ih =>
    refine (ih (b := b.ensure 0 t)).trans ?_
    rw [Directory.known_ensure_iff, or_assoc, mem_cons]

theorem registerMissing_eq : b.registerMissing targets = b.register targets := by
  have hround : (fun (b : LeastConnBalancer) (t : Text) => if b.Known t then b else b.register [t]) =
      fun b t => b.ensure 0 t := by
    funext b t
    by_cases hknown : b.Known t
    · rw [if_pos hknown, Directory.ensure, if_pos hknown]
    · rw [if_neg hknown]
      rfl
  unfold LeastConnBalancer.registerMissing
  rw [hround]
  rfl
end

def FirstMinimal (active : Text → Int) (targets : List Text) (t : Text) : Prop :=
  ∃ earlier later, targets = earlier ++ t :: later ∧
    (∀ u ∈ earlier, active t < active u) ∧ ∀ u ∈ later, active t ≤ active u

section
variable {active : Text → Int} {targets : List Text} {t u : Text}

theorem FirstMinimal.mem (h : FirstMinimal active targets t) : t ∈ targets := by
  obtain ⟨earlier, later, rfl, -, -⟩ := h
  exact mem_append_right _ mem_cons_self

theorem FirstMinimal.le (h : FirstMinimal active targets t) (hu : u ∈ targets) : active t ≤ active u := by
  obtain ⟨earlier, later, rfl, hearlier, hlater⟩ := h
  rcases mem_append.1 hu with hu | hu
  · exact (hearlier u hu).le
  · rcases mem_cons.1 hu with rfl | hu
    · exact le_refl _
    · exact hlater u hu

theorem FirstMinimal.unique (ht : FirstMinimal active targets t) (hu : FirstMinimal active targets u) : t = u := by
  have hsame : active t = active u := le_antisymm (ht.le hu.mem) (hu.le ht.mem)
  obtain ⟨earlier, later, rfl, hearlier, -⟩ := ht
  obtain ⟨earlier', later', heq, hearlier', -⟩ := hu
  -- neither is among those before the other one
  rcases append_eq_append_iff.1 heq with ⟨between, rfl, hrest⟩ | ⟨between, rfl, hrest⟩
  · cases between with
    | nil => exact (cons.inj hrest).1
    | cons v between =>
      obtain ⟨rfl, -⟩ := cons.inj hrest
      exact absurd hsame.symm (hearlier' t (by simp)).ne
  · cases between with
    | nil => exact (cons.inj hrest).1.symm
    | cons v between =>
      obtain ⟨rfl, -⟩ := cons.inj hrest
      exact absurd hsame (hearlier u (by simp)).ne

theorem FirstMinimal.congr {active' : Text → Int} (h : FirstMinimal active targets t)
    (heq : ∀ u ∈ targets, active u = active' u) : FirstMinimal active' targets t := by
  have ht := heq t h.mem
  obtain ⟨earlier, later, rfl, hearlier, hlater⟩ := h
  refine ⟨earlier, later, rfl, fun u hu => ?_, fun u hu => ?_⟩
  · rw [← ht, ← heq u (mem_append_left _ hu)]
    exact hearlier u hu
  · rw [← ht, ← heq u (mem_append_right _ (mem_cons_of_mem _ hu))]
    exact hlater u hu

theorem FirstMinimal.keep (h : FirstMinimal active targets t) (hu : active t ≤ active u) :
    FirstMinimal active (targets ++ [u]) t := by
  obtain ⟨earlier, later, rfl, hearlier, hlater⟩ := h
  refine ⟨earlier, later ++ [u], by simp, hearlier, fun v hv => ?_⟩
  rcases mem_append.1 hv with hv | hv
  · exact hlater v hv
  · rw [mem_singleton.1 hv]
    exact hu

theorem FirstMinimal.replace (h : FirstMinimal active targets t) (hu : active u < active t) :
    FirstMinimal active (targets ++ [u]) u :=
  ⟨targets, [], rfl, fun _ hv => hu.trans_le (h.le hv), fun _ hv => absurd hv not_mem_nil⟩

theorem foldl_selectStep {active : Text → Int64} {seen : List Text}
    (h : FirstMinimal (fun u => (active u).toInt) seen t) (hnonneg : ∀ u ∈ seen ++ targets, 0 ≤ (active u).toInt) :
    FirstMinimal (fun u => (active u).toInt) (seen ++ targets)
      (targets.foldl (LeastConnBalancer.selectStep active) (t, active t)).1 := by
  -- the best of the targets seen so far, with its count
  induction targets generalizing seen t with
  | nil => simpa using h
  | cons u targets ih =>
    have happend : seen ++ u :: targets = (seen ++ [u]) ++ targets := by simp
    have ht : ¬ active t < 0 := by
      rw [Int64.lt_iff_toInt_lt]
      exact not_lt.2 (hnonneg t (mem_append_left _ h.mem))
    rw [happend] at hnonneg ⊢
    rw [foldl_cons, LeastConnBalancer.selectStep]
    by_cases hless : active u < active t
    · rw [if_pos (.inr hless)]
      exact ih (h.replace (Int64.lt_iff_toInt_lt.1 hless)) hnonneg
    · rw [if_neg (not_or.2 ⟨ht, hless⟩)]
      exact ih (h.keep (not_lt.1 (mt Int64.lt_iff_toInt_lt.2 hless))) hnonneg

theorem firstMinimal_foldl {active : Text → Int64} (hne : targets ≠ [])
    (hnonneg : ∀ u ∈ targets, 0 ≤ (active u).toInt) :
    FirstMinimal (fun u => (active u).toInt) targets
      (targets.foldl (LeastConnBalancer.selectStep active) ([], -1)).1 := by
  cases targets with
  | nil => exact absurd rfl hne
  | cons t targets =>
    have hstart : LeastConnBalancer.selectStep active ([], -1) t = (t, active t) := if_pos (.inl (by decide))
    have hsingle : FirstMinimal (fun u => (active u).toInt) [t] t :=
      ⟨[], [], rfl, fun _ hv => absurd hv not_mem_nil, fun _ hv => absurd hv not_mem_nil⟩
    rw [foldl_cons, hstart]
    exact foldl_selectStep hsingle hnonneg
end

section
variable {b : LeastConnBalancer} {targets : List Text} {t u : Text}
variable {f : Int64 → Int64} {call : BalancerCall}

theorem activeConns_modify_of_ne (h : u ≠ t) : LeastConnBalancer.activeConns (b.modify t f) u = b.activeConns u := by
  unfold LeastConnBalancer.activeConns
  rw [Directory.get_modify_of_ne h]

theorem activeConns_modify_self (h : b.Known t) :
    LeastConnBalancer.activeConns (b.modify t f) t = f (b.activeConns t) := by
  unfold LeastConnBalancer.activeConns
  rw [Directory.get_modify_self]
  cases hget : b.get t with
  | none => exact absurd h (Directory.get_eq_none_iff.1 hget)
  | some n => rfl

theorem next_mem (h : (b.next targets).2 = .ok t) : t ∈ targets := by
  have hfold : ∀ (active : Text → Int64) (later : List Text) (best : Text × Int64), best.1 ∈ targets → (∀ u ∈ later,
    u ∈ targets) → (later.foldl (LeastConnBalancer.selectStep active) best).1 ∈ targets := by
    intro active later
    induction later with
    | nil => exact fun _ hbest _ => hbest
    | cons u later ih =>
      intro best hbest hlater
      refine ih _ ?_ fun v hv => hlater v (mem_cons_of_mem _ hv)
      unfold LeastConnBalancer.selectStep
      split_ifs
      · exact hlater u mem_cons_self
      · exact hbest
  unfold LeastConnBalancer.next at h
  split_ifs at h with hnil
  · cases targets with
    | nil => exact absurd rfl hnil
    | cons first targets =>
      cases h
      exact hfold _ targets _ mem_cons_self fun v hv => mem_cons_of_mem _ hv

theorem next_spec (hne : targets ≠ []) :
    ∃ t ∈ targets, (b.next targets).2 = .ok t ∧
      ((∀ u ∈ targets, 0 ≤ (b.activeConns u).toInt) → FirstMinimal (fun u => (b.activeConns u).toInt) targets t) ∧
      ∀ u, (b.next targets).1.activeConns u = b.activeConns u + if u = t then 1 else 0 := by
  have hactive : LeastConnBalancer.activeConns (b.register targets) = b.activeConns :=
    funext fun _ => activeConns_register
  have hnext : (b.next targets).2 = .ok ((b.register targets).select targets) := by
    rw [LeastConnBalancer.next, if_neg (mt length_eq_zero_iff.1 hne), registerMissing_eq]
  refine ⟨_, next_mem hnext, hnext, fun hnonneg => ?_, fun u => ?_⟩
  · rw [LeastConnBalancer.select, hactive]
    exact firstMinimal_foldl hne hnonneg
  · rw [LeastConnBalancer.next, if_neg (mt length_eq_zero_iff.1 hne), registerMissing_eq]
    split_ifs with heq
    · rw [heq, activeConns_modify_self (known_register_iff.2 (.inr (next_mem hnext))), activeConns_register]
    · rw [activeConns_modify_of_ne heq, activeConns_register, Int64.add_zero]

theorem index_step {i : Nat} (h : b.index t = some i) : (balancer b call).1.index t = some i := by
  cases call with
  | register targets => exact index_register h
  | next targets =>
    change (b.next targets).1.index t = some i
    unfold LeastConnBalancer.next
    split_ifs with hnil
    · exact h
    · rw [Directory.index_modify, registerMissing_eq]
      exact index_register h
  | done target =>
    change (b.modify target _).index t = some i
    rw [Directory.index_modify]
    exact h

theorem known_step_iff : (balancer b call).1.Known t ↔ b.Known t ∨ t ∈ call.targets := by
  cases call with
  | register targets => exact known_register_iff
  | next targets =>
    change (b.next targets).1.Known t ↔ b.Known t ∨ t ∈ targets
    unfold LeastConnBalancer.next
    split_ifs with hnil
    · rw [length_eq_zero_iff.1 hnil]
      simp
    · rw [Directory.Known, Directory.index_modify, registerMissing_eq]
      exact known_register_iff
  | done target =>
    change (b.modify target _).Known t ↔ b.Known t ∨ t ∈ []
    rw [Directory.Known, Directory.index_modify]
    simp [Directory.Known]
end

section
variable (calls : List BalancerCall) (t : Text)

def returned : Nat := (balancer.answers newLeastConnBalancer calls).countP fun answer =>
  match answer with
  | some (.ok target) => target = t
  | _ => false

def ended : Nat := calls.count (.done t)

def Proper : Prop := ∀ earlier t later, calls = earlier ++ .done t :: later → ended earlier t < returned earlier t

def balancerAfter : LeastConnBalancer := balancer.after newLeastConnBalancer calls

variable {calls t} {call : BalancerCall}

theorem balancerAfter_snoc : balancerAfter (calls ++ [call]) = (balancer (balancerAfter calls) call).1 :=
  after_snoc _ _ _ _

theorem Proper.of_snoc (h : Proper (calls ++ [call])) : Proper calls := by
  intro earlier t later heq
  exact h earlier t (later ++ [call]) (by rw [heq, append_assoc, cons_append])

theorem Proper.last (h : Proper (calls ++ [.done t])) : ended calls t < returned calls t := h calls t [] rfl

theorem returned_snoc : returned (calls ++ [call]) t = returned calls t +
    match (balancer (balancerAfter calls) call).2 with
    | some (.ok target) => if target = t then 1 else 0
    | _ => 0 := by
  unfold returned
  rw [answers_snoc, countP_append, countP_singleton]
  change _ + (if _ then 1 else 0) = _
  rw [show balancer.after newLeastConnBalancer calls = balancerAfter calls from rfl]
  congr 1
  split <;> simp

theorem returned_le_length (calls : List BalancerCall) (t : Text) : returned calls t ≤ calls.length := by
  unfold returned
  refine countP_le_length.trans ?_
  rw [length_answers]

theorem ended_snoc : ended (calls ++ [call]) t = ended calls t + if call = .done t then 1 else 0 := by
  simp [ended, count_append, count_singleton]

theorem known_after_iff : (balancerAfter calls).Known t ↔ ∃ call ∈ calls, t ∈ call.targets := by
  induction calls using reverseRecOn with
  | nil => simp [balancerAfter, newLeastConnBalancer, Directory.Known, Directory.empty]
  | append_singleton calls call ih =>
    rw [balancerAfter_snoc, known_step_iff, ih]
    simp [or_and_right, exists_or]
theorem known_of_returned (h : 0 < returned calls t) : (balancerAfter calls).Known t := by
  induction calls using reverseRecOn with
  | nil => exact absurd h (lt_irrefl 0)
  | append_singleton calls call ih =>
    rw [balancerAfter_snoc, known_step_iff]
    rw [returned_snoc] at h
    by_cases hbefore : 0 < returned calls t
    · exact .inl (ih hbefore)
    · cases call with
      | next targets =>
        cases hanswer : (LeastConnBalancer.next (balancerAfter calls) targets).2 with
        | error _ => simp [balancer, hanswer, hbefore] at h
        | ok selected =>
          by_cases heq : selected = t
          · exact .inr (next_mem (heq ▸ hanswer))
          · simp [balancer, hanswer, heq, hbefore] at h
      | _ => exact absurd h hbefore

theorem ended_le_returned (h : Proper calls) : ended calls t ≤ returned calls t := by
  induction calls using reverseRecOn with
  | nil => exact le_refl 0
  | append_singleton calls call ih =>
    have hbefore := ih h.of_snoc
    rw [returned_snoc, ended_snoc]
    split_ifs with hdone
    · rw [hdone] at h ⊢
      exact h.last
    · exact hbefore.trans (Nat.le_add_right _ _)

/-- A counter is the number of its requests in flight, modulo 2^64. -/
theorem activeConns_eq (h : Proper calls) :
    (balancerAfter calls).activeConns t = .ofInt ((returned calls t : Int) - ended calls t) := by
  induction calls using reverseRecOn generalizing t with
  | nil => rfl
  | append_singleton calls call ih =>
    have hcount := ih (t := t) h.of_snoc
    rw [balancerAfter_snoc, returned_snoc, ended_snoc]
    cases call with
    | register targets => exact activeConns_register.trans hcount
    | next targets =>
      change (LeastConnBalancer.next _ targets).1.activeConns t = _
      by_cases hnil : targets = []
      · subst hnil
        exact hcount
      · obtain ⟨selected, -, hanswer, -, hafter⟩ := next_spec (b := balancerAfter calls) hnil
        simp only [balancer, hanswer, hafter t, hcount, eq_comm (a := t), reduceCtorEq, if_false, add_zero]
        split_ifs
        · rw [Nat.cast_add_one, add_sub_right_comm, Int64.ofInt_add]
          rfl
        · rw [Int64.add_zero, add_zero]
    | done target =>
      change LeastConnBalancer.activeConns (Directory.modify _ target _) t = _
      by_cases heq : t = target
      · subst heq
        rw [activeConns_modify_self (known_of_returned (Nat.zero_lt_of_lt h.last)), hcount]
        simp only [balancer, if_true, add_zero]
        rw [Nat.cast_add_one, ← sub_sub]
        exact (Int64.ofInt_sub _ 1).symm
      · have hne : BalancerCall.done target ≠ .done t := fun hdone => heq (BalancerCall.done.inj hdone).symm
        rw [activeConns_modify_of_ne heq, hcount, if_neg hne]
        rfl

theorem toInt_activeConns (h : Proper calls) (hless : returned calls t < ended calls t + 2 ^ 63) :
    ((balancerAfter calls).activeConns t).toInt = (returned calls t : Int) - ended calls t := by
  have hle := ended_le_returned (t := t) h
  rw [activeConns_eq h]
  exact SignedWord.toInt_ofInt_of_mem (by omega) (by omega)
end

/-- After every run with proper calls of `Done`, the known targets are those that were passed in, each with a
counter of its own for ever. The counter of a target is right exactly if fewer than 2^63 of its requests are in
flight, and `Next` returns the first target with the fewest requests in flight if that holds for its list. -/
theorem leastConn_bookkeeping (calls : List BalancerCall) (h : Proper calls) :
    let b := balancerAfter calls
    (∀ t, (∃ call ∈ calls, t ∈ call.targets) ↔ ∃ i < b.cells.length, b.index t = some i) ∧
      (∀ t u i, b.index t = some i → b.index u = some i → t = u) ∧
      (∀ t i later, b.index t = some i → (balancerAfter (calls ++ later)).index t = some i) ∧
      (∀ t, (b.activeConns t).toInt = (returned calls t : Int) - ended calls t ↔
        returned calls t < ended calls t + 2 ^ 63) ∧
      ∀ targets, if targets = [] then
          (balancer b (.next targets)).2 = some (.error "no targets available for load balancing".toList)
        else (∀ t ∈ targets, returned calls t < ended calls t + 2 ^ 63) →
          ∃ t, (balancer b (.next targets)).2 = some (.ok t) ∧
            FirstMinimal (fun u => (returned calls u : Int) - ended calls u) targets t := by
  intro b
  refine ⟨fun t => ?_, b.separate, fun t i later hindex => ?_, fun t => ⟨fun hcount => ?_, toInt_activeConns h⟩,
    fun targets => ?_⟩
  · rw [← known_after_iff]
    constructor
    · intro hknown
      obtain ⟨i, hi⟩ := Option.isSome_iff_exists.1 hknown
      exact ⟨i, b.inRange t i hi, hi⟩
    · rintro ⟨i, -, hi⟩
      exact Option.isSome_iff_exists.2 ⟨i, hi⟩
  · have hafter : balancerAfter (calls ++ later) = balancer.after b later := after_append _ _ _ _
    have hkeep : ∀ (b : LeastConnBalancer) (call : BalancerCall), b.index t = some i →
        (balancer b call).1.index t = some i := fun _ _ => index_step
    rw [hafter]
    exact invariant_after hkeep hindex later
  · have hrange := (b.activeConns t).toInt_lt
    omega
  · split_ifs with hnil
    · rw [hnil]
      rfl
    · intro hless
      have hcount : ∀ u ∈ targets, (b.activeConns u).toInt = (returned calls u : Int) - ended calls u :=
        fun u hu => toInt_activeConns h (hless u hu)
      obtain ⟨t, -, hanswer, hfirst, -⟩ := next_spec (b := b) hnil
      refine ⟨t, congrArg some hanswer, (hfirst fun u hu => ?_).congr hcount⟩
      rw [hcount u hu]
      exact sub_nonneg.2 (Int.ofNat_le.2 (ended_le_returned h))

theorem leastConn_bookkeeping_turns :
    let a := "a".toList
    let b := "b".toList
    let calls := [BalancerCall.next [a, b], .next [a, b], .done a]
    Proper calls ∧ ((balancerAfter calls).activeConns b).toInt = 1 ∧
      ∃ t, (balancer (balancerAfter calls) (.next [b, a])).2 = some (.ok t) ∧
        FirstMinimal (fun u => (returned calls u : Int) - ended calls u) [b, a] t := by
  intro a b calls
  have hproper : Proper calls := by
    intro earlier t later heq
    change [BalancerCall.next [a, b], .next [a, b], .done a] = _ at heq
    rcases earlier with _ | ⟨first, _ | ⟨second, _ | ⟨third, rest⟩⟩⟩
    · cases heq
    · cases heq
    · cases heq
      decide
    · cases rest <;> cases heq
  obtain ⟨-, -, -, hcount, hnext⟩ := leastConn_bookkeeping calls hproper
  refine ⟨hproper, ?_, ?_⟩
  · rw [(hcount b).2 (by decide)]
    decide
  · have hfirst := hnext [b, a]
    rw [if_neg (cons_ne_nil b [a])] at hfirst
    exact hfirst (by decide)

theorem returned_replicate (n : Nat) : returned (replicate n (.next [[]])) [] = n := by
  induction n with
  | zero => rfl
  | succ n ih =>
    obtain ⟨t, ht, hanswer, -, -⟩ :=
      next_spec (b := balancerAfter (replicate n (.next [[]]))) (cons_ne_nil [] [])
    rw [replicate_succ', returned_snoc, ih, balancer]
    simp [hanswer, mem_singleton.1 ht]

theorem activeConns_replicate (n : Nat) : let calls := replicate n (BalancerCall.next [[]])
    Proper calls ∧ (balancerAfter calls).activeConns [] = .ofInt n := by
  intro calls
  have hdone : ∀ t, .done t ∉ calls := fun t hmem => by cases eq_of_mem_replicate hmem
  have hproper : Proper calls := fun earlier t later heq =>
    absurd (heq ▸ mem_append_right earlier mem_cons_self) (hdone t)
  refine ⟨hproper, ?_⟩
  rw [activeConns_eq hproper, returned_replicate, ended, count_eq_zero.2 (hdone _), Nat.cast_zero, sub_zero]

/-- After 2^63 calls of `Next` without a `Done` the count is negative. -/
theorem counts_wrap_around : Proper (replicate (2 ^ 63) (.next [[]])) ∧
    returned (replicate (2 ^ 63) (.next [[]])) [] = 2 ^ 63 ∧
    ((balancerAfter (replicate (2 ^ 63) (.next [[]]))).activeConns []).toInt = -2 ^ 63 := by
  obtain ⟨hproper, hactive⟩ := activeConns_replicate (2 ^ 63)
  refine ⟨hproper, returned_replicate _, ?_⟩
  rw [hactive, Int64.toInt_ofInt]
  decide

end HelixRpc.Runtime.Go.LeastConn
