import HelixRpc.Runtime.Go.LeastConnections

/-!
# The least-connections balancer of Rust

Model of `LeastConnBalancer` (`runtimes/rust/src/batching.rs`).
-/

namespace HelixRpc.Runtime.Rust

open Foundation Runtime.Go Runtime.Go.LeastConn List Function Machine

abbrev LeastConnBalancer := Text → Option Int64

namespace LeastConnBalancer

def new : LeastConnBalancer := fun _ => none

variable (endpoints : LeastConnBalancer) (targets : List Text)

def orInsert (t : Text) : LeastConnBalancer :=
  if (endpoints t).isSome then endpoints else update endpoints t (some 0)

def register : LeastConnBalancer := targets.foldl orInsert endpoints

def active (t : Text) : Int64 := (endpoints t).getD 0

def selectStep (active : Text → Int64) (best : Text × Int64) (t : Text) : Text × Int64 :=
  if active t < best.2 then (t, active t) else best

def fetchAdd (t : Text) (n : Int64) : LeastConnBalancer :=
  match endpoints t with
  | some active => update endpoints t (some (active + n))
  | none => endpoints

def next : LeastConnBalancer × Except Text Text :=
  match targets with
  | [] => (endpoints, .error "no targets available".toList)
  | first :: _ =>
    let selected := (targets.foldl (selectStep endpoints.active) (first, .maxValue)).1
    (endpoints.fetchAdd selected 1, .ok selected)

def done (target : Text) : LeastConnBalancer := endpoints.fetchAdd target (-1)

end LeastConnBalancer

def balancer : Machine LeastConnBalancer BalancerCall (Option (Except Text Text)) := fun endpoints call =>
  match call with
  | .register targets => (endpoints.register targets, none)
  | .next targets => ((endpoints.next targets).1, some (endpoints.next targets).2)
  | .done target => (endpoints.done target, none)

section
variable {endpoints : LeastConnBalancer} {targets : List Text} {t u : Text}

theorem active_orInsert : (endpoints.orInsert t).active u = endpoints.active u := by
  unfold LeastConnBalancer.orInsert
  split_ifs with hsome
  · rfl
  · unfold LeastConnBalancer.active
    rw [update_apply]
    split_ifs with heq
    · rw [heq, Option.not_isSome_iff_eq_none.1 hsome]
      rfl
    · rfl

theorem active_register (endpoints : LeastConnBalancer) (targets : List Text) (u : Text) :
    (endpoints.register targets).active u = endpoints.active u := by
  induction targets generalizing endpoints with
  | nil => rfl
  | cons t targets ih => exact (ih (endpoints.orInsert t)).trans active_orInsert

theorem isSome_orInsert_iff : (endpoints.orInsert t u).isSome ↔ (endpoints u).isSome ∨ u = t := by
  unfold LeastConnBalancer.orInsert
  split_ifs with hsome
  · refine ⟨.inl, ?_⟩
    rintro (h | rfl)
    · exact h
    · exact hsome
  · rw [update_apply]
    split_ifs with heq <;> simp [heq]

theorem isSome_register_iff (endpoints : LeastConnBalancer) (targets : List Text) (u : Text) :
    (endpoints.register targets u).isSome ↔ (endpoints u).isSome ∨ u ∈ targets := by
  induction targets generalizing endpoints with
  | nil => simp [LeastConnBalancer.register]
  | cons t targets ih =>
    refine (ih (endpoints.orInsert t)).trans ?_
    rw [isSome_orInsert_iff, or_assoc, mem_cons]

theorem isSome_fetchAdd {n : Int64} : (endpoints.fetchAdd t n u).isSome = (endpoints u).isSome := by
  unfold LeastConnBalancer.fetchAdd
  cases hactive : endpoints t with
  | none => rfl
  | some active =>
    simp only [update_apply]
    split_ifs with heq
    · rw [heq, hactive]
      rfl
    · rfl

theorem active_fetchAdd {n : Int64} (h : (endpoints t).isSome) :
    (endpoints.fetchAdd t n).active u = endpoints.active u + if u = t then n else 0 := by
  obtain ⟨active, hactive⟩ := Option.isSome_iff_exists.1 h
  unfold LeastConnBalancer.fetchAdd LeastConnBalancer.active
  simp only [hactive, update_apply]
  split_ifs with heq
  · rw [heq, hactive]
    rfl
  · exact (Int64.add_zero _).symm

theorem isSome_of_active (h : endpoints.active t ≠ 0) : (endpoints t).isSome := by
  by_contra hnone
  rw [LeastConnBalancer.active, Option.not_isSome_iff_eq_none.1 hnone] at h
  exact h rfl

theorem firstMinimal_next {active : Text → Int64} {first : Text} {targets : List Text}
    (hnonneg : ∀ u ∈ first :: targets, 0 ≤ (active u).toInt) (hmax : active first < .maxValue) :
    FirstMinimal (fun u => (active u).toInt) (first :: targets)
      ((first :: targets).foldl (LeastConnBalancer.selectStep active) (first, .maxValue)).1 := by
  -- behind the first target the smallest count is not negative, so the loops do the same
  have hsame : ∀ (later : List Text) (t : Text), (∀ u ∈ t :: later, 0 ≤ (active u).toInt) →
      later.foldl (LeastConnBalancer.selectStep active) (t, active t) =
        later.foldl (Go.LeastConn.LeastConnBalancer.selectStep active) (t, active t) := by
    intro later
    induction later with
    | nil => exact fun _ _ => rfl
    | cons u later ih =>
      intro t ht
      have hpos : ¬ active t < 0 := by
        rw [Int64.lt_iff_toInt_lt]
        exact not_lt.2 (ht t mem_cons_self)
      rw [foldl_cons, foldl_cons, LeastConnBalancer.selectStep, Go.LeastConn.LeastConnBalancer.selectStep]
      by_cases hless : active u < active t
      · rw [if_pos hless, if_pos (.inr hless)]
        exact ih u fun v hv => ht v (mem_cons_of_mem _ hv)
      · rw [if_neg hless, if_neg (not_or.2 ⟨hpos, hless⟩)]
        refine ih t fun v hv => ?_
        rcases mem_cons.1 hv with rfl | hv
        · exact ht v mem_cons_self
        · exact ht v (mem_cons_of_mem _ (mem_cons_of_mem _ hv))
  have hfirst : LeastConnBalancer.selectStep active (first, .maxValue) first = (first, active first) := if_pos hmax
  have hsingle : FirstMinimal (fun u => (active u).toInt) [first] first :=
    ⟨[], [], rfl, fun _ hv => absurd hv not_mem_nil, fun _ hv => absurd hv not_mem_nil⟩
  rw [foldl_cons, hfirst, hsame targets first hnonneg]
  exact foldl_selectStep hsingle hnonneg
end

def RegisteredFirst (calls : List BalancerCall) : Prop :=
  ∀ earlier targets later t, calls = earlier ++ .next targets :: later →
    (Go.LeastConn.balancer (balancerAfter earlier) (.next targets)).2 = some (.ok t) →
    ∃ registered, BalancerCall.register registered ∈ earlier ∧ t ∈ registered

theorem registeredFirst_of_subset (registered : List Text) {calls : List BalancerCall} (h : ∀ call ∈ calls,
    ∀ t ∈ call.targets, t ∈ registered) : RegisteredFirst (.register registered :: calls) := by
  intro earlier targets later t heq hanswer
  cases earlier with
  | nil => cases heq
  | cons first earlier =>
    cases heq
    have ht : t ∈ targets := next_mem (Option.some.inj hanswer)
    refine ⟨registered, mem_cons_self, h (.next targets) ?_ t ht⟩
    exact mem_append_right _ mem_cons_self

def targetsOf (answers : List (Option (Except Text Text))) : List (Option Text) :=
  answers.map fun answer => answer.bind Except.toOption

structure Agree (calls : List BalancerCall) (go : Go.LeastConn.LeastConnBalancer)
    (rust : LeastConnBalancer) : Prop where
  active : ∀ t, rust.active t = go.activeConns t
  registered : ∀ targets t, BalancerCall.register targets ∈ calls → t ∈ targets → (rust t).isSome

section
variable {calls : List BalancerCall} {go : Go.LeastConn.LeastConnBalancer} {rust : LeastConnBalancer}

theorem Agree.register (h : Agree calls go rust) (targets : List Text) :
    Agree (calls ++ [.register targets]) (go.register targets) (rust.register targets) := by
  refine ⟨fun t => ?_, fun targets' t hmem ht => ?_⟩
  · rw [active_register, activeConns_register, h.active]
  · rcases mem_append.1 hmem with hmem | hmem
    · exact (isSome_register_iff _ _ _).2 (.inl (h.registered targets' t hmem ht))
    · cases mem_singleton.1 hmem
      exact (isSome_register_iff _ _ _).2 (.inr ht)

theorem Agree.done (h : Agree calls go rust) {t : Text} (hknown : go.Known t) (hne : go.activeConns t ≠ 0) :
    Agree (calls ++ [.done t]) (go.done t) (rust.done t) := by
  have hsome : (rust t).isSome := isSome_of_active (by rw [h.active]; exact hne)
  refine ⟨fun u => ?_, fun targets' u hmem hu => ?_⟩
  · rw [LeastConnBalancer.done, active_fetchAdd hsome, h.active]
    split_ifs with heq
    · rw [heq, ← Int64.sub_eq_add_neg]
      exact (activeConns_modify_self (f := (· - 1)) hknown).symm
    · rw [Int64.add_zero]
      exact (activeConns_modify_of_ne heq).symm
  · rw [LeastConnBalancer.done, isSome_fetchAdd]
    rcases mem_append.1 hmem with hmem | hmem
    · exact h.registered targets' u hmem hu
    · cases mem_singleton.1 hmem

theorem Agree.next (h : Agree calls go rust) (targets : List Text) (hnonneg : ∀ u, 0 ≤ (go.activeConns u).toInt)
    (hmax : ∀ u, go.activeConns u < .maxValue)
    (hfirst : ∀ t, (go.next targets).2 = .ok t →
      ∃ registered, BalancerCall.register registered ∈ calls ∧ t ∈ registered) :
    (go.next targets).2.toOption = (rust.next targets).2.toOption ∧
      Agree (calls ++ [.next targets]) (go.next targets).1 (rust.next targets).1 := by
  have hregistered : ∀ rust' : LeastConnBalancer, (∀ u, (rust' u).isSome = (rust u).isSome) →
      ∀ targets' u, BalancerCall.register targets' ∈ calls ++ [.next targets] → u ∈ targets' → (rust' u).isSome := by
    intro rust' hsame targets' u hmem hu
    rw [hsame]
    rcases mem_append.1 hmem with hmem | hmem
    · exact h.registered targets' u hmem hu
    · cases mem_singleton.1 hmem
  cases targets with
  | nil =>
    have hgo : go.next [] = (go, .error "no targets available for load balancing".toList) := if_pos rfl
    rw [hgo, LeastConnBalancer.next]
    simp only [Except.toOption]
    exact ⟨trivial, h.active, hregistered rust fun _ => rfl⟩
  | cons first targets =>
    obtain ⟨t, -, hanswer, hminimal, hafter⟩ := next_spec (b := go) (cons_ne_nil first targets)
    have hactive : rust.active = go.activeConns := funext h.active
    have hselect : ((first :: targets).foldl (LeastConnBalancer.selectStep rust.active) (first, .maxValue)).1 = t := by
      rw [hactive]
      exact (firstMinimal_next (fun u _ => hnonneg u) (hmax first)).unique (hminimal fun u _ => hnonneg u)
    obtain ⟨registered, hmem, ht⟩ := hfirst t hanswer
    have hsome := h.registered registered t hmem ht
    have hrust : rust.next (first :: targets) = (rust.fetchAdd t 1, .ok t) := by
      simp only [LeastConnBalancer.next, hselect]
    rw [hanswer, hrust]
    refine ⟨rfl, fun u => ?_, hregistered _ fun _ => isSome_fetchAdd⟩
    rw [active_fetchAdd hsome, h.active, hafter]

theorem agree_after (hproper : Proper calls) (hfirst : RegisteredFirst calls) (hlength : calls.length < 2 ^ 63) :
    targetsOf (Go.LeastConn.balancer.answers newLeastConnBalancer calls) = targetsOf (balancer.answers .new calls) ∧
      Agree calls (balancerAfter calls) (balancer.after .new calls) := by
  induction calls using reverseRecOn with
  | nil => exact ⟨rfl, fun _ => rfl, fun _ _ hmem => absurd hmem not_mem_nil⟩
  | append_singleton calls call ih =>
    rw [length_append, length_singleton] at hlength
    have hearlier : RegisteredFirst calls := fun earlier targets later t heq =>
      hfirst earlier targets (later ++ [call]) t (by rw [heq, append_assoc, cons_append])
    obtain ⟨hanswers, hagree⟩ := ih hproper.of_snoc hearlier (by omega)
    have hcount : ∀ u, ended calls u ≤ returned calls u ∧ returned calls u < 2 ^ 63 - 1 ∧
        ((balancerAfter calls).activeConns u).toInt = (returned calls u : Int) - ended calls u := by
      intro u
      have hreturned := returned_le_length calls u
      exact ⟨ended_le_returned hproper.of_snoc, by omega, toInt_activeConns hproper.of_snoc (by omega)⟩
    rw [answers_snoc, answers_snoc, balancerAfter_snoc, after_snoc]
    change targetsOf (_ ++ [(Go.LeastConn.balancer (balancerAfter calls) call).2]) = _ ∧ _
    simp only [targetsOf, map_append, map_cons, map_nil] at hanswers ⊢
    rw [hanswers]
    cases call with
    | register targets => exact ⟨rfl, hagree.register targets⟩
    | next targets =>
      have hnonneg : ∀ u, 0 ≤ ((balancerAfter calls).activeConns u).toInt := by
        intro u
        have hu := hcount u
        omega
      have hmax : ∀ u, (balancerAfter calls).activeConns u < .maxValue := by
        intro u
        have hu := hcount u
        rw [Int64.lt_iff_toInt_lt, Int64.toInt_maxValue]
        omega
      have hnext := hagree.next targets hnonneg hmax fun t hanswer =>
        hfirst calls targets [] t rfl (congrArg some hanswer)
      refine ⟨?_, hnext.2⟩
      simp [Go.LeastConn.balancer, balancer, hnext.1]
    | done t =>
      have hlast := hproper.last
      have hne : (balancerAfter calls).activeConns t ≠ 0 := by
        intro hzero
        have hu := (hcount t).2.2
        rw [hzero, Int64.toInt_zero] at hu
        omega
      exact ⟨rfl, hagree.done (known_of_returned (Nat.zero_lt_of_lt hlast)) hne⟩
end

/-- If every target is registered before it is first returned, the Rust balancer returns the targets
that the Go balancer returns. -/
theorem rust_returns_same (calls : List BalancerCall) (hproper : Proper calls)
    (hfirst : RegisteredFirst calls) (hlength : calls.length < 2 ^ 63) :
    targetsOf (balancer.answers .new calls) = targetsOf (Go.LeastConn.balancer.answers newLeastConnBalancer calls) :=
  (agree_after hproper hfirst hlength).1.symm

theorem rust_returns_same_registered : let a := "a".toList
    let b := "b".toList
    let calls := [BalancerCall.register [a, b], .next [a, b], .next [a, b], .done a, .next [b, a]]
    targetsOf (balancer.answers .new calls) = targetsOf (Go.LeastConn.balancer.answers newLeastConnBalancer calls) ∧
      targetsOf (balancer.answers .new calls) = [none, some a, some b, none, some a] := by
  intro a b calls
  refine ⟨rust_returns_same calls ?_ (registeredFirst_of_subset [a, b] ?_) (by decide), by decide⟩
  · intro earlier t later heq
    change [BalancerCall.register [a, b], .next [a, b], .next [a, b], .done a, .next [b, a]] = _ at heq
    rcases earlier with _ | ⟨first, _ | ⟨second, _ | ⟨third, _ | ⟨fourth, _ | ⟨fifth, rest⟩⟩⟩⟩⟩
    · cases heq
    · cases heq
    · cases heq
    · cases heq
      decide
    · cases heq
    · cases rest <;> cases heq
  · decide

theorem rust_returns_other : let a := "a".toList
    let b := "b".toList
    let calls := [BalancerCall.next [a, b], .next [a, b]]
    targetsOf (Go.LeastConn.balancer.answers newLeastConnBalancer calls) = [some a, some b] ∧
      targetsOf (balancer.answers .new calls) = [some a, some a] := by decide

end HelixRpc.Runtime.Rust
