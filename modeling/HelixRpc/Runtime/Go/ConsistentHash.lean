import HelixRpc.Foundation.Machine
import HelixRpc.Runtime.HashRing

/-!
# Consistent hashing of the Go client

Model of `ConsistentHashBalancer` (`runtimes/go/consistent_hash.go`).
-/

namespace HelixRpc.Runtime.Go.ConsistentHash

open Foundation Runtime.Rings List
variable {K : Type} [LinearOrder K]

def replicasOf (replicas : Int) : Nat := if replicas ≤ 0 then 50 else replicas.toNat

theorem replicasOf_pos (replicas : Int) : 0 < replicasOf replicas := by
  unfold replicasOf
  split_ifs with h <;> omega

section
variable (hash : Text → K) (replicas : Nat) (b : HashRing K)

def add (nodes : List Text) : HashRing K := sortRing (nodes.foldl (addNode hash replicas) b)

def remove (node : Text) : HashRing K := removeNode none b node

def registerStep (s : HashRing K × Bool) (target : Text) : HashRing K × Bool :=
  if s.1.registered target then s else (addNode hash replicas s.1 target, true)

def registerTargets (targets : List Text) : HashRing K :=
  let s := targets.foldl (registerStep hash replicas) (b, false)
  if s.2 then sortRing s.1 else s.1

def lookup (first : Text) (targets : List Text) (key : Text) : Text :=
  let start := startIndex b.ring (hash key)
  match scan b.ring (fun x => decide ((b.hashMap x).getD [] ∈ targets)) start b.ring.length start with
  | some x => (b.hashMap x).getD []
  | none => first

def nextWithKey (targets : List Text) (key : Text) : HashRing K × Except Text Text :=
  match targets with
  | [] => (b, .error "no targets available for load balancing".toList)
  | first :: _ =>
    let b := registerTargets hash replicas b targets
    if b.ring.length = 0 then (b, .ok first) else (b, .ok (lookup hash b first targets key))

def next (targets : List Text) : HashRing K × Except Text Text :=
  nextWithKey hash replicas b targets "default-key".toList
end

inductive RingCall where
  | add (nodes : List Text)
  | remove (node : Text)
  | nextWithKey (targets : List Text) (key : Text)
  | next (targets : List Text)

def RingCall.nodes : RingCall → List Text
  | .add nodes => nodes
  | .remove _ => []
  | .nextWithKey targets _ => targets
  | .next targets => targets

def balancer (hash : Text → K) (replicas : Nat) :
    Machine (HashRing K) RingCall (Option (Except Text Text)) := fun b call =>
  match call with
  | .add nodes => (add hash replicas b nodes, none)
  | .remove node => (remove b node, none)
  | .nextWithKey targets key =>
    ((nextWithKey hash replicas b targets key).1, some (nextWithKey hash replicas b targets key).2)
  | .next targets => ((next hash replicas b targets).1, some (next hash replicas b targets).2)

structure Ready (hash : Text → K) (replicas : Nat) (N : Set Text) (b : HashRing K) : Prop where
  consistent : Consistent hash replicas N b
  sorted : b.ring.Pairwise (· ≤ ·)

section
variable {hash : Text → K} {replicas : Nat} {N : Set Text} {b : HashRing K} {targets : List Text} {key : Text}

theorem consistent_foldl (hsep : Separated hash replicas N) (hb : Consistent hash replicas N b) {nodes : List Text}
    (hnodes : ∀ n ∈ nodes, n ∈ N) : Consistent hash replicas N (nodes.foldl (addNode hash replicas) b) := by
  induction nodes generalizing b with
  | nil => exact hb
  | cons n nodes ih =>
    exact ih (hb.addNode hsep (hnodes n mem_cons_self)) fun m hm =>
      hnodes m (mem_cons_of_mem _ hm)

theorem registered_foldl {nodes : List Text} {n : Text} :
    (nodes.foldl (addNode hash replicas) b).registered n = true ↔ b.registered n = true ∨ n ∈ nodes := by
  induction nodes generalizing b with
  | nil => simp
  | cons m nodes ih =>
    rw [foldl_cons, ih, registered_addNode, Function.update_apply, mem_cons, ← or_assoc]
    refine or_congr_left ?_
    split_ifs with heq <;> simp [heq]

theorem foldl_registerStep (hash : Text → K) (replicas : Nat) (targets : List Text) (s : HashRing K × Bool) :
    (targets.foldl (registerStep hash replicas) s).1 = targets.foldl (addNode hash replicas) s.1 ∧
      ((targets.foldl (registerStep hash replicas) s).2 = false →
        s.2 = false ∧ targets.foldl (addNode hash replicas) s.1 = s.1) := by
  induction targets generalizing s with
  | nil => exact ⟨rfl, fun h => ⟨h, rfl⟩⟩
  | cons t targets ih =>
    rw [foldl_cons, foldl_cons]
    unfold registerStep
    split_ifs with hregistered
    · rw [addNode_of_registered hregistered]
      exact ih s
    · refine ⟨(ih (_, true)).1, fun h => ?_⟩
      cases ((ih (_, true)).2 h).1

theorem Ready.registerTargets (hsep : Separated hash replicas N) (hb : Ready hash replicas N b)
    (htargets : ∀ t ∈ targets, t ∈ N) : Ready hash replicas N (registerTargets hash replicas b targets) ∧ ∀ t ∈ targets,
    (registerTargets hash replicas b targets).registered t = true := by
  obtain ⟨hfold, hsame⟩ := foldl_registerStep hash replicas targets (b, false)
  have hregistered : ∀ t ∈ targets, (targets.foldl (addNode hash replicas) b).registered t = true :=
    fun t ht => registered_foldl.2 (.inr ht)
  have hconsistent := consistent_foldl hsep hb.consistent htargets
  unfold ConsistentHash.registerTargets
  simp only [hfold]
  split_ifs with hsort
  · exact ⟨⟨hconsistent.sortRing, sorted_sortRing⟩, hregistered⟩
  · have heq := (hsame (Bool.of_not_eq_true hsort)).2
    refine ⟨⟨hconsistent, ?_⟩, hregistered⟩
    rw [heq]
    exact hb.sorted

def listed (hash : Text → K) (replicas : Nat) (targets : List Text) : Set K :=
  {x | ∃ t ∈ targets, ∃ i < replicas, hash (virtualNode t i) = x}

def Owner (hash : Text → K) (replicas : Nat) (targets : List Text) (key t : Text) : Prop :=
  t ∈ targets ∧ ∃ i < replicas, Clockwise (hash key) (listed hash replicas targets) (hash (virtualNode t i))

theorem Ready.lookup (hb : Ready hash replicas N b) (hreplicas : 0 < replicas)
    (hregistered : ∀ t ∈ targets, b.registered t = true) (hne : targets ≠ []) (first key : Text) :
    Owner hash replicas targets key (lookup hash b first targets key) := by
  -- the places that the scan stops at are the virtual nodes of the list
  have hplace : ∀ x, (x ∈ b.ring ∧ (b.hashMap x).getD [] ∈ targets) ↔ x ∈ listed hash replicas targets := by
    intro x
    constructor
    · rintro ⟨hx, hmem⟩
      obtain ⟨n, hn⟩ := Option.isSome_iff_exists.1 ((hb.consistent.listed x).1 hx)
      rw [hn] at hmem
      obtain ⟨-, i, hi, heq⟩ := (hb.consistent.entry x n).1 hn
      exact ⟨n, hmem, i, hi, heq⟩
    · rintro ⟨t, ht, i, hi, heq⟩
      have hentry := (hb.consistent.entry x t).2 ⟨hregistered t ht, i, hi, heq⟩
      refine ⟨(hb.consistent.listed x).2 (by rw [hentry]; rfl), ?_⟩
      rw [hentry]
      exact ht
  obtain ⟨t, ht⟩ := exists_mem_of_ne_nil _ hne
  obtain ⟨hx, hp⟩ := (hplace _).2 ⟨t, ht, 0, hreplicas, rfl⟩
  obtain ⟨x, hscan, hclockwise⟩ := clockwise_of_scan hb.sorted (hash key)
    (p := fun x => decide ((b.hashMap x).getD [] ∈ targets)) ⟨_, hx, decide_eq_true hp⟩
  have hset : {y | y ∈ b.ring ∧ decide ((b.hashMap y).getD [] ∈ targets) = true} = listed hash replicas targets := by
    ext y
    simpa only [Set.mem_ofPred_eq, decide_eq_true_eq] using hplace y
  rw [hset] at hclockwise
  unfold ConsistentHash.lookup
  simp only [hscan]
  obtain ⟨hring, hmem⟩ := (hplace x).2 hclockwise.1
  obtain ⟨n, hn⟩ := Option.isSome_iff_exists.1 ((hb.consistent.listed x).1 hring)
  obtain ⟨-, i, hi, heq⟩ := (hb.consistent.entry x n).1 hn
  rw [hn] at hmem ⊢
  exact ⟨hmem, i, hi, heq ▸ hclockwise⟩

theorem Ready.nextWithKey (hsep : Separated hash replicas N) (hb : Ready hash replicas N b) (hreplicas : 0 < replicas)
    (htargets : ∀ t ∈ targets, t ∈ N) : Ready hash replicas N (nextWithKey hash replicas b targets key).1 ∧
    (targets ≠ [] → ∃ t, (nextWithKey hash replicas b targets key).2 = .ok t ∧ Owner hash replicas targets key t) := by
  cases targets with
  | nil => exact ⟨hb, fun hne => absurd rfl hne⟩
  | cons first targets =>
    obtain ⟨hready, hregistered⟩ := hb.registerTargets hsep htargets
    have howner := hready.lookup hreplicas hregistered (cons_ne_nil _ _) first key
    have hring : (ConsistentHash.registerTargets hash replicas b (first :: targets)).ring.length ≠ 0 := by
      have hentry := (hready.consistent.entry _ first).2 ⟨hregistered first mem_cons_self, 0, hreplicas, rfl⟩
      have hmem := (hready.consistent.listed (hash (virtualNode first 0))).2 (by rw [hentry]; rfl)
      exact (length_pos_of_mem hmem).ne'
    unfold ConsistentHash.nextWithKey
    simp only [if_neg hring]
    exact ⟨hready, fun _ => ⟨_, rfl, howner⟩⟩

theorem Ready.step (hsep : Separated hash replicas N) (hb : Ready hash replicas N b) (hreplicas : 0 < replicas)
    {call : RingCall} (hcall : ∀ n ∈ call.nodes, n ∈ N) : Ready hash replicas N (balancer hash replicas b call).1 := by
  cases call with
  | add nodes => exact ⟨(consistent_foldl hsep hb.consistent hcall).sortRing, sorted_sortRing⟩
  | remove node =>
    refine ⟨hb.consistent.removeNode none node, ?_⟩
    change (removeNode none b node).ring.Pairwise (· ≤ ·)
    unfold removeNode
    split_ifs
    · exact hb.sorted.sublist (removeLoop_sublist _ _)
    · exact hb.sorted
  | nextWithKey targets key => exact (hb.nextWithKey hsep hreplicas hcall).1
  | next targets => exact (hb.nextWithKey hsep hreplicas hcall).1
end

section
def InjectiveInUse (hash : Text → K) (replicas : Nat) (calls : List RingCall) : Prop :=
  Set.InjOn hash {name | ∃ call ∈ calls, ∃ n ∈ call.nodes, ∃ i < replicas, virtualNode n i = name}

def ringAfter (hash : Text → K) (replicas : Nat) (calls : List RingCall) : HashRing K :=
  (balancer hash replicas).after .empty calls

def choice (hash : Text → K) (replicas : Nat) (calls : List RingCall) (targets : List Text) (key : Text) :
    Except Text Text :=
  (nextWithKey hash replicas (ringAfter hash replicas calls) targets key).2

variable {hash : Text → K} {replicas : Nat} {calls : List RingCall} {targets : List Text} {key t u : Text}

omit [LinearOrder K] in
theorem InjectiveInUse.separated (h : InjectiveInUse hash replicas calls) :
    Separated hash replicas {n | ∃ call ∈ calls, n ∈ call.nodes} := by
  rintro n ⟨call, hcall, hn⟩ m ⟨call', hcall', hm⟩ i hi j hj heq
  exact .inl (virtualNode_inj (h ⟨call, hcall, n, hn, i, hi, rfl⟩ ⟨call', hcall', m, hm, j, hj, rfl⟩ heq))

theorem ready_after (calls : List RingCall) (hreplicas : 0 < replicas) {N : Set Text} (hsep : Separated hash replicas N)
    (hcalls : ∀ call ∈ calls, ∀ n ∈ call.nodes, n ∈ N) : Ready hash replicas N (ringAfter hash replicas calls) := by
  have hsteps : (balancer hash replicas).AllSteps (fun _ call => ∀ n ∈ call.nodes, n ∈ N) .empty calls :=
    Machine.allSteps_of_forall_mem fun call hcall _ => hcalls call hcall
  refine hsteps.invariant (fun _ _ hb hcall => hb.step hsep hreplicas hcall) ?_
  exact ⟨consistent_empty, Pairwise.nil⟩

theorem exists_owner (hreplicas : 0 < replicas) (hne : targets ≠ [])
    (hinj : InjectiveInUse hash replicas (calls ++ [.nextWithKey targets key])) :
    ∃ t, choice hash replicas calls targets key = .ok t ∧ Owner hash replicas targets key t := by
  have hready := ready_after calls hreplicas hinj.separated fun call hcall n hn =>
    ⟨call, mem_append_left _ hcall, hn⟩
  exact (hready.nextWithKey hinj.separated hreplicas fun t ht =>
    ⟨_, mem_append_right _ mem_cons_self, ht⟩).2 hne

theorem Owner.unique (hinj : InjectiveInUse hash replicas (calls ++ [.nextWithKey targets key]))
    (ht : Owner hash replicas targets key t) (hu : Owner hash replicas targets key u) : t = u := by
  obtain ⟨htmem, i, hi, hclock⟩ := ht
  obtain ⟨humem, j, hj, hclock'⟩ := hu
  have hcall : RingCall.nextWithKey targets key ∈ calls ++ [.nextWithKey targets key] :=
    mem_append_right _ mem_cons_self
  have hname := hinj ⟨_, hcall, t, htmem, i, hi, rfl⟩ ⟨_, hcall, u, humem, j, hj, rfl⟩
    (hclock.unique hclock')
  exact (virtualNode_inj hname).1

theorem Owner.subset {fewer : List Text} (h : Owner hash replicas targets key t)
    (hsub : ∀ u ∈ fewer, u ∈ targets) (ht : t ∈ fewer) : Owner hash replicas fewer key t := by
  obtain ⟨-, i, hi, hclock⟩ := h
  refine ⟨ht, i, hi, hclock.subset ?_ ⟨t, ht, i, hi, rfl⟩⟩
  rintro x ⟨u, hu, hvirtual⟩
  exact ⟨u, hsub u hu, hvirtual⟩
end

/-- `NextWithKey` returns the target of the list that the first virtual node from the hash of the key
on belongs to, among the virtual nodes of the list. -/
theorem nextWithKey_clockwise (hash : Text → K) (replicas : Int) (calls : List RingCall)
    (targets : List Text) (key : Text) (hne : targets ≠ [])
    (hinj : InjectiveInUse hash (replicasOf replicas) (calls ++ [.nextWithKey targets key])) :
    ∃ t, choice hash (replicasOf replicas) calls targets key = .ok t ∧ t ∈ targets ∧
      Owner hash (replicasOf replicas) targets key t ∧ (∀ calls' targets', (∀ u, u ∈ targets' ↔ u ∈ targets) →
        InjectiveInUse hash (replicasOf replicas) (calls' ++ [.nextWithKey targets' key]) →
        choice hash (replicasOf replicas) calls' targets' key = .ok t) ∧
      ∀ calls' removed, removed ≠ t → InjectiveInUse hash (replicasOf replicas)
          (calls' ++ [.nextWithKey (targets.filter (· ≠ removed)) key]) →
        choice hash (replicasOf replicas) calls' (targets.filter (· ≠ removed)) key = .ok t := by
  have hreplicas := replicasOf_pos replicas
  obtain ⟨t, hchoice, howner⟩ := exists_owner hreplicas hne hinj
  -- any list with some of the targets, among them the owner
  have hfewer : ∀ calls' fewer, (∀ u ∈ fewer, u ∈ targets) → t ∈ fewer → InjectiveInUse hash (replicasOf replicas)
    (calls' ++ [.nextWithKey fewer key]) → choice hash (replicasOf replicas) calls' fewer key = .ok t := by
    intro calls' fewer hsub ht hinj'
    obtain ⟨u, hchoice', howner'⟩ := exists_owner hreplicas (ne_nil_of_mem ht) hinj'
    rw [hchoice', howner'.unique hinj' (howner.subset hsub ht)]
  refine ⟨t, hchoice, howner.1, howner, fun calls' targets' hsame => ?_, fun calls' removed hremoved => ?_⟩
  · exact hfewer calls' targets' (fun u hu => (hsame u).1 hu) ((hsame t).2 howner.1)
  · refine hfewer calls' _ (fun u hu => mem_of_mem_filter hu) ?_
    exact mem_filter.2 ⟨howner.1, decide_eq_true (Ne.symm hremoved)⟩

theorem nextWithKey_clockwise_letters : let hash : Text → Nat := fun name => (name.headD 'z').toNat
    let a := "a".toList
    let b := "b".toList
    InjectiveInUse hash (replicasOf 1) [.nextWithKey [a, b] b] ∧
      choice hash (replicasOf 1) [] [a, b] b = .ok b ∧ Owner hash (replicasOf 1) [a, b] b b := by
  intro hash a b
  have hinj : InjectiveInUse hash (replicasOf 1) [.nextWithKey [a, b] b] := by
    rintro x ⟨call, hcall, n, hn, i, hi, rfl⟩ y ⟨call', hcall', m, hm, j, hj, rfl⟩ heq
    cases mem_singleton.1 hcall
    cases mem_singleton.1 hcall'
    have hi0 : i = 0 := Nat.lt_one_iff.1 hi
    have hj0 : j = 0 := Nat.lt_one_iff.1 hj
    subst hi0 hj0
    simp only [RingCall.nodes, mem_cons, not_mem_nil, or_false] at hn hm
    rcases hn with rfl | rfl <;> rcases hm with rfl | rfl
    · rfl
    · exact absurd heq (by decide)
    · exact absurd heq (by decide)
    · rfl
  obtain ⟨t, hchoice, -, howner, -⟩ := nextWithKey_clockwise hash 1 [] [a, b] b (by decide) hinj
  have hb : choice hash (replicasOf 1) [] [a, b] b = .ok b := by decide
  rw [hb] at hchoice
  cases hchoice
  exact ⟨hinj, hb, howner⟩

end HelixRpc.Runtime.Go.ConsistentHash
