import HelixRpc.Runtime.Go.ConsistentHash

/-!
# Collisions on the ring

The rings of the Go and the C++ balancer after calls of `Add` and `Remove`, with a hash that may have collisions.
-/

namespace HelixRpc.Runtime

open Foundation Runtime.Go Runtime.Rings List Function
variable {K : Type} [LinearOrder K]

namespace Cpp

inductive NodeCall where
  | add (node : Text)
  | remove (node : Text)

def NodeCall.nodes : NodeCall → List Text
  | .add node => [node]
  | .remove _ => []

def replicasOf (replicas : Nat) : Nat := if replicas = 0 then 50 else replicas

def add (hash : Text → K) (replicas : Nat) (b : HashRing K) (node : Text) : HashRing K :=
  if b.registered node then b else sortRing (addNode hash replicas b node)

def remove (b : HashRing K) (node : Text) : HashRing K := removeNode (some []) b node

def balancer (hash : Text → K) (replicas : Nat) : Machine (HashRing K) NodeCall Unit := fun b call =>
  match call with
  | .add node => (add hash replicas b node, ())
  | .remove node => (remove b node, ())

end Cpp

def IsNodeCall : ConsistentHash.RingCall → Prop
  | .add _ => True
  | .remove _ => True
  | _ => False

/-- Every position of the ring is owned by a registered node, and every virtual node of a registered node has
its position. -/
structure Integrity (hash : Text → K) (replicas : Nat) (b : HashRing K) : Prop where
  owned : ∀ x ∈ b.ring, ∃ n, b.hashMap x = some n ∧ b.registered n = true
  placed : ∀ n, b.registered n = true → ∀ i < replicas, hash (virtualNode n i) ∈ b.ring

section
variable {hash : Text → K} {replicas : Nat} {N : Set Text} {b : HashRing K} {n m : Text} {x : K} {i j : Nat}
  {missing : Option Text}

theorem integrity_of_consistent (h : Consistent hash replicas N b) : Integrity hash replicas b := by
  refine ⟨fun x hx => ?_, fun n hn i hi => ?_⟩
  · obtain ⟨n, hentry⟩ := Option.isSome_iff_exists.1 ((h.listed x).1 hx)
    exact ⟨n, hentry, ((h.entry x n).1 hentry).1⟩
  · have hentry := (h.entry (hash (virtualNode n i)) n).2 ⟨hn, i, hi, rfl⟩
    exact (h.listed _).2 (by rw [hentry]; rfl)

theorem two_le_count (hi : i < replicas) (hj : j < replicas) (hij : i ≠ j) (hx : hash (virtualNode n i) = x)
    (hx' : hash (virtualNode n j) = x) : 2 ≤ (virtualHashes hash replicas n).count x := by
  unfold virtualHashes
  rw [List.count, countP_map, countP_eq_length_filter]
  have hnodup : [i, j].Nodup := by simpa using hij
  refine (subperm_of_subset hnodup fun k hk => ?_).length_le
  rcases mem_cons.1 hk with rfl | hk
  · exact mem_filter.2 ⟨mem_range.2 hi, by simpa using hx⟩
  · rw [mem_singleton.1 hk]
    exact mem_filter.2 ⟨mem_range.2 hj, by simpa using hx'⟩

theorem hashMap_added (hnew : b.registered n = false) (hx : x ∈ virtualHashes hash replicas n) :
    (sortRing (addNode hash replicas b n)).hashMap x = some n := by
  change (addNode hash replicas b n).hashMap x = some n
  rw [addNode_eq hnew]
  exact if_pos hx

theorem count_added (hnew : b.registered n = false) : (sortRing (addNode hash replicas b n)).ring.count x =
      b.ring.count x + (virtualHashes hash replicas n).count x := by
  rw [perm_sortRing.count_eq, addNode_eq hnew, count_append]

theorem registered_added : (sortRing (addNode hash replicas b n)).registered = update b.registered n true :=
  registered_addNode

theorem registered_removed (hregistered : b.registered n = true) :
    (removeNode missing b n).registered = update b.registered n false := by rw [removeNode, if_pos hregistered]

theorem removeNode_key (missing : Option Text) (x : K) (hregistered : b.registered n = true) :
    ((removeNode missing b n).hashMap x, (removeNode missing b n).ring.count x) =
      removeKey missing n (b.hashMap x) (b.ring.count x) := by
  rw [removeNode, if_pos hregistered]
  exact removeLoop_key _ _ _

/-- Where a hash is twice in the list and its owner is removed, a position without a registered
owner is left. -/
theorem not_integrity_of_twice (hregistered : b.registered n = true) (hname : n ≠ [])
    (hmissing : missing.getD [] = []) (hempty : b.registered [] = false) (hentry : b.hashMap x = some n)
    (hcount : 2 ≤ b.ring.count x) : ¬ Integrity hash replicas (removeNode missing b n) := by
  intro h
  obtain ⟨k, hk⟩ := Nat.exists_eq_add_of_le hcount
  have hkey := removeNode_key missing x hregistered
  rw [hentry, hk, Nat.add_comm 2 k, removeKey_owner, removeKey_none hname hmissing, Prod.mk.injEq] at hkey
  have hmem : x ∈ (removeNode missing b n).ring := by
    rw [← count_pos_iff, hkey.2]
    exact Nat.succ_pos k
  obtain ⟨owner, howner, hstill⟩ := h.owned x hmem
  -- the entry is missing, or it has the empty name
  rw [hkey.1] at howner
  rw [howner, Option.getD_some] at hmissing
  rw [hmissing, registered_removed hregistered, update_of_ne (Ne.symm hname), hempty] at hstill
  cases hstill

theorem not_integrity_of_nil (hregistered : b.registered [] = true) (hentry : b.hashMap x = some [])
    (hcount : 0 < b.ring.count x) (hn : b.registered n = true) (hname : n ≠ []) (hi : i < replicas)
    (hx : hash (virtualNode n i) = x) : ¬ Integrity hash replicas (removeNode missing b []) := by
  intro h
  obtain ⟨k, hk⟩ := Nat.exists_eq_add_one.2 hcount
  have hkey := removeNode_key missing x hregistered
  rw [hentry, hk, removeKey_owner, removeKey_none_nil, Prod.mk.injEq] at hkey
  have hplaced := h.placed n (by rw [registered_removed hregistered, update_of_ne hname, hn]) i hi
  rw [hx, ← count_pos_iff, hkey.2] at hplaced
  exact absurd hplaced (Nat.lt_irrefl 0)

def oneNode (hash : Text → K) (replicas : Nat) (n : Text) : HashRing K := sortRing (addNode hash replicas .empty n)

def twoNodes (hash : Text → K) (replicas : Nat) (n m : Text) : HashRing K :=
  sortRing (addNode hash replicas (oneNode hash replicas n) m)

/-- If the hash does not separate the virtual nodes, a node or two nodes are enough to lose
integrity with the removal of the one that was added last. -/
theorem exists_not_integrity (missing : Option Text) (hmissing : missing.getD [] = [])
    (h : ¬ Separated hash replicas N) :
    (∃ n ∈ N, ¬ Integrity hash replicas (removeNode missing (oneNode hash replicas n) n)) ∨
      ∃ n ∈ N, ∃ m ∈ N, n ≠ m ∧ ¬ Integrity hash replicas (removeNode missing (twoNodes hash replicas n m) m) := by
  unfold Separated at h
  push Not at h
  obtain ⟨n, hn, m, hm, i, hi, j, hj, heq, hdistinct, hnames⟩ := h
  have hempty : (HashRing.empty : HashRing K).registered n = false := rfl
  by_cases hnm : n = m
  · subst hnm
    have hname : n ≠ [] := fun hnil => hnames hnil hnil
    refine .inl ⟨n, hn, not_integrity_of_twice (x := hash (virtualNode n i)) ?_ hname hmissing ?_ ?_ ?_⟩
    · rw [oneNode, registered_added, update_self]
    · rw [oneNode, registered_added, update_of_ne (Ne.symm hname)]
      rfl
    · exact hashMap_added hempty (mem_virtualHashes.2 ⟨i, hi, rfl⟩)
    · rw [oneNode, count_added hempty]
      exact (two_le_count hi hj (hdistinct rfl) rfl heq.symm).trans (Nat.le_add_left _ _)
  · right
    -- the node with the empty name, if it is one of the two, is the one that is removed
    have hcase : ∀ {n m : Text} {i j : Nat}, n ∈ N → m ∈ N → n ≠ m → n ≠ [] → i < replicas → j < replicas →
        hash (virtualNode n i) = hash (virtualNode m j) →
        ¬ Integrity hash replicas (removeNode missing (twoNodes hash replicas n m) m) := by
      intro n m i j hn hm hnm hname hi hj heq
      have hnew : (oneNode hash replicas n).registered m = false := by
        rw [oneNode, registered_added, update_of_ne (Ne.symm hnm)]
        rfl
      have hregistered : (twoNodes hash replicas n m).registered m = true := by
        rw [twoNodes, registered_added, update_self]
      have hother : (twoNodes hash replicas n m).registered n = true := by
        rw [twoNodes, registered_added, update_of_ne hnm, oneNode, registered_added, update_self]
      have hentry : (twoNodes hash replicas n m).hashMap (hash (virtualNode m j)) = some m :=
        hashMap_added hnew (mem_virtualHashes.2 ⟨j, hj, rfl⟩)
      have hfirst : 1 ≤ (oneNode hash replicas n).ring.count (hash (virtualNode m j)) := by
        rw [oneNode, count_added rfl]
        refine le_trans ?_ (Nat.le_add_left _ _)
        exact count_pos_iff.2 (mem_virtualHashes.2 ⟨i, hi, heq⟩)
      have hcount : 2 ≤ (twoNodes hash replicas n m).ring.count (hash (virtualNode m j)) := by
        rw [twoNodes, count_added hnew]
        exact Nat.add_le_add hfirst (count_pos_iff.2 (mem_virtualHashes.2 ⟨j, hj, rfl⟩))
      by_cases hnil : m = []
      · subst hnil
        exact not_integrity_of_nil hregistered hentry (by omega) hother hname hi heq
      · refine not_integrity_of_twice hregistered hnil hmissing ?_ hentry hcount
        rw [twoNodes, registered_added, update_of_ne (Ne.symm hnil), oneNode, registered_added,
          update_of_ne (Ne.symm hname)]
        rfl
    by_cases hname : n = []
    · have hname' : m ≠ [] := fun hnil => hnames hname hnil
      exact ⟨m, hm, n, hn, Ne.symm hnm, hcase hm hn (Ne.symm hnm) hname' hj hi heq.symm⟩
    · exact ⟨n, hn, m, hm, hnm, hcase hn hm hnm hname hi hj heq⟩
end

section
variable {hash : Text → K} {replicas : Nat} {N : Set Text}

theorem Cpp.consistent_step (hsep : Separated hash replicas N) {b : HashRing K}
    (hb : Consistent hash replicas N b) {call : Cpp.NodeCall} (hcall : ∀ n ∈ call.nodes, n ∈ N) :
    Consistent hash replicas N (Cpp.balancer hash replicas b call).1 := by
  cases call with
  | add node =>
    change Consistent hash replicas N (Cpp.add hash replicas b node)
    unfold Cpp.add
    split_ifs
    · exact hb
    · exact (hb.addNode hsep (hcall node mem_cons_self)).sortRing
  | remove node => exact hb.removeNode (some []) node

theorem Cpp.consistent_after (hsep : Separated hash replicas N) {calls : List Cpp.NodeCall} (hcalls : ∀ call ∈ calls,
    ∀ n ∈ call.nodes, n ∈ N) : Consistent hash replicas N ((Cpp.balancer hash replicas).after .empty calls) := by
  have hsteps : (Cpp.balancer hash replicas).AllSteps (fun _ call => ∀ n ∈ call.nodes, n ∈ N) .empty calls :=
    Machine.allSteps_of_forall_mem fun call hcall _ => hcalls call hcall
  refine hsteps.invariant (fun _ _ hb hcall => ?_) consistent_empty
  exact Cpp.consistent_step hsep hb hcall
end

/-- In all histories of `Add` and `Remove`, every position of the ring is owned by a registered node and every virtual
node of a registered node has its position, exactly if the hash separates the virtual nodes. -/
theorem integrity_iff (hash : Text → K) (goReplicas : Int) (cppReplicas : Nat) (N : Set Text) :
    ((∀ calls : List ConsistentHash.RingCall, (∀ call ∈ calls, IsNodeCall call ∧ ∀ n ∈ call.nodes, n ∈ N) →
        Integrity hash (ConsistentHash.replicasOf goReplicas)
          (ConsistentHash.ringAfter hash (ConsistentHash.replicasOf goReplicas) calls)) ↔
      Separated hash (ConsistentHash.replicasOf goReplicas) N) ∧
    ((∀ calls : List Cpp.NodeCall, (∀ call ∈ calls, ∀ n ∈ call.nodes, n ∈ N) →
        Integrity hash (Cpp.replicasOf cppReplicas)
          ((Cpp.balancer hash (Cpp.replicasOf cppReplicas)).after .empty calls)) ↔
      Separated hash (Cpp.replicasOf cppReplicas) N) := by
  have hreplicas := ConsistentHash.replicasOf_pos goReplicas
  generalize ConsistentHash.replicasOf goReplicas = replicas at hreplicas ⊢
  generalize Cpp.replicasOf cppReplicas = replicas'
  refine ⟨⟨fun h => ?_, fun hsep calls hcalls => ?_⟩, ⟨fun h => ?_, fun hsep calls hcalls => ?_⟩⟩
  · by_contra hsep
    rcases exists_not_integrity none rfl hsep with ⟨n, hn, hbad⟩ | ⟨n, hn, m, hm, hnm, hbad⟩
    · refine hbad (h [.add [n], .remove n] ?_)
      simpa [IsNodeCall, ConsistentHash.RingCall.nodes] using hn
    · refine hbad (h [.add [n], .add [m], .remove m] ?_)
      simpa [IsNodeCall, ConsistentHash.RingCall.nodes] using ⟨hn, hm⟩
  · exact integrity_of_consistent (ConsistentHash.ready_after calls hreplicas hsep fun call hcall =>
      (hcalls call hcall).2).consistent
  · by_contra hsep
    rcases exists_not_integrity (some []) rfl hsep with ⟨n, hn, hbad⟩ | ⟨n, hn, m, hm, hnm, hbad⟩
    · refine hbad (h [.add n, .remove n] ?_)
      simpa [Cpp.NodeCall.nodes] using hn
    · have hafter : (Cpp.balancer hash replicas').after .empty [.add n, .add m, .remove m] =
          removeNode (some []) (twoNodes hash replicas' n m) m := by
        have hnew : ¬ (oneNode hash replicas' n).registered m = true := by
          rw [oneNode, registered_added, update_of_ne (Ne.symm hnm)]
          exact Bool.false_ne_true
        change Cpp.remove (Cpp.add hash replicas' (oneNode hash replicas' n) m) m = _
        rw [Cpp.add, if_neg hnew]
        rfl
      refine hbad (hafter ▸ h [.add n, .add m, .remove m] ?_)
      simpa [Cpp.NodeCall.nodes] using ⟨hn, hm⟩
  · exact integrity_of_consistent (Cpp.consistent_after hsep hcalls)

theorem collision_leaves_orphan : let hash : Text → Nat := fun _ => 7
    let a := "a".toList
    let b := "b".toList
    let go := ConsistentHash.ringAfter hash (ConsistentHash.replicasOf 1) [.add [a], .add [b], .remove b]
    let cpp := (Cpp.balancer hash (Cpp.replicasOf 1)).after .empty [.add a, .add b, .remove b]
    (go.ring = [7] ∧ go.hashMap 7 = none ∧ go.registered a = true ∧ ¬ Integrity hash 1 go) ∧
      (cpp.ring = [7] ∧ cpp.hashMap 7 = some [] ∧ cpp.registered [] = false ∧ ¬ Integrity hash 1 cpp) := by
  intro hash a b go cpp
  have hgo : go.ring = [7] ∧ go.hashMap 7 = none ∧ go.registered a = true := by decide
  have hcpp : cpp.ring = [7] ∧ cpp.hashMap 7 = some [] ∧ cpp.registered [] = false := by decide
  refine ⟨⟨hgo.1, hgo.2.1, hgo.2.2, fun h => ?_⟩, ⟨hcpp.1, hcpp.2.1, hcpp.2.2, fun h => ?_⟩⟩
  · obtain ⟨n, hn, -⟩ := h.owned 7 (by rw [hgo.1]; exact mem_cons_self)
    rw [hgo.2.1] at hn
    cases hn
  · obtain ⟨n, hn, hregistered⟩ := h.owned 7 (by rw [hcpp.1]; exact mem_cons_self)
    rw [hcpp.2.1] at hn
    cases hn
    rw [hcpp.2.2] at hregistered
    cases hregistered

end HelixRpc.Runtime
