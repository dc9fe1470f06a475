import HelixRpc.Foundation.Clockwise
import HelixRpc.Foundation.Labels
import HelixRpc.Runtime.Go.Router
import Mathlib.Data.List.Count
import Mathlib.Data.List.Sort

/-!
# The ring of virtual nodes

What the balancers for consistent hashing of Go (`runtimes/go/consistent_hash.go`) and C++
(`runtimes/cpp/include/helix/balancer.h`) have in common.
-/

namespace HelixRpc.Runtime.Rings

open Foundation Runtime.Go List Function Option
variable {K : Type}

structure HashRing (K : Type) where
  ring : List K
  hashMap : K → Option Text
  registered : Text → Bool

def HashRing.empty : HashRing K := ⟨[], fun _ => none, fun _ => false⟩

def virtualNode (node : Text) (i : Nat) : Text := node ++ '#' :: Nat.toDigits 10 i

section
variable [LinearOrder K] (hash : Text → K) (replicas : Nat)

def placeVirtual (node : Text) (b : HashRing K) (i : Nat) : HashRing K :=
  let x := hash (virtualNode node i)
  { b with ring := b.ring ++ [x], hashMap := update b.hashMap x (some node) }

/-- A node is registered with its virtual nodes, unless it is already; the list is not sorted yet. -/
def addNode (b : HashRing K) (node : Text) : HashRing K :=
  if b.registered node then b
  else
    (List.range replicas).foldl (placeVirtual hash node)
      { b with registered := update b.registered node true }

def sortRing (b : HashRing K) : HashRing K := { b with ring := b.ring.insertionSort (· ≤ ·) }

/-- The loop of `Remove`, with the map that it has come to. -/
def removeLoop (missing : Option Text) (node : Text) (hashMap : K → Option Text) : List K → (K → Option Text) × List K
  | [] => (hashMap, [])
  | x :: ring =>
    if (hashMap x).getD [] = node then removeLoop missing node (update hashMap x none) ring
    else
      let rest := removeLoop missing node (update hashMap x ((hashMap x).or missing)) ring
      (rest.1, x :: rest.2)

def removeNode (missing : Option Text) (b : HashRing K) (node : Text) : HashRing K :=
  if b.registered node then
    let rest := removeLoop missing node b.hashMap b.ring
    ⟨rest.2, rest.1, update b.registered node false⟩
  else b
end

section
/-- Names of virtual nodes are different for different nodes and numbers: the last `#` is the one between
them. -/
theorem virtualNode_inj {n m : Text} {i j : Nat} (h : virtualNode n i = virtualNode m j) : n = m ∧ i = j :=
  append_toDigits_inj (by decide) h
end

section
variable {hash : Text → K} {replicas : Nat} {b : HashRing K} {node n : Text} {x : K} {i : Nat}

def virtualHashes (hash : Text → K) (replicas : Nat) (node : Text) : List K :=
  (List.range replicas).map fun i => hash (virtualNode node i)

theorem mem_virtualHashes : x ∈ virtualHashes hash replicas node ↔ ∃ i < replicas, hash (virtualNode node i) = x := by
  simp [virtualHashes]

variable [LinearOrder K]

theorem foldl_placeVirtual (is : List Nat) (b : HashRing K) : is.foldl (placeVirtual hash node) b =
      ⟨b.ring ++ is.map fun i => hash (virtualNode node i),
        fun x => if x ∈ is.map (fun i => hash (virtualNode node i)) then some node else b.hashMap x, b.registered⟩ := by
  induction is generalizing b with
  | nil => simp
  | cons i is ih =>
    rw [foldl_cons, ih]
    simp only [placeVirtual, append_assoc, map_cons, cons_append, nil_append,
      mem_cons, HashRing.mk.injEq, true_and, and_true]
    funext x
    by_cases hlater : x ∈ is.map fun i => hash (virtualNode node i)
    · rw [if_pos hlater, if_pos (.inr hlater)]
    · rw [if_neg hlater, update_apply]
      by_cases heq : x = hash (virtualNode node i)
      · rw [if_pos heq, if_pos (.inl heq)]
      · rw [if_neg heq, if_neg (not_or.2 ⟨heq, hlater⟩)]

theorem addNode_eq (h : b.registered node = false) : addNode hash replicas b node =
    ⟨b.ring ++ virtualHashes hash replicas node,
      fun x => if x ∈ virtualHashes hash replicas node then some node else b.hashMap x,
      update b.registered node true⟩ := by
  rw [addNode, if_neg (by rw [h]; decide), foldl_placeVirtual]
  rfl

theorem addNode_of_registered (h : b.registered node = true) : addNode hash replicas b node = b := if_pos h

theorem registered_addNode : (addNode hash replicas b node).registered = update b.registered node true := by
  cases h : b.registered node with
  | true =>
    rw [addNode_of_registered h]
    exact (update_eq_self_iff.2 h.symm).symm
  | false => rw [addNode_eq h]

theorem perm_sortRing : (sortRing b).ring.Perm b.ring := perm_insertionSort _ _

theorem sorted_sortRing : (sortRing b).ring.Pairwise (· ≤ ·) := pairwise_insertionSort _ _
end

def removeKey (missing : Option Text) (node : Text) : Option Text → Nat → Option Text × Nat
  | entry, 0 => (entry, 0)
  | entry, k + 1 =>
    if entry.getD [] = node then removeKey missing node none k
    else
      let rest := removeKey missing node (entry.or missing) k
      (rest.1, rest.2 + 1)

section
variable {missing : Option Text} {node owner : Text}

theorem removeKey_other (h : owner ≠ node) (k : Nat) : removeKey missing node (some owner) k = (some owner, k) := by
  induction k with
  | zero => rfl
  | succ k ih =>
    rw [removeKey, if_neg (show ¬ (some owner).getD [] = node from h), some_or, ih]

theorem removeKey_owner (k : Nat) : removeKey missing node (some node) (k + 1) = removeKey missing node none k := by
  rw [removeKey]
  exact if_pos rfl

theorem removeKey_none_nil (k : Nat) : removeKey missing [] none k = (none, 0) := by
  induction k with
  | zero => rfl
  | succ k ih =>
    rw [removeKey]
    exact (if_pos rfl).trans ih

theorem removeKey_none (hnode : node ≠ []) (hmissing : missing.getD [] = []) (k : Nat) :
    removeKey missing node none (k + 1) = (missing, k + 1) := by
  have hstay : ∀ k, removeKey missing node missing k = (missing, k) := by
    intro k
    induction k with
    | zero => rfl
    | succ k ih =>
      rw [removeKey, if_neg (by rw [hmissing]; exact hnode.symm)]
      have hor : missing.or missing = missing := by cases missing <;> rfl
      rw [hor, ih]
  rw [removeKey, if_neg (show ¬ (none : Option Text).getD [] = node from hnode.symm), none_or, hstay]
end

section
variable [LinearOrder K] {missing : Option Text} {node : Text}

theorem removeLoop_key (hashMap : K → Option Text) (ring : List K) (x : K) :
    ((removeLoop missing node hashMap ring).1 x, (removeLoop missing node hashMap ring).2.count x) =
      removeKey missing node (hashMap x) (ring.count x) := by
  induction ring generalizing hashMap with
  | nil => rfl
  | cons y ring ih =>
    rw [removeLoop]
    by_cases hxy : y = x
    · subst hxy
      rw [count_cons_self, removeKey]
      split_ifs with howner
      · rw [ih, update_self]
      · have hrest := ih (update hashMap y ((hashMap y).or missing))
        rw [update_self] at hrest
        simp [← hrest]
    · -- another hash leaves the entry
      have hother : ∀ entry, update hashMap y entry x = hashMap x := fun entry =>
        update_of_ne (Ne.symm hxy) _ _
      rw [count_cons_of_ne hxy]
      split_ifs with howner
      · rw [ih, hother]
      · have hrest := ih (update hashMap y ((hashMap y).or missing))
        rw [hother] at hrest
        simp only [← hrest, count_cons_of_ne hxy]

theorem removeLoop_sublist (hashMap : K → Option Text) (ring : List K) :
    (removeLoop missing node hashMap ring).2.Sublist ring := by
  induction ring generalizing hashMap with
  | nil => exact Sublist.slnil
  | cons x ring ih =>
    rw [removeLoop]
    split_ifs
    · exact (ih _).cons _
    · exact (ih _).cons_cons _
end

def Separated (hash : Text → K) (replicas : Nat) (N : Set Text) : Prop :=
  ∀ n ∈ N, ∀ m ∈ N, ∀ i < replicas, ∀ j < replicas, hash (virtualNode n i) = hash (virtualNode m j) →
    (n = m ∧ i = j) ∨ (n = [] ∧ m = [])

theorem Separated.node {hash : Text → K} {replicas : Nat} {N : Set Text} (h : Separated hash replicas N)
    {n m : Text} (hn : n ∈ N) (hm : m ∈ N) {i j : Nat} (hi : i < replicas) (hj : j < replicas)
    (heq : hash (virtualNode n i) = hash (virtualNode m j)) : n = m := by
  rcases h n hn m hm i hi j hj heq with h | h
  · exact h.1
  · exact h.1.trans h.2.symm

theorem nodup_virtualHashes {hash : Text → K} {replicas : Nat} {N : Set Text} {node : Text}
    (hsep : Separated hash replicas N) (hnode : node ∈ N) (hname : node ≠ []) :
    (virtualHashes hash replicas node).Nodup := by
  refine Nodup.map_on (fun i hi j hj heq => ?_) nodup_range
  rcases hsep node hnode node hnode i (mem_range.1 hi) j (mem_range.1 hj) heq with h | h
  · exact h.2
  · exact absurd h.1 hname

/-- List, map and set say the same: the entries are those of the virtual nodes of the registered nodes, and
the list has their hashes, each once unless the name of the node is empty. -/
structure Consistent [DecidableEq K] (hash : Text → K) (replicas : Nat) (N : Set Text) (b : HashRing K) : Prop where
  known : ∀ n, b.registered n = true → n ∈ N
  entry : ∀ x n, b.hashMap x = some n ↔ b.registered n = true ∧ ∃ i < replicas, hash (virtualNode n i) = x
  listed : ∀ x, x ∈ b.ring ↔ (b.hashMap x).isSome
  once : ∀ x n, b.hashMap x = some n → n ≠ [] → b.ring.count x = 1

section
variable [LinearOrder K] {hash : Text → K} {replicas : Nat} {N : Set Text} {b : HashRing K} {node : Text}

theorem consistent_empty : Consistent hash replicas N (HashRing.empty : HashRing K) := by
  refine ⟨?_, ?_, ?_, ?_⟩ <;> simp [HashRing.empty]

theorem Consistent.sortRing (h : Consistent hash replicas N b) : Consistent hash replicas N (sortRing b) where
  known := h.known
  entry := h.entry
  listed := fun x => perm_sortRing.mem_iff.trans (h.listed x)
  once := fun x n hentry hn => (perm_sortRing.count_eq x).trans (h.once x n hentry hn)

theorem Consistent.free (h : Consistent hash replicas N b) (hsep : Separated hash replicas N) (hnode : node ∈ N)
    (hnew : b.registered node = false) {x : K} (hx : x ∈ virtualHashes hash replicas node) : b.hashMap x = none := by
  obtain ⟨i, hi, rfl⟩ := mem_virtualHashes.1 hx
  by_contra hentry
  obtain ⟨m, hm⟩ := ne_none_iff_exists'.1 hentry
  obtain ⟨hregistered, j, hj, heq⟩ := (h.entry _ m).1 hm
  have hsame := hsep.node (h.known m hregistered) hnode hj hi heq
  rw [hsame, hnew] at hregistered
  cases hregistered

theorem Consistent.addNode (h : Consistent hash replicas N b) (hsep : Separated hash replicas N)
    (hnode : node ∈ N) : Consistent hash replicas N (addNode hash replicas b node) := by
  cases hnew : b.registered node with
  | true =>
    rw [addNode_of_registered hnew]
    exact h
  | false =>
    have hfree := fun x => h.free (x := x) hsep hnode hnew
    have hregistered : ∀ n, update b.registered node true n = true ↔ n = node ∨ b.registered n = true := by
      intro n
      rw [update_apply]
      split_ifs with heq <;> simp [heq]
    rw [addNode_eq hnew]
    refine ⟨fun n hn => ?_, fun x n => ?_, fun x => ?_, fun x n hentry hn => ?_⟩
    · rcases (hregistered n).1 hn with rfl | hn
      · exact hnode
      · exact h.known n hn
    · simp only [hregistered]
      by_cases hx : x ∈ virtualHashes hash replicas node
      · rw [if_pos hx]
        obtain ⟨i, hi, heq⟩ := mem_virtualHashes.1 hx
        constructor
        · rintro ⟨⟩
          exact ⟨.inl rfl, i, hi, heq⟩
        · rintro ⟨rfl | hn, j, hj, heq'⟩
          · rfl
          · exact congrArg some (hsep.node hnode (h.known n hn) hi hj (heq.trans heq'.symm))
      · rw [if_neg hx, h.entry]
        refine ⟨fun hentry => ⟨.inr hentry.1, hentry.2⟩, ?_⟩
        rintro ⟨rfl | hn, hvirtual⟩
        · exact absurd (mem_virtualHashes.2 hvirtual) hx
        · exact ⟨hn, hvirtual⟩
    · simp only [mem_append, h.listed]
      split_ifs with hx <;> simp [hx]
    · rw [count_append]
      simp only at hentry
      split_ifs at hentry with hx
      · -- the hash is new, and the node has it once
        cases hentry
        have hzero : b.ring.count x = 0 := by
          rw [count_eq_zero, h.listed, hfree x hx]
          decide
        rw [hzero, Nat.zero_add]
        exact count_eq_one_of_mem (nodup_virtualHashes hsep hnode hn) hx
      · rw [h.once x n hentry hn, count_eq_zero.2 hx]

theorem Consistent.removeNode (h : Consistent hash replicas N b) (missing : Option Text) (node : Text) :
    Consistent hash replicas N (removeNode missing b node) := by
  unfold Rings.removeNode
  split_ifs with hregistered
  swap
  · exact h
  -- the entries of the node go with all places of their hashes, and nothing else changes
  have hkey : ∀ x, (removeLoop missing node b.hashMap b.ring).1 x =
        (if b.hashMap x = some node then none else b.hashMap x) ∧
      (removeLoop missing node b.hashMap b.ring).2.count x = if b.hashMap x = some node then 0 else b.ring.count x := by
    intro x
    rw [← Prod.mk.injEq, removeLoop_key]
    cases hentry : b.hashMap x with
    | none =>
      have hzero : b.ring.count x = 0 := by
        rw [count_eq_zero, h.listed, hentry]
        decide
      rw [hzero]
      rfl
    | some owner =>
      by_cases howner : owner = node
      · subst howner
        rw [if_pos rfl, if_pos rfl]
        have hmem : x ∈ b.ring := (h.listed x).2 (by rw [hentry]; rfl)
        obtain ⟨k, hk⟩ := Nat.exists_eq_add_one.2 (count_pos_iff.2 hmem)
        rw [hk, removeKey_owner]
        by_cases hname : owner = []
        · rw [hname, removeKey_none_nil]
        · have hone := h.once x owner hentry hname
          have hk0 : k = 0 := by omega
          rw [hk0]
          rfl
      · have hne : ¬ some owner = some node := fun heq => howner (some.inj heq)
        rw [if_neg hne, if_neg hne, removeKey_other howner]
  have hupdate : ∀ n, update b.registered node false n = true ↔ n ≠ node ∧ b.registered n = true := by
    intro n
    rw [update_apply]
    split_ifs with heq <;> simp [heq]
  refine ⟨fun n hn => h.known n ((hupdate n).1 hn).2, fun x n => ?_, fun x => ?_, fun x n hentry hn => ?_⟩
  · simp only [hupdate, (hkey x).1]
    split_ifs with howner
    · refine iff_of_false (by simp) ?_
      rintro ⟨⟨hne, hn⟩, hvirtual⟩
      have hentry := (h.entry x n).2 ⟨hn, hvirtual⟩
      rw [howner] at hentry
      exact hne (some.inj hentry).symm
    · rw [h.entry]
      refine ⟨fun hentry => ⟨⟨?_, hentry.1⟩, hentry.2⟩, fun hentry => ⟨hentry.1.2, hentry.2⟩⟩
      rintro rfl
      exact howner ((h.entry x n).2 hentry)
  · simp only [← count_pos_iff (a := x), (hkey x).1, (hkey x).2]
    split_ifs with howner
    · simp
    · rw [count_pos_iff, h.listed]
  · simp only [(hkey x).1, (hkey x).2] at hentry ⊢
    split_ifs at hentry ⊢ with howner
    exact h.once x n hentry hn
end

end HelixRpc.Runtime.Rings
