import Mathlib.Data.List.Nodup
import Mathlib.Data.List.Perm.Subperm

/-!
# Parties, what they enter and what they get

A system has a list of parties, each known by its place in the list.
-/

namespace HelixRpc.Foundation.Parties

open List
universe u v w
variable {α : Type u} {β : Type v} {μ : Type w} {parties : List α}

theorem getElem?_set_some {i : Nat} {a₀ : α} (h : parties[i]? = some a₀) (a : α) (j : Nat) :
    (parties.set i a)[j]? = if i = j then some a else parties[j]? := by
  rw [getElem?_set]
  split_ifs with hij hlt
  · rfl
  · exact absurd (List.getElem?_eq_some_iff.1 h).1 hlt
  · rfl

theorem getElem?_snoc_cases {a b : α} {j : Nat} (h : (parties ++ [b])[j]? = some a) :
    parties[j]? = some a ∨ j = parties.length ∧ a = b := by
  rw [getElem?_append] at h
  split_ifs at h with hlt
  · exact .inl h
  · have hlast : j = parties.length := by
      have hbound := (List.getElem?_eq_some_iff.1 h).1
      rw [length_singleton] at hbound
      omega
    subst hlast
    rw [Nat.sub_self] at h
    cases h
    exact .inr ⟨rfl, rfl⟩

theorem filterMap_set_perm {γ : Type v} (f : α → Option γ) {i : Nat} {a₀ : α} (h : parties[i]? = some a₀) (a : α) :
    ((f a₀).toList ++ (parties.set i a).filterMap f).Perm ((f a).toList ++ parties.filterMap f) := by
  have hcons : ∀ (b : α) (l : List α), (b :: l).filterMap f = (f b).toList ++ l.filterMap f := by
    intro b l
    rw [filterMap_cons]
    cases f b <;> rfl
  induction parties generalizing i with
  | nil => cases h
  | cons first parties ih =>
    cases i with
    | zero =>
      cases h
      rw [set_cons_zero, hcons, hcons]
      exact perm_append_comm_assoc _ _ _
    | succ i =>
      rw [set_cons_succ, hcons, hcons]
      refine (perm_append_comm_assoc _ _ _).trans ?_
      exact ((ih h).append_left _).trans (perm_append_comm_assoc _ _ _)

section
variable {key : β → Nat} {Of : α → β → Prop} {In : α → Prop} {log : List β}

structure Entered (key : β → Nat) (Of : α → β → Prop) (In : α → Prop) (parties : List α) (log : List β) : Prop where
  entries : ∀ b ∈ log, ∃ a, parties[key b]? = some a ∧ Of a b ∧ In a
  parties : ∀ (i : Nat) (a : α), parties[i]? = some a → In a → i ∈ log.map key
  once : (log.map key).Nodup

theorem entered_nil : Entered key Of In ([] : List α) [] := ⟨nofun, nofun, nodup_nil⟩

namespace Entered

variable (h : Entered key Of In parties log)
include h in
theorem length_not_mem : parties.length ∉ log.map key := by
  intro hmem
  obtain ⟨b, hb, hkey⟩ := mem_map.1 hmem
  obtain ⟨a, ha, -⟩ := h.entries b hb
  have hlt := (List.getElem?_eq_some_iff.1 ha).1
  omega

include h in
include h in
include h in
theorem arrive {a : α} (hout : ¬ In a) : Entered key Of In (parties ++ [a]) log := by
  refine ⟨fun b hb => ?_, fun i a' ha' hin => ?_, h.once⟩
  · obtain ⟨a', ha', hrest⟩ := h.entries b hb
    have hlt := (List.getElem?_eq_some_iff.1 ha').1
    exact ⟨a', (getElem?_append_left hlt).trans ha', hrest⟩
  · rcases getElem?_snoc_cases ha' with hold | ⟨_, rfl⟩
    · exact h.parties i a' hold hin
    · exact absurd hin hout

include h in
theorem update {i : Nat} {a₀ a : α} (ha₀ : parties[i]? = some a₀) (hof : ∀ b, Of a₀ b → Of a b)
    (hin : In a ↔ In a₀) : Entered key Of In (parties.set i a) log := by
  refine ⟨fun b hb => ?_, fun j a' ha' hin' => ?_, h.once⟩
  · obtain ⟨a', ha', hof', hin'⟩ := h.entries b hb
    rw [getElem?_set_some ha₀]
    split_ifs with hi
    · rw [hi, ha'] at ha₀
      cases ha₀
      exact ⟨a, rfl, hof b hof', hin.2 hin'⟩
    · exact ⟨a', ha', hof', hin'⟩
  · rw [getElem?_set_some ha₀] at ha'
    split_ifs at ha' with hi
    · cases ha'
      exact hi ▸ h.parties i a₀ ha₀ (hin.1 hin')
    · exact h.parties j a' ha' hin'

include h in
theorem enter {b : β} {a₀ a : α} (ha₀ : parties[key b]? = some a₀) (hout : ¬ In a₀) (hof : Of a b)
    (hin : In a) : Entered key Of In (parties.set (key b) a) (log ++ [b]) := by
  have hnew : ∀ b' ∈ log, key b' ≠ key b := by
    intro b' hb' hkey
    obtain ⟨a', ha', -, hin'⟩ := h.entries b' hb'
    rw [hkey, ha₀] at ha'
    cases ha'
    exact hout hin'
  refine ⟨fun b' hb' => ?_, fun j a' ha' hin' => ?_, ?_⟩
  · rw [getElem?_set_some ha₀]
    rcases mem_append.1 hb' with hearlier | hlast
    · rw [if_neg (Ne.symm (hnew b' hearlier))]
      exact h.entries b' hearlier
    · cases mem_singleton.1 hlast
      rw [if_pos rfl]
      exact ⟨a, rfl, hof, hin⟩
  · rw [map_append, mem_append]
    rw [getElem?_set_some ha₀] at ha'
    split_ifs at ha' with hi
    · exact .inr (hi ▸ mem_singleton_self (key b))
    · exact .inl (h.parties j a' ha' hin')
  · rw [map_append]
    refine nodup_append.2 ⟨h.once, nodup_singleton _, fun j hj k hk => ?_⟩
    obtain ⟨b', hb', rfl⟩ := mem_map.1 hj
    rw [mem_singleton.1 hk]
    exact hnew b' hb'

end Entered
end

section
variable {got : α → List μ} {posted : List (Nat × μ)}

def postedTo (posted : List (Nat × μ)) (i : Nat) : List μ := (posted.filter fun message => message.1 == i).map Prod.snd

theorem postedTo_append (posted later : List (Nat × μ)) (i : Nat) :
    postedTo (posted ++ later) i = postedTo posted i ++ postedTo later i := by
  unfold postedTo
  rw [filter_append, map_append]

theorem mem_postedTo {i : Nat} {m : μ} : m ∈ postedTo posted i ↔ (i, m) ∈ posted := by
  unfold postedTo
  constructor
  · intro h
    obtain ⟨⟨j, m'⟩, hmem, rfl⟩ := mem_map.1 h
    obtain ⟨hposted, hj⟩ := mem_filter.1 hmem
    cases beq_iff_eq.1 hj
    exact hposted
  · intro h
    exact mem_map.2 ⟨(i, m), mem_filter.2 ⟨h, beq_self_eq_true i⟩, rfl⟩

theorem postedTo_eq_nil {i : Nat} (h : i ∉ posted.map Prod.fst) : postedTo posted i = [] := by
  refine eq_nil_iff_forall_not_mem.2 fun m hm => h ?_
  exact mem_map_of_mem (mem_postedTo.1 hm)

theorem length_postedTo_le_one (h : (posted.map Prod.fst).Nodup) (i : Nat) : (postedTo posted i).length ≤ 1 := by
  have hcount := nodup_iff_count_le_one.1 h i
  rwa [List.count, countP_map, countP_eq_length_filter, ← length_map Prod.snd] at hcount

def Received (got : α → List μ) (parties : List α) (posted : List (Nat × μ)) : Prop :=
  ∀ (i : Nat) (a : α), parties[i]? = some a → got a = postedTo posted i

theorem received_nil : Received got ([] : List α) [] := nofun

namespace Received

variable (h : Received got parties posted)
include h in
theorem arrive {a : α} (hgot : got a = []) (hnew : parties.length ∉ posted.map Prod.fst) :
    Received got (parties ++ [a]) posted := by
  intro i a' ha'
  rcases getElem?_snoc_cases ha' with hold | ⟨rfl, rfl⟩
  · exact h i a' hold
  · rw [hgot, postedTo_eq_nil hnew]

include h in
theorem update {i : Nat} {a₀ a : α} (ha₀ : parties[i]? = some a₀) (hgot : got a = got a₀) :
    Received got (parties.set i a) posted := by
  intro j a' ha'
  rw [getElem?_set_some ha₀] at ha'
  split_ifs at ha' with hi
  · cases ha'
    exact hi ▸ hgot.trans (h i a₀ ha₀)
  · exact h j a' ha'

include h in
theorem post {i : Nat} {a₀ a : α} {m : μ} (ha₀ : parties[i]? = some a₀) (hgot : got a = got a₀ ++ [m]) :
    Received got (parties.set i a) (posted ++ [(i, m)]) := by
  intro j a' ha'
  rw [getElem?_set_some ha₀] at ha'
  rw [postedTo_append]
  split_ifs at ha' with hi
  · cases ha'
    subst hi
    rw [hgot, h i a₀ ha₀]
    simp [postedTo]
  · have hother : postedTo [(i, m)] j = [] := postedTo_eq_nil (by simpa using Ne.symm hi)
    rw [h j a' ha', hother, append_nil]

end Received
end

end HelixRpc.Foundation.Parties
