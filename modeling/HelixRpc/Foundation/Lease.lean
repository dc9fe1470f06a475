import Mathlib.Data.List.Nodup

/-!
# Pools of buffers and their owners

A pool holds the buffers that nobody uses.
-/

namespace HelixRpc.Foundation

open Function Option

structure Leased (pool : List Nat) (owner : Nat → Option Nat) (next : Nat) : Prop where
  nodup : pool.Nodup
  lt : ∀ b ∈ pool, b < next
  owned : ∀ i b, owner i = some b → b ∉ pool ∧ b < next
  unique : ∀ i j b, owner i = some b → owner j = some b → i = j

namespace Leased

variable {pool : List Nat} {owner : Nat → Option Nat} {next b : Nat} (i : Nat)

theorem start (pool : List Nat) (h : pool.Nodup) (hlt : ∀ b ∈ pool, b < next) : Leased pool (fun _ => none) next :=
  ⟨h, hlt, nofun, nofun⟩

theorem cases_update {new : Option Nat} {j c : Nat} (h : update owner i new j = some c) :
    (j = i ∧ new = some c) ∨ (j ≠ i ∧ owner j = some c) := by
  by_cases hj : j = i
  · subst hj
    rw [update_self] at h
    exact .inl ⟨rfl, h⟩
  · rw [update_of_ne hj] at h
    exact .inr ⟨hj, h⟩

theorem drop (h : Leased pool owner next) : Leased pool (update owner i none) next := by
  refine ⟨h.nodup, h.lt, fun j c hj => ?_, fun j k c hj hk => ?_⟩
  · rcases cases_update i hj with ⟨-, hnew⟩ | ⟨-, hold⟩
    · cases hnew
    · exact h.owned j c hold
  · rcases cases_update i hj with ⟨-, hnew⟩ | ⟨-, hj⟩
    · cases hnew
    rcases cases_update i hk with ⟨-, hnew⟩ | ⟨-, hk⟩
    · cases hnew
    · exact h.unique j k c hj hk

theorem assign (h : Leased pool owner next) (hpool : b ∉ pool) (hlt : b < next) (hfree : ∀ j, owner j ≠ some b) :
    Leased pool (update owner i (some b)) next := by
  refine ⟨h.nodup, h.lt, fun j c hj => ?_, fun j k c hj hk => ?_⟩
  · rcases cases_update i hj with ⟨-, hnew⟩ | ⟨-, hold⟩
    · cases hnew
      exact ⟨hpool, hlt⟩
    · exact h.owned j c hold
  · rcases cases_update i hj with ⟨rfl, hnew⟩ | ⟨-, hj⟩
    · cases hnew
      rcases cases_update j hk with ⟨rfl, -⟩ | ⟨-, hk⟩
      · rfl
      · exact absurd hk (hfree k)
    · rcases cases_update i hk with ⟨-, hnew⟩ | ⟨-, hk⟩
      · cases hnew
        exact absurd hj (hfree j)
      · exact h.unique j k c hj hk

theorem take (h : Leased (pool ++ [b]) owner next) : Leased pool (update owner i (some b)) next := by
  obtain ⟨hpool, -, hdisjoint⟩ := List.nodup_append.1 h.nodup
  have hb : b ∉ pool := fun hmem => hdisjoint b hmem b (List.mem_singleton_self b) rfl
  have hlast : b ∈ pool ++ [b] := List.mem_append_right _ (List.mem_singleton_self b)
  have hrest : Leased pool owner next := ⟨hpool, fun c hc => h.lt c (List.mem_append_left _ hc),
      fun j c hj => ⟨fun hc => (h.owned j c hj).1 (List.mem_append_left _ hc), (h.owned j c hj).2⟩, h.unique⟩
  exact hrest.assign i hb (h.lt b hlast) fun j hj => (h.owned j b hj).1 hlast

theorem fresh (h : Leased pool owner next) : Leased pool (update owner i (some next)) (next + 1) := by
  have hmore : Leased pool owner (next + 1) := ⟨h.nodup, fun c hc => Nat.lt_succ_of_lt (h.lt c hc),
      fun j c hj => ⟨(h.owned j c hj).1, Nat.lt_succ_of_lt (h.owned j c hj).2⟩, h.unique⟩
  refine hmore.assign i (fun hmem => ?_) (Nat.lt_succ_self _) fun j hj => ?_
  · exact Nat.lt_irrefl _ (h.lt next hmem)
  · exact Nat.lt_irrefl _ (h.owned j next hj).2

theorem give (h : Leased pool owner next) (hb : owner i = some b) :
    Leased (pool ++ [b]) (update owner i none) next := by
  obtain ⟨hpool, hlt⟩ := h.owned i b hb
  have hsingle : ∀ {c}, c ∈ pool ++ [b] → c ∈ pool ∨ c = b := fun hc => by
    rwa [List.mem_append, List.mem_singleton] at hc
  refine ⟨?_, fun c hc => ?_, fun j c hj => ?_, (h.drop i).unique⟩
  · refine List.nodup_append.2 ⟨h.nodup, List.nodup_singleton b, fun c hc d hd => ?_⟩
    obtain rfl := List.mem_singleton.1 hd
    exact fun heq => hpool (heq ▸ hc)
  · rcases hsingle hc with hc | rfl
    · exact h.lt c hc
    · exact hlt
  · rcases cases_update i hj with ⟨-, hnew⟩ | ⟨hne, hold⟩
    · cases hnew
    refine ⟨fun hc => ?_, (h.owned j c hold).2⟩
    rcases hsingle hc with hc | rfl
    · exact (h.owned j c hold).1 hc
    · exact hne (h.unique j i c hold hb)

theorem giveAll (h : Leased pool owner next) : Leased (pool ++ (owner i).toList) (update owner i none) next := by
  cases hb : owner i with
  | none =>
    rw [toList_none, List.append_nil]
    exact h.drop i
  | some b => exact h.give i hb

end Leased

end HelixRpc.Foundation
