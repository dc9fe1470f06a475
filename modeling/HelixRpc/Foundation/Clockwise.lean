import Mathlib.Data.List.Rotate
import Mathlib.Data.Set.Basic

/-!
# Rings

The places of a ring are the elements of a linear order, and behind the largest one the smallest one comes again.
-/

namespace HelixRpc.Foundation

open List
universe u

section
variable {κ : Type u} [LinearOrder κ]

def NoLater (h x y : κ) : Prop := if h ≤ x then h ≤ y → x ≤ y else y < h ∧ x ≤ y

def Clockwise (h : κ) (S : Set κ) (x : κ) : Prop := x ∈ S ∧ ∀ y ∈ S, NoLater h x y

variable {h x y : κ} {S T : Set κ}

theorem NoLater.antisymm (hxy : NoLater h x y) (hyx : NoLater h y x) : x = y := by
  unfold NoLater at hxy hyx
  split_ifs at hxy hyx with hx hy hy
  · exact le_antisymm (hxy hy) (hyx hx)
  · exact absurd hx (not_le.2 hyx.1)
  · exact absurd hy (not_le.2 hxy.1)
  · exact le_antisymm hxy.2 hyx.2

theorem Clockwise.unique (hx : Clockwise h S x) (hy : Clockwise h S y) : x = y := (hx.2 y hy.1).antisymm (hy.2 x hx.1)

theorem Clockwise.subset (hx : Clockwise h S x) (hsub : T ⊆ S) (hmem : x ∈ T) : Clockwise h T x :=
  ⟨hmem, fun y hy => hx.2 y (hsub hy)⟩
end

def searchLoop (f : Nat → Bool) : Nat → Nat → Nat → Nat
  | 0, i, _ => i
  | fuel + 1, i, j =>
    if i < j then
      if f ((i + j) / 2) then searchLoop f fuel i ((i + j) / 2)
      else searchLoop f fuel ((i + j) / 2 + 1) j
    else i

def search (n : Nat) (f : Nat → Bool) : Nat := searchLoop f n 0 n

section
variable {f : Nat → Bool} {n : Nat}

theorem searchLoop_spec (hmono : ∀ i j, i ≤ j → j < n → f i = true → f j = true) {fuel i j : Nat} (hfuel : j - i ≤ fuel)
    (hij : i ≤ j) (hjn : j ≤ n) (hbelow : ∀ k < i, f k = false) (habove : ∀ k, j ≤ k → k < n → f k = true) :
    searchLoop f fuel i j ≤ n ∧ (∀ k < searchLoop f fuel i j, f k = false) ∧ ∀ k, searchLoop f fuel i j ≤ k → k < n →
    f k = true := by
  induction fuel generalizing i j with
  | zero =>
    have heq : i = j := by omega
    exact ⟨heq ▸ hjn, hbelow, fun k hk => habove k (heq ▸ hk)⟩
  | succ fuel ih =>
    rw [searchLoop]
    split_ifs with hlt hmid
    · refine ih (by omega) (by omega) (by omega) hbelow fun k hk hkn => ?_
      exact hmono _ k hk hkn hmid
    · -- what is not above the middle is not there either
      refine ih (by omega) (by omega) hjn (fun k hk => ?_) habove
      by_contra htrue
      exact hmid (hmono k _ (by omega) (by omega) (Bool.of_not_eq_false htrue))
    · have heq : i = j := by omega
      exact ⟨heq ▸ hjn, hbelow, fun k hk => habove k (heq ▸ hk)⟩

theorem searchLoop_le {fuel i j : Nat} (h : i ≤ j) : searchLoop f fuel i j ≤ j := by
  induction fuel generalizing i j with
  | zero => exact h
  | succ fuel ih =>
    rw [searchLoop]
    split_ifs with hlt hmid
    · exact (ih (by omega)).trans (by omega)
    · exact ih (by omega)
    · exact h

theorem search_spec (hmono : ∀ i j, i ≤ j → j < n → f i = true → f j = true) :
    search n f ≤ n ∧ (∀ k < search n f, f k = false) ∧ ∀ k, search n f ≤ k → k < n → f k = true :=
  searchLoop_spec hmono (by omega) (Nat.zero_le n) (le_refl n) (fun _ hk => absurd hk (Nat.not_lt_zero _))
    fun _ hk hkn => absurd hkn (Nat.not_lt.2 hk)
end

section
variable {κ : Type u}

def scan (ring : List κ) (p : κ → Bool) (start : Nat) : Nat → Nat → Option κ
  | 0, _ => none
  | fuel + 1, idx =>
    match ring[idx]? with
    | none => none
    | some x =>
      if p x then some x
      else if (idx + 1) % ring.length = start then none
      else scan ring p start fuel ((idx + 1) % ring.length)

variable {ring : List κ}

theorem scan_eq_find? {p : κ → Bool} {start : Nat} (hstart : start < ring.length) {fuel k : Nat}
    (hk : k + fuel = ring.length) (hfuel : fuel ≠ 0) :
    scan ring p start fuel ((k + start) % ring.length) = ((ring.rotate start).drop k).find? p := by
  induction fuel generalizing k with
  | zero => exact absurd rfl hfuel
  | succ fuel ih =>
    have hlt : k < (ring.rotate start).length := by
      rw [length_rotate]
      omega
    have hget : ring[(k + start) % ring.length]? = some (ring.rotate start)[k] := by
      rw [← getElem?_rotate (by omega), getElem?_eq_getElem hlt]
    have hnext : ((k + start) % ring.length + 1) % ring.length = (k + 1 + start) % ring.length := by
      rw [Nat.mod_add_mod]
      congr 1
      omega
    rw [scan, hget, drop_eq_getElem_cons hlt, find?_cons]
    simp only [hnext]
    cases hp : p (ring.rotate start)[k] with
    | true => rfl
    | false =>
      -- the scan ends where the list does
      by_cases hlast : fuel = 0
      · have hround : k + 1 + start = ring.length + start := by omega
        have hend : (ring.rotate start).drop (k + 1) = [] := by
          rw [drop_eq_nil_iff, length_rotate]
          omega
        rw [hround, Nat.add_mod_left, Nat.mod_eq_of_lt hstart, hend]
        simp
      · have hne : (k + 1 + start) % ring.length ≠ start := by
          intro heq
          by_cases hwrap : k + 1 + start < ring.length
          · rw [Nat.mod_eq_of_lt hwrap] at heq
            omega
          · rw [Nat.mod_eq_sub_mod (by omega), Nat.mod_eq_of_lt (by omega)] at heq
            omega
        simp only [Bool.false_eq_true, if_false, if_neg hne]
        exact ih (by omega) hlast

variable [LinearOrder κ]

def notBefore (ring : List κ) (h : κ) (i : Nat) : Bool :=
  match ring[i]? with
  | some x => decide (h ≤ x)
  | none => false

/-- Where the search for a place starts: the first place that is not before it, or the beginning. -/
def startIndex (ring : List κ) (h : κ) : Nat :=
  let idx := search ring.length (notBefore ring h)
  if idx = ring.length then 0 else idx

theorem notBefore_eq {h : κ} {i : Nat} (hi : i < ring.length) : notBefore ring h i = decide (h ≤ ring[i]) := by
  rw [notBefore, getElem?_eq_getElem hi]

theorem exists_rotate_startIndex (hsorted : ring.Pairwise (· ≤ ·)) (h : κ) : ∃ idx, ring.rotate (startIndex ring h) =
    ring.drop idx ++ ring.take idx ∧ (∀ x ∈ ring.drop idx, h ≤ x) ∧ ∀ x ∈ ring.take idx, x < h := by
  have hmono : ∀ i j, i ≤ j → j < ring.length → notBefore ring h i = true → notBefore ring h j = true := by
    intro i j hij hj hi
    have hi' : i < ring.length := Nat.lt_of_le_of_lt hij hj
    rw [notBefore_eq hi', decide_eq_true_eq] at hi
    rw [notBefore_eq hj, decide_eq_true_eq]
    rcases Nat.eq_or_lt_of_le hij with heq | hlt
    · subst heq
      exact hi
    · exact hi.trans (pairwise_iff_getElem.1 hsorted i j hi' hj hlt)
  obtain ⟨hle, hbelow, habove⟩ := search_spec hmono
  refine ⟨search ring.length (notBefore ring h), ?_, fun x hx => ?_, fun x hx => ?_⟩
  · unfold startIndex
    simp only
    split_ifs with hend
    · rw [hend]
      simp
    · exact rotate_eq_drop_append_take hle
  · obtain ⟨i, hi, rfl⟩ := getElem_of_mem hx
    rw [length_drop] at hi
    have hplace := habove _ (Nat.le_add_right _ i) (Nat.add_lt_of_lt_sub' hi)
    rw [notBefore_eq (Nat.add_lt_of_lt_sub' hi), decide_eq_true_eq] at hplace
    rw [getElem_drop]
    exact hplace
  · obtain ⟨i, hi, rfl⟩ := getElem_of_mem hx
    rw [length_take, Nat.lt_min] at hi
    have hplace := hbelow i hi.1
    rw [notBefore_eq hi.2, decide_eq_false_iff_not] at hplace
    rw [getElem_take]
    exact not_le.1 hplace

theorem pairwise_noLater (hsorted : ring.Pairwise (· ≤ ·)) (h : κ) :
    (ring.rotate (startIndex ring h)).Pairwise (NoLater h) := by
  obtain ⟨idx, hrotate, hdrop, htake⟩ := exists_rotate_startIndex hsorted h
  rw [hrotate, pairwise_append]
  refine ⟨?_, ?_, ?_⟩
  · refine (hsorted.sublist (drop_sublist _ _)).imp_of_mem fun hx hy hxy => ?_
    rw [NoLater, if_pos (hdrop _ hx)]
    exact fun _ => hxy
  · refine (hsorted.sublist (take_sublist _ _)).imp_of_mem fun hx hy hxy => ?_
    rw [NoLater, if_neg (not_le.2 (htake _ hx))]
    exact ⟨htake _ hy, hxy⟩
  · intro x hx y hy
    rw [NoLater, if_pos (hdrop x hx)]
    exact fun hplace => absurd hplace (not_le.2 (htake y hy))

theorem clockwise_of_scan (hsorted : ring.Pairwise (· ≤ ·)) (h : κ) {p : κ → Bool} (hex : ∃ x ∈ ring, p x = true) :
    ∃ x, scan ring p (startIndex ring h) ring.length (startIndex ring h) = some x ∧
      Clockwise h {y | y ∈ ring ∧ p y = true} x := by
  obtain ⟨x₀, hx₀, hp₀⟩ := hex
  have hlength : 0 < ring.length := length_pos_of_mem hx₀
  have hstart : startIndex ring h < ring.length := by
    unfold startIndex
    simp only
    split_ifs with hend
    · exact hlength
    · exact Nat.lt_of_le_of_ne (searchLoop_le (Nat.zero_le _)) hend
  have hscan := scan_eq_find? (p := p) hstart (k := 0) (Nat.zero_add _) hlength.ne'
  rw [Nat.zero_add, Nat.mod_eq_of_lt hstart, drop_zero] at hscan
  rw [hscan]
  obtain ⟨x, hx⟩ := Option.isSome_iff_exists.1 (find?_isSome.2 ⟨x₀, mem_rotate.2 hx₀, hp₀⟩)
  obtain ⟨hp, earlier, later, heq, hearlier⟩ := find?_eq_some_iff_append.1 hx
  refine ⟨x, hx, ⟨mem_rotate.1 (mem_of_find?_eq_some hx), hp⟩, fun y hy => ?_⟩
  have hpair := pairwise_noLater hsorted h
  have hmem : y ∈ ring.rotate (startIndex ring h) := mem_rotate.2 hy.1
  rw [heq] at hpair hmem
  rcases mem_append.1 hmem with hmem | hmem
  · have hno := hearlier y hmem
    rw [hy.2] at hno
    cases hno
  · rcases mem_cons.1 hmem with rfl | hmem
    · unfold NoLater
      split_ifs with hplace
      · exact fun _ => le_refl _
      · exact ⟨not_le.1 hplace, le_refl _⟩
    · exact (pairwise_cons.1 (pairwise_append.1 hpair).2.1).1 y hmem
end

end HelixRpc.Foundation
