import HelixRpc.Foundation.Loop
import HelixRpc.Foundation.Varint

/-!
# Byte slices and 64-bit signed integers

A slice of a language with a signed 64-bit `int` has a length below `2 ^ 63` (`Slice`).
-/

namespace HelixRpc.Foundation

open List
universe u

def wrapInt (z : Int) : Int := (z + 2 ^ 63) % 2 ^ 64 - 2 ^ 63

theorem wrapInt_add_word (q : Nat) (hq : q < 2 ^ 63) (w : BitVec 64) : wrapInt (q + w.toInt) =
      if q + w.toNat < 2 ^ 63 then (q + w.toNat : Int) else (q + w.toNat : Int) - 2 ^ 64 := by
  have hw := w.isLt
  have hi : w.toInt = if 2 * w.toNat < 2 ^ 64 then (w.toNat : Int) else (w.toNat : Int) - 2 ^ 64 := by
    simpa using BitVec.toInt_eq_toNat_cond w
  unfold wrapInt
  -- the sign of the word and the overflow of the sum are independent: four cases
  split at hi <;> split <;> omega

@[ext] structure Slice where
  bytes : Bytes
  len_lt : bytes.length < 2 ^ 63
  deriving DecidableEq

namespace Slice

variable (b : Slice)

def len : Int := b.bytes.length

def sub (lo hi : Nat) : Slice where
  bytes := (b.bytes.take hi).drop lo
  len_lt := by
    have := b.len_lt
    simp only [length_drop, length_take]
    omega

def extract {ε : Type u} (b : Slice) (lo hi : Int) : Outcome ε Slice :=
  if 0 ≤ lo ∧ lo ≤ hi ∧ hi ≤ b.len then .ok (b.sub lo.toNat hi.toNat) else .fault .slice

@[simp] theorem bytes_sub (lo hi : Nat) : (b.sub lo hi).bytes = (b.bytes.take hi).drop lo := rfl

theorem extract_eq_ok {ε : Type u} {b : Slice} {lo hi : Int} (h0 : 0 ≤ lo) (h1 : lo ≤ hi)
    (h2 : hi ≤ b.len) : b.extract lo hi = (.ok (b.sub lo.toNat hi.toNat) : Outcome ε Slice) :=
  if_pos ⟨h0, h1, h2⟩

theorem bounds_of_extract {ε : Type u} {b c : Slice} {lo hi : Int}
    (h : b.extract lo hi = (.ok c : Outcome ε Slice)) : 0 ≤ lo ∧ lo ≤ hi ∧ hi ≤ b.len := by
  unfold extract at h
  split at h
  · rename_i hb
    exact hb
  · cases h

def empty : Slice := ⟨[], by decide⟩

theorem eq_empty_iff : b = empty ↔ b.bytes = [] := by
  constructor
  · rintro rfl
    rfl
  · intro h
    exact Slice.ext h

theorem sub_append (pre mid post : Bytes) (h : b.bytes = pre ++ mid ++ post) :
    (b.sub pre.length (pre.length + mid.length)).bytes = mid := by
  rw [bytes_sub, h, ← length_append, take_left, drop_left]

end Slice

section
variable {ε : Type u}
variable (buf : Bytes) (offset : Nat)

def store (b : UInt8) : Outcome ε Bytes :=
  if offset < buf.length then .ok (buf.set offset b) else .fault .index

def overwrite (bs : Bytes) : Bytes :=
  buf.take offset ++ bs ++ buf.drop (offset + bs.length)

theorem length_overwrite (bs : Bytes) (h : offset + bs.length ≤ buf.length) :
    (overwrite buf offset bs).length = buf.length := by
  simp only [overwrite, length_append, length_take, length_drop]
  omega

theorem overwrite_nil : overwrite buf offset [] = buf := by simp [overwrite]

theorem set_eq_overwrite {buf : Bytes} {offset : Nat} (b : UInt8) (h : offset < buf.length) :
    buf.set offset b = overwrite buf offset [b] := by
  rw [set_eq_take_append_cons_drop, if_pos h]
  simp [overwrite]

theorem store_eq_overwrite {buf : Bytes} {offset : Nat} (b : UInt8) (h : offset < buf.length) :
    (store buf offset b : Outcome ε Bytes) = .ok (overwrite buf offset [b]) := by
  rw [store, if_pos h, set_eq_overwrite b h]

theorem overwrite_overwrite {buf a b : Bytes} {offset : Nat} (h : offset + a.length + b.length ≤ buf.length) :
    overwrite (overwrite buf offset a) (offset + a.length) b = overwrite buf offset (a ++ b) := by
  have htake : (overwrite buf offset a).take (offset + a.length) = buf.take offset ++ a := by
    unfold overwrite
    rw [take_left']
    simp only [length_append, length_take]
    omega
  have hdrop : (overwrite buf offset a).drop (offset + a.length + b.length) = buf.drop (offset + (a ++ b).length) := by
    unfold overwrite
    rw [← drop_drop, drop_left', drop_drop, length_append, Nat.add_assoc]
    simp only [length_append, length_take]
    omega
  show (overwrite buf offset a).take (offset + a.length) ++ b ++
      (overwrite buf offset a).drop (offset + a.length + b.length) = _
  rw [htake, hdrop]
  simp [overwrite]

theorem overwrite_all {buf bs : Bytes} (h : bs.length = buf.length) : overwrite buf 0 bs = bs := by simp [overwrite, h]

theorem take_overwrite (buf bs : Bytes) : (overwrite buf 0 bs).take bs.length = bs := by simp [overwrite]

/-- The writer puts the bytes at its offset wherever they fit, and returns the offset behind them. -/
def Writes (write : Bytes → Nat → Outcome ε (Bytes × Nat)) (bs : Bytes) : Prop :=
  ∀ buf offset, offset + bs.length ≤ buf.length → write buf offset = .ok (overwrite buf offset bs, offset + bs.length)

variable {write write' : Bytes → Nat → Outcome ε (Bytes × Nat)} {a b : Bytes}

theorem Writes.nil : Writes (ε := ε) (fun buf offset => .ok (buf, offset)) [] := by
  intro buf offset _
  rw [overwrite_nil, length_nil, Nat.add_zero]

theorem Writes.two (h : Writes write a) (h' : Writes write' b) {buf : Bytes} {offset : Nat}
    (hroom : offset + (a ++ b).length ≤ buf.length) :
    write buf offset = .ok (overwrite buf offset a, offset + a.length) ∧ write' (overwrite buf offset a)
      (offset + a.length) = .ok (overwrite buf offset (a ++ b), offset + (a ++ b).length) := by
  rw [length_append] at hroom
  have hlen := length_overwrite buf offset a (by omega)
  refine ⟨h buf offset (by omega), ?_⟩
  rw [h' _ _ (by omega), overwrite_overwrite (by omega), length_append, Nat.add_assoc]

theorem Writes.append (h : Writes write a) (h' : Writes write' b) :
    Writes (fun buf offset => write buf offset >>= fun p => write' p.1 p.2) (a ++ b) := by
  intro buf offset hroom
  obtain ⟨hfirst, hsecond⟩ := h.two h' hroom
  show (write buf offset >>= _) = _
  rw [hfirst]
  exact hsecond

theorem writes_store (b : UInt8) :
    Writes (ε := ε) (fun buf offset => store buf offset b >>= fun buf => .ok (buf, offset + 1)) [b] := by
  intro buf offset hroom
  show (store buf offset b >>= _) = _
  rw [store_eq_overwrite b hroom]
  rfl

theorem Writes.cons (b : UInt8) (h : Writes write a) :
    Writes (fun buf offset => store buf offset b >>= fun buf => write buf (offset + 1)) (b :: a) := by
  intro buf offset hroom
  show (store buf offset b >>= _) = _
  rw [store_eq_overwrite b (by rw [length_cons] at hroom; omega)]
  exact ((writes_store b).two h hroom).2
end

end HelixRpc.Foundation
