import HelixRpc.Foundation.Slice
import Mathlib.Data.Nat.Bitwise

/-!
# Varint helpers of the generated Go code

Model of `writeVarint`, `readVarint` and `sizeOfVarint` as `GenerateGo` (`compiler/codegen/go_generator.go`) writes
them.
-/

namespace HelixRpc.Codegen.Go

open Foundation List

inductive CodecError where
  | varintEOF
  | endGroup (structName : String)
  | wrongWireType (wireType : Nat) (field : String)
  | unexpectedEOF
  | unmarshalSkip
  | scanWireType
  | scanSkip
  | fieldNotFound
  | unsupportedLazyType
  | transpileUnsupported
  deriving DecidableEq, Repr

abbrev GoOutcome := Outcome CodecError

/-- The loop of `writeVarint`. -/
def writeVarintLoop : Nat → Bytes → Nat → BitVec 64 → GoOutcome (Bytes × Nat)
  | 0, buf, offset, v => do
      let buf ← store buf offset (UInt8.ofNat v.toNat)
      pure (buf, offset + 1)
  | k + 1, buf, offset, v =>
    if 128 ≤ v.toNat then do
      let buf ← store buf offset (UInt8.ofNat (v &&& 0x7f ||| 0x80).toNat)
      writeVarintLoop k buf (offset + 1) (v >>> 7)
    else do
      let buf ← store buf offset (UInt8.ofNat v.toNat)
      pure (buf, offset + 1)

def writeVarint (buf : Bytes) (offset : Nat) (v : BitVec 64) : GoOutcome (Bytes × Nat) := writeVarintLoop 9 buf offset v

def readVarintLoop : Bytes → Int → BitVec 64 → Nat → GoOutcome (BitVec 64 × Int)
  | [], _, _, _ => .error .varintEOF
  | b :: rest, offset, v, shift =>
    let v := v ||| BitVec.ofNat 64 (b &&& 0x7f).toNat <<< shift
    if b &&& 0x80 = 0 then .ok (v, offset + 1)
    -- the source has no limit on the number of bytes; bits shifted out of the word are lost
    else readVarintLoop rest (offset + 1) v ((shift + 7) % 2 ^ 64)

/-- `readVarint`: the word and the offset behind it. -/
def readVarint (buf : Slice) (offset : Int) : GoOutcome (BitVec 64 × Int) :=
  if buf.len ≤ offset then .error .varintEOF
  else if offset < 0 then .fault .index
  else readVarintLoop (buf.bytes.drop offset.toNat) offset 0 0

def sizeOfVarintLoop : Nat → Nat → BitVec 64 → Nat
  | 0, size, _ => size
  | k + 1, size, v => if 0 < v.toNat then sizeOfVarintLoop k (size + 1) (v >>> 7) else size

variable (v : BitVec 64)

def sizeOfVarint : Nat := if v = 0 then 1 else sizeOfVarintLoop 10 0 v

theorem and_7f_toNat (b : UInt8) : (b &&& 0x7f).toNat = b.toNat % 128 := by
  rw [UInt8.toNat_and]
  exact Nat.and_two_pow_sub_one_eq_mod b.toNat 7

theorem and_80_eq_zero_iff (b : UInt8) : b &&& 0x80 = 0 ↔ b.toNat < 128 := by
  have hn : (b &&& 0x80).toNat = (b.toNat.testBit 7).toNat * 2 ^ 7 := by
    rw [UInt8.toNat_and]
    exact Nat.and_two_pow b.toNat 7
  have hb := b.toNat_lt
  rw [← UInt8.toNat_inj, hn, Nat.toNat_testBit]
  simp only [UInt8.toNat_zero, Nat.reducePow]
  omega

theorem word_low_toNat : (v &&& 0x7f).toNat = v.toNat % 128 := by
  rw [BitVec.toNat_and]
  exact Nat.and_two_pow_sub_one_eq_mod v.toNat 7

theorem word_low_or_toNat : (v &&& 0x7f ||| 0x80).toNat = v.toNat % 128 + 128 := by
  have hor := Nat.two_pow_add_eq_or_of_lt (i := 7) (b := v.toNat % 128) (by omega) 1
  rw [BitVec.toNat_or, word_low_toNat, Nat.or_comm]
  simpa [Nat.add_comm] using hor.symm

theorem word_shift_toNat : (v >>> 7).toNat = v.toNat / 128 := by
  rw [BitVec.toNat_ushiftRight, Nat.shiftRight_eq_div_pow]

theorem writes_writeVarintLoop (k : Nat) (v : BitVec 64) (hv : v.toNat < 128 ^ (k + 1)) :
    Writes (writeVarintLoop k · · v) (encodeGroups k v.toNat) := by
  induction k generalizing v with
  | zero => exact writes_store _
  | succ k ih =>
    intro buf offset
    show _ → writeVarintLoop (k + 1) buf offset v = _
    by_cases hlt : v.toNat < 128
    · have he : encodeGroups (k + 1) v.toNat = [UInt8.ofNat v.toNat] := by simp [encodeGroups, hlt]
      rw [he, writeVarintLoop, if_neg (by omega)]
      exact writes_store _ buf offset
    · have he : encodeGroups (k + 1) v.toNat = UInt8.ofNat (v.toNat % 128 + 128) :: encodeGroups k (v >>> 7).toNat := by
        simp only [encodeGroups, if_neg hlt, word_shift_toNat]
      have hsmall : (v >>> 7).toNat < 128 ^ (k + 1) := by
        rw [word_shift_toNat, Nat.div_lt_iff_lt_mul (by omega)]
        rwa [pow_succ] at hv
      rw [he, writeVarintLoop, if_pos (by omega), word_low_or_toNat]
      exact (ih _ hsmall).cons _ buf offset

variable {v : BitVec 64} {p : Int}

theorem writes_writeVarint (v : BitVec 64) : Writes (writeVarint · · v) (encodeVarint v) :=
  writes_writeVarintLoop 9 v (toNat_lt_groups v)

theorem sizeOfVarintLoop_eq (k size : Nat) (v : BitVec 64) (hpos : 0 < v.toNat) (hv : v.toNat < 128 ^ (k + 1)) :
    sizeOfVarintLoop (k + 1) size v = size + (encodeGroups k v.toNat).length := by
  induction k generalizing size v with
  | zero => simp [sizeOfVarintLoop, encodeGroups, hpos]
  | succ k ih =>
    rw [sizeOfVarintLoop, if_pos hpos]
    by_cases hlt : v.toNat < 128
    -- the loop counts the byte that makes the word zero, the encoder the byte without the mark
    · have hz : ¬ 0 < (v >>> 7).toNat := by
        rw [word_shift_toNat]
        omega
      rw [sizeOfVarintLoop, if_neg hz]
      simp [encodeGroups, hlt]
    · have hsmall : (v >>> 7).toNat < 128 ^ (k + 1) := by
        rw [word_shift_toNat, Nat.div_lt_iff_lt_mul (by omega)]
        rwa [pow_succ] at hv
      rw [ih _ _ (by rw [word_shift_toNat]; omega) hsmall]
      simp only [encodeGroups, if_neg hlt, word_shift_toNat, length_cons]
      omega

theorem sizeOfVarint_eq : sizeOfVarint v = (encodeVarint v).length := by
  unfold sizeOfVarint
  split
  · rename_i h
    subst h
    rfl
  · rename_i h
    have hpos : 0 < v.toNat := by
      rcases Nat.eq_zero_or_pos v.toNat with h0 | h0
      · exact absurd (BitVec.eq_of_toNat_eq (by simpa using h0)) h
      · exact h0
    rw [sizeOfVarintLoop_eq 9 0 v hpos (toNat_lt_groups v), Nat.zero_add]
    rfl

variable {buf : Slice} {offset : Int} {g pre : Bytes} {w : BitVec 64}

theorem readVarintLoop_varint (hg : isVarint g = true) (rest : Bytes) (offset : Int) (v : BitVec 64) (shift : Nat)
    (hs : shift + 7 * g.length < 2 ^ 64) : readVarintLoop (g ++ rest) offset v shift =
      .ok (v ||| BitVec.ofNat 64 (varintValue g) <<< shift, offset + g.length) := by
  induction g generalizing offset v shift with
  | nil => simp [isVarint] at hg
  | cons b bs ih =>
    by_cases hb : b.toNat < 128
    · rw [isVarint_cons_last hb, List.isEmpty_iff] at hg
      subst hg
      have hv : varintValue [b] = b.toNat % 128 := by simp [varintValue]
      simp only [cons_append, readVarintLoop, and_7f_toNat]
      rw [if_pos ((and_80_eq_zero_iff b).2 hb), hv]
      simp
    · rw [isVarint_cons_more (Nat.not_lt.1 hb)] at hg
      simp only [length_cons] at hs
      have hmod : (shift + 7) % 2 ^ 64 = shift + 7 := Nat.mod_eq_of_lt (by omega)
      simp only [cons_append, readVarintLoop, and_7f_toNat]
      rw [if_neg (fun h => hb ((and_80_eq_zero_iff b).1 h)), hmod, ih hg _ _ _ (by omega), or_group_shift]
      simp only [length_cons, Nat.cast_add, Nat.cast_one]
      rw [show offset + 1 + (bs.length : Int) = offset + (bs.length + 1) by omega]

theorem readVarintLoop_cut (hg : ∀ b ∈ g, Continues b) (offset : Int) (v : BitVec 64) (shift : Nat) :
    readVarintLoop g offset v shift = .error .varintEOF := by
  induction g generalizing offset v shift with
  | nil => rfl
  | cons b bs ih =>
    have hb : ¬ b.toNat < 128 := Nat.not_lt.2 (hg b (by simp))
    rw [readVarintLoop, if_neg (fun h => hb ((and_80_eq_zero_iff b).1 h))]
    exact ih (fun c hc => hg c (by simp [hc])) _ _ _

theorem readVarintLoop_ok {bs : Bytes} {shift : Nat} (h : readVarintLoop bs offset v shift = .ok (w, p)) : ∃ g rest,
    bs = g ++ rest ∧ 0 < g.length ∧ p = offset + g.length ∧ ∀ (rest' : Bytes) (offset' : Int), readVarintLoop
    (g ++ rest') offset' v shift = .ok (w, offset' + g.length) := by
  induction bs generalizing offset v shift with
  | nil => simp [readVarintLoop] at h
  | cons b bs ih =>
    by_cases hb : b &&& 0x80 = 0
    · rw [readVarintLoop, if_pos hb, Outcome.ok.injEq, Prod.mk.injEq] at h
      obtain ⟨hw, hp⟩ := h
      refine ⟨[b], bs, rfl, by simp, by simp [← hp], ?_⟩
      intro rest' offset'
      rw [singleton_append, readVarintLoop, if_pos hb, hw]
      simp
    · rw [readVarintLoop, if_neg hb] at h
      obtain ⟨g, rest, rfl, hpos, hp, hall⟩ := ih h
      refine ⟨b :: g, rest, rfl, by simp, ?_, ?_⟩
      · rw [hp]
        simp only [length_cons, Nat.cast_add, Nat.cast_one]
        omega
      · intro rest' offset'
        rw [cons_append, readVarintLoop, if_neg hb, hall]
        simp only [length_cons, Nat.cast_add, Nat.cast_one]
        rw [show offset' + 1 + (g.length : Int) = offset' + (g.length + 1) by omega]

theorem readVarint_eq_loop {post : Bytes} (h : buf.bytes = pre ++ post) (hpost : post ≠ []) :
    readVarint buf pre.length = readVarintLoop post pre.length 0 0 := by
  have hpos := length_pos_iff.2 hpost
  have hlen : buf.len = pre.length + post.length := by simp [Slice.len, h]
  rw [readVarint, if_neg (by omega), if_neg (by omega), Int.toNat_natCast, h, drop_left]

theorem readVarint_end (h : buf.len ≤ offset) : readVarint buf offset = .error .varintEOF := if_pos h

theorem readVarint_varint {rest : Bytes} (v : Varint) (h : buf.bytes = pre ++ (v.bytes ++ rest)) :
    readVarint buf pre.length = .ok (v.value, pre.length + v.bytes.length) := by
  have hpos := v.length_pos
  have hne : v.bytes ++ rest ≠ [] := by
    intro he
    rw [append_eq_nil_iff] at he
    rw [he.1] at hpos
    simp at hpos
  have hshort := v.short
  rw [readVarint_eq_loop h hne, readVarintLoop_varint v.complete _ _ _ _ (by omega)]
  simp [Varint.value]

theorem readVarint_cut (h : buf.bytes = pre ++ g) (hg : ∀ b ∈ g, Continues b) :
    readVarint buf pre.length = .error .varintEOF := by
  cases hc : g with
  | nil =>
    apply readVarint_end
    simp [Slice.len, h, hc]
  | cons b bs =>
    rw [readVarint_eq_loop h (by simp [hc])]
    exact readVarintLoop_cut hg _ _ _

theorem readVarint_ok (h : readVarint buf offset = .ok (w, p)) : ∃ pre g rest : Bytes, buf.bytes = pre ++ (g ++ rest) ∧
    offset = pre.length ∧ p = pre.length + g.length ∧ 0 < g.length ∧ ∀ (buf' : Slice) (pre' rest' : Bytes), buf'.bytes =
    pre' ++ (g ++ rest') → readVarint buf' pre'.length = .ok (w, pre'.length + g.length) := by
  unfold readVarint at h
  split at h
  · simp at h
  · rename_i hlen
    split at h
    · simp at h
    · rename_i hneg
      obtain ⟨g, rest, hdrop, hpos, hp, hall⟩ := readVarintLoop_ok h
      have hoff : offset = (buf.bytes.take offset.toNat).length := by
        simp only [Slice.len] at hlen
        simp only [length_take]
        omega
      have hsplit : buf.bytes = buf.bytes.take offset.toNat ++ (g ++ rest) := by rw [← hdrop, take_append_drop]
      refine ⟨buf.bytes.take offset.toNat, g, rest, hsplit, hoff, by omega, hpos, ?_⟩
      intro buf' pre' rest' h'
      have hne : g ++ rest' ≠ [] := by
        intro he
        rw [append_eq_nil_iff] at he
        rw [he.1] at hpos
        simp at hpos
      rw [readVarint_eq_loop h' hne]
      exact hall rest' _

theorem readVarint_bounds (h : readVarint buf offset = .ok (w, p)) : 0 ≤ offset ∧ offset < p ∧ p ≤ buf.len := by
  obtain ⟨pre, g, rest, hb, ho, hp, hpos, -⟩ := readVarint_ok h
  have hlen : buf.len = pre.length + (g.length + rest.length) := by simp [Slice.len, hb]
  omega

theorem readVarint_ne_fault (h : 0 ≤ offset) (f : Fault) : readVarint buf offset ≠ .fault f := by
  have hloop : ∀ (bs : Bytes) (o : Int) (v : BitVec 64) (shift : Nat), readVarintLoop bs o v shift ≠ .fault f := by
    intro bs
    induction bs with
    | nil => intro o v shift hf; simp [readVarintLoop] at hf
    | cons b bs ih =>
      intro o v shift hf
      rw [readVarintLoop] at hf
      split at hf
      · simp at hf
      · exact ih _ _ _ hf
  unfold readVarint
  split
  · simp
  · rw [if_neg (by omega)]
    exact hloop _ _ _ _

end HelixRpc.Codegen.Go
