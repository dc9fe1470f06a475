import HelixRpc.Foundation.Slice

/-!
# Little-endian words in a buffer

`littleEndian n v` are the `n` bytes of a number, lowest first, and `ofLittleEndian` is the number of some bytes.
-/

namespace HelixRpc.Foundation

open List
universe u

def littleEndian : Nat → Nat → Bytes
  | 0, _ => []
  | n + 1, v => UInt8.ofNat v :: littleEndian n (v / 256)

def ofLittleEndian : Bytes → Nat
  | [] => 0
  | b :: bs => b.toNat + 256 * ofLittleEndian bs

@[simp] theorem length_littleEndian (n v : Nat) : (littleEndian n v).length = n := by
  induction n generalizing v with
  | zero => rfl
  | succ n ih => simp [littleEndian, ih]

theorem ofLittleEndian_littleEndian (n v : Nat) : ofLittleEndian (littleEndian n v) = v % 256 ^ n := by
  induction n generalizing v with
  | zero => rw [littleEndian, ofLittleEndian, Nat.pow_zero, Nat.mod_one]
  | succ n ih =>
    have hbyte : (UInt8.ofNat v).toNat = v % 256 := UInt8.toNat_ofNat'
    rw [littleEndian, ofLittleEndian, ih, hbyte, Nat.pow_succ', Nat.mod_mul]

theorem littleEndian_ofLittleEndian (bs : Bytes) : littleEndian bs.length (ofLittleEndian bs) = bs := by
  induction bs with
  | nil => rfl
  | cons b bs ih =>
    have hdiv : (b.toNat + 256 * ofLittleEndian bs) / 256 = ofLittleEndian bs := by
      have hlt := b.toNat_lt
      omega
    have hbyte : UInt8.ofNat (b.toNat + 256 * ofLittleEndian bs) = b := by
      rw [← UInt8.toNat_inj, UInt8.toNat_ofNat']
      have hlt := b.toNat_lt
      omega
    rw [length_cons, ofLittleEndian, littleEndian, hdiv, hbyte, ih]

theorem littleEndian_mod (n v : Nat) : littleEndian n (v % 256 ^ n) = littleEndian n v := by
  induction n generalizing v with
  | zero => rfl
  | succ n ih =>
    have hlow : UInt8.ofNat (v % 256 ^ (n + 1)) = UInt8.ofNat v := by
      apply UInt8.toNat_inj.1
      rw [UInt8.toNat_ofNat', UInt8.toNat_ofNat', Nat.pow_succ']
      exact Nat.mod_mul_right_mod v 256 (256 ^ n)
    have hhigh : v % 256 ^ (n + 1) / 256 = v / 256 % 256 ^ n := by rw [Nat.pow_succ', Nat.mod_mul_right_div_self]
    rw [littleEndian, littleEndian, hlow, hhigh, ih]

theorem littleEndian_zero (n : Nat) : littleEndian n 0 = replicate n 0 := by
  induction n with
  | zero => rfl
  | succ n ih => rw [littleEndian, Nat.zero_div, ih, replicate_succ]; rfl

theorem littleEndian_eq_map (n v : Nat) :
    littleEndian n v = (List.range n).map fun j => UInt8.ofNat (v >>> (j * 8)) := by
  induction n generalizing v with
  | zero => rfl
  | succ n ih =>
    rw [littleEndian, ih, range_succ_eq_map, map_cons, map_map]
    congr 1
    apply map_congr_left
    intro j _
    show UInt8.ofNat ((v / 256) >>> (j * 8)) = UInt8.ofNat (v >>> ((j + 1) * 8))
    rw [show (j + 1) * 8 = 8 + j * 8 by omega, Nat.shiftRight_add, Nat.shiftRight_eq_div_pow v 8]

theorem ofLittleEndian_append (a b : Bytes) :
    ofLittleEndian (a ++ b) = ofLittleEndian a + 256 ^ a.length * ofLittleEndian b := by
  induction a with
  | nil => simp [ofLittleEndian]
  | cons x a ih =>
    rw [cons_append, ofLittleEndian, ih, ofLittleEndian, length_cons, Nat.pow_succ',
      Nat.mul_add, Nat.mul_assoc, Nat.add_assoc]

theorem ofLittleEndian_lt (bs : Bytes) : ofLittleEndian bs < 256 ^ bs.length := by
  induction bs with
  | nil => exact Nat.one_pos
  | cons b bs ih =>
    have hb := b.toNat_lt
    rw [ofLittleEndian, length_cons, Nat.pow_succ']
    omega

theorem toInt_emod_toNat {w n : Nat} (hw : w = 8 * n) (v : BitVec w) : (v.toInt % 256 ^ n).toNat = v.toNat := by
  have hpow : (256 : Int) ^ n = ((2 ^ w : Nat) : Int) := by
    rw [hw, Nat.pow_mul]
    norm_cast
  rw [hpow, BitVec.toInt_eq_toNat_bmod, Int.bmod_emod, ← Int.natCast_emod, Int.toNat_natCast, Nat.mod_eq_of_lt v.isLt]

def At (buf : Bytes) (offset : Nat) (bs : Bytes) : Prop := ∃ pre post, buf = pre ++ (bs ++ post) ∧ pre.length = offset

namespace At

variable {buf a b bs : Bytes} {offset : Nat}

theorem intro (pre bs post : Bytes) : At (pre ++ (bs ++ post)) pre.length bs := ⟨pre, post, rfl, rfl⟩

theorem length_le (h : At buf offset bs) : offset + bs.length ≤ buf.length := by
  obtain ⟨pre, post, rfl, rfl⟩ := h
  simp only [length_append]
  omega

theorem left (h : At buf offset (a ++ b)) : At buf offset a := by
  obtain ⟨pre, post, rfl, rfl⟩ := h
  rw [append_assoc]
  exact intro pre a (b ++ post)

theorem right (h : At buf offset (a ++ b)) : At buf (offset + a.length) b := by
  obtain ⟨pre, post, rfl, rfl⟩ := h
  rw [append_assoc, ← append_assoc, ← length_append]
  exact intro (pre ++ a) b post

theorem getElem? (h : At buf offset bs) {j : Nat} (hj : j < bs.length) : buf[offset + j]? = some bs[j] := by
  obtain ⟨pre, post, rfl, rfl⟩ := h
  rw [getElem?_append_right (Nat.le_add_right _ _), Nat.add_sub_cancel_left,
    getElem?_append_left hj, getElem?_eq_getElem hj]

theorem drop_take (h : At buf offset bs) : (buf.take (offset + bs.length)).drop offset = bs := by
  obtain ⟨pre, post, rfl, rfl⟩ := h
  rw [← append_assoc, ← length_append, take_left, drop_left]

end At

section
variable {ε : Type u}

def storeWord (n : Nat) (buf : Bytes) (offset : Nat) (byteAt : Nat → UInt8) : Outcome ε Bytes :=
  (List.range n).foldlM (fun buf j => store buf (offset + j) (byteAt j)) buf

def loadWord (w n : Nat) (buf : Bytes) (index : Nat → Nat) : Outcome ε (BitVec w) := (List.range n).foldlM (fun v j =>
    match buf[index j]? with
    | some b => .ok (v ||| BitVec.ofNat w b.toNat <<< (j * 8))
    | none => .fault .index) 0

variable {buf : Bytes} {w offset : Nat}

theorem storeWord_eq {n : Nat} (byteAt : Nat → UInt8) (h : offset + n ≤ buf.length) :
    (storeWord n buf offset byteAt : Outcome ε Bytes) = .ok (overwrite buf offset ((List.range n).map byteAt)) := by
  induction n with
  | zero => rw [storeWord, range_zero, map_nil, overwrite_nil]; rfl
  | succ n ih =>
    have hlen : (overwrite buf offset ((List.range n).map byteAt)).length = buf.length :=
      length_overwrite _ _ _ (by rw [length_map, length_range]; omega)
    have hcat := @overwrite_overwrite buf ((List.range n).map byteAt) [byteAt n] offset (by simp; omega)
    rw [length_map, length_range] at hcat
    unfold storeWord at ih ⊢
    rw [range_succ, foldlM_append, ih (by omega), Outcome.ok_bind, foldlM_cons,
      store_eq_overwrite _ (by rw [hlen]; omega), hcat, map_append]
    rfl

theorem or_shiftLeft_byte {k a b : Nat} (ha : a < 256 ^ k) (hb : b < 256) (hw : 8 * (k + 1) ≤ w) :
    BitVec.ofNat w a ||| BitVec.ofNat w b <<< (k * 8) = BitVec.ofNat w (a + 256 ^ k * b) := by
  have hpow : 256 ^ k = 2 ^ (k * 8) := by rw [show (256 : Nat) = 2 ^ 8 from rfl, ← Nat.pow_mul, Nat.mul_comm]
  have hsum : a + 2 ^ (k * 8) * b < 2 ^ w := by
    have hle : 2 ^ (k * 8) * 256 ≤ 2 ^ w := by
      rw [show (256 : Nat) = 2 ^ 8 from rfl, ← Nat.pow_add]
      exact Nat.pow_le_pow_right (by decide) (by omega)
    have hmul : 2 ^ (k * 8) * b + 2 ^ (k * 8) ≤ 2 ^ (k * 8) * 256 := by
      rw [← Nat.mul_succ]
      exact Nat.mul_le_mul_left _ hb
    omega
  have hbig : b < 2 ^ w := by
    have hle : 2 ^ 8 ≤ 2 ^ w := Nat.pow_le_pow_right (by decide) (by omega)
    omega
  rw [hpow] at ha ⊢
  apply BitVec.eq_of_toNat_eq
  rw [BitVec.toNat_or, BitVec.toNat_shiftLeft, BitVec.toNat_ofNat, BitVec.toNat_ofNat, BitVec.toNat_ofNat,
    Nat.mod_eq_of_lt hsum, Nat.mod_eq_of_lt hbig, Nat.shiftLeft_eq, Nat.mul_comm b, Nat.mod_eq_of_lt
    (Nat.lt_of_le_of_lt (Nat.le_add_left _ a) hsum), Nat.mod_eq_of_lt (Nat.lt_of_le_of_lt (Nat.le_add_right a _) hsum),
    Nat.or_comm, ← Nat.two_pow_add_eq_or_of_lt ha, Nat.add_comm]

theorem loadWord_eq (bs : Bytes) (index : Nat → Nat) (hw : 8 * bs.length ≤ w)
    (h : ∀ j (hj : j < bs.length), buf[index j]? = some bs[j]) :
    (loadWord w bs.length buf index : Outcome ε (BitVec w)) = .ok (BitVec.ofNat w (ofLittleEndian bs)) := by
  -- the partial result after `k` bytes is the number of these bytes
  have key : ∀ k, k ≤ bs.length → (loadWord w k buf index : Outcome ε (BitVec w)) =
        .ok (BitVec.ofNat w (ofLittleEndian (bs.take k))) := by
    intro k
    induction k with
    | zero =>
      intro _
      rfl
    | succ k ih =>
      intro hk
      have hone : ofLittleEndian [bs[k]] = bs[k].toNat := by
        rw [ofLittleEndian, ofLittleEndian, Nat.mul_zero, Nat.add_zero]
      have htake : (bs.take k).length = k := by
        rw [length_take]
        omega
      have hlow := ofLittleEndian_lt (bs.take k)
      have hpart := ih (by omega)
      unfold loadWord at hpart ⊢
      rw [range_succ, foldlM_append, hpart, Outcome.ok_bind, foldlM_cons,
        h k hk, take_succ_eq_append_getElem hk, ofLittleEndian_append, hone]
      rw [htake] at hlow ⊢
      rw [← or_shiftLeft_byte hlow bs[k].toNat_lt (by omega)]
      rfl
  rw [key bs.length (Nat.le_refl _), take_length]

theorem At.loadWord {bs : Bytes} (h : At buf offset bs) (hw : 8 * bs.length ≤ w) :
    (Foundation.loadWord w bs.length buf (offset + ·) : Outcome ε (BitVec w)) =
      .ok (BitVec.ofNat w (ofLittleEndian bs)) :=
  loadWord_eq bs _ hw fun _ hj => h.getElem? hj

theorem At.loadWord_littleEndian {n v : Nat} (h : At buf offset (littleEndian n v)) (hw : 8 * n ≤ w) :
    (Foundation.loadWord w n buf (offset + ·) : Outcome ε (BitVec w)) = .ok (BitVec.ofNat w (v % 256 ^ n)) := by
  have hload := h.loadWord (ε := ε) (w := w) (by rw [length_littleEndian]; exact hw)
  rw [length_littleEndian, ofLittleEndian_littleEndian] at hload
  exact hload
end

theorem overwrite_zeros (pre post bs : Bytes) (skip rest : Nat) :
    overwrite (pre ++ (replicate (skip + bs.length + rest) 0 ++ post)) (pre.length + skip) bs =
      pre ++ (replicate skip 0 ++ (bs ++ (replicate rest 0 ++ post))) := by
  have hsplit : pre ++ (replicate (skip + bs.length + rest) (0 : UInt8) ++ post) =
      (pre ++ replicate skip 0) ++ (replicate bs.length 0 ++ (replicate rest 0 ++ post)) := by
    simp only [replicate_add, append_assoc]
  have hskip : pre.length + skip = (pre ++ replicate skip (0 : UInt8)).length := by simp
  rw [overwrite, hsplit, hskip, take_left, ← drop_drop, drop_left, drop_left' (length_replicate ..)]
  simp

end HelixRpc.Foundation
