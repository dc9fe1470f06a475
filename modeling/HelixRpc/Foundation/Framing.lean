import HelixRpc.Foundation.LittleEndian

/-!
# Frames with a length in front

A framed transport writes the length of a payload as four bytes, highest first, in front of it (`frame`).
-/

namespace HelixRpc.Foundation

open List

def bigEndian (n v : Nat) : Bytes := (littleEndian n v).reverse

def ofBigEndian (bs : Bytes) : Nat := ofLittleEndian bs.reverse

@[simp] theorem length_bigEndian (n v : Nat) : (bigEndian n v).length = n := by
  rw [bigEndian, length_reverse, length_littleEndian]

theorem ofBigEndian_bigEndian (n v : Nat) : ofBigEndian (bigEndian n v) = v % 256 ^ n := by
  rw [ofBigEndian, bigEndian, reverse_reverse, ofLittleEndian_littleEndian]

theorem bigEndian_ofBigEndian (bs : Bytes) : bigEndian bs.length (ofBigEndian bs) = bs := by
  rw [bigEndian, ofBigEndian, ← length_reverse, littleEndian_ofLittleEndian, reverse_reverse]

theorem ofBigEndian_lt (bs : Bytes) : ofBigEndian bs < 256 ^ bs.length := by
  have hmod := ofBigEndian_bigEndian bs.length (ofBigEndian bs)
  rw [bigEndian_ofBigEndian] at hmod
  exact hmod.trans_lt (Nat.mod_lt _ (Nat.pow_pos (by decide)))

def frame (payload : Bytes) : Bytes := bigEndian 4 payload.length ++ payload

inductive FrameRead where
  | more
  | tooLong
  | frame (payload rest : Bytes)
  deriving DecidableEq

def readFrame (maxSize : Nat) (buf : Bytes) : FrameRead :=
  if buf.length < 4 then .more
  else if maxSize < ofBigEndian (buf.take 4) then .tooLong
  else if (buf.drop 4).length < ofBigEndian (buf.take 4) then .more
  else .frame ((buf.drop 4).take (ofBigEndian (buf.take 4))) ((buf.drop 4).drop (ofBigEndian (buf.take 4)))

section
variable {maxSize : Nat} {payload : Bytes}

@[simp] theorem length_frame : (frame payload).length = 4 + payload.length := by
  rw [frame, length_append, length_bigEndian]

theorem size_frame (h : payload.length < 2 ^ 32) (rest : Bytes) :
    ofBigEndian ((bigEndian 4 payload.length ++ rest).take 4) = payload.length := by
  have htake : (bigEndian 4 payload.length ++ rest).take 4 = bigEndian 4 payload.length :=
    take_left' (length_bigEndian 4 payload.length)
  rw [htake, ofBigEndian_bigEndian]
  exact Nat.mod_eq_of_lt h

theorem drop_frame (rest : Bytes) : (bigEndian 4 payload.length ++ rest).drop 4 = rest :=
  drop_left' (length_bigEndian 4 payload.length)

theorem readFrame_frame (hsize : payload.length ≤ maxSize) (hlimit : maxSize < 2 ^ 32)
    (rest : Bytes) : readFrame maxSize (frame payload ++ rest) = .frame payload rest := by
  have hpayload : payload.length < 2 ^ 32 := by omega
  rw [readFrame, frame, append_assoc, size_frame hpayload, drop_frame, if_neg, if_neg, if_neg]
  · rw [take_left, drop_left]
  · rw [length_append]
    omega
  · omega
  · rw [length_append, length_bigEndian]
    omega

theorem readFrame_frame_take (hsize : payload.length ≤ maxSize) (hlimit : maxSize < 2 ^ 32) {k : Nat}
    (hk : k < (frame payload).length) : readFrame maxSize ((frame payload).take k) = .more := by
  have hpayload : payload.length < 2 ^ 32 := by omega
  rw [length_frame] at hk
  -- the cut is inside of the length, or the length is there and the payload is not
  by_cases hheader : k < 4
  · rw [readFrame, if_pos]
    rw [length_take]
    omega
  · have htake : (frame payload).take k = bigEndian 4 payload.length ++ payload.take (k - 4) := by
      rw [frame, take_append, length_bigEndian, take_of_length_le]
      rw [length_bigEndian]
      omega
    rw [htake, readFrame, size_frame hpayload, drop_frame, if_neg, if_neg, if_pos]
    · rw [length_take]
      omega
    · omega
    · rw [length_append, length_bigEndian]
      omega

theorem eq_of_readFrame {buf rest : Bytes} (h : readFrame maxSize buf = .frame payload rest) :
    buf = frame payload ++ rest ∧ payload.length ≤ maxSize := by
  unfold readFrame at h
  split_ifs at h with hheader hlimit hmore
  obtain ⟨rfl, rfl⟩ := FrameRead.frame.inj h
  have hlength : ((buf.drop 4).take (ofBigEndian (buf.take 4))).length = ofBigEndian (buf.take 4) :=
    length_take_of_le (not_lt.1 hmore)
  have hsize : (buf.take 4).length = 4 := length_take_of_le (not_lt.1 hheader)
  have hbytes := bigEndian_ofBigEndian (buf.take 4)
  rw [hsize] at hbytes
  constructor
  · rw [frame, hlength, hbytes, append_assoc, take_append_drop, take_append_drop]
  · rw [hlength]
    exact not_lt.1 hlimit

theorem frame_append_inj {other a b : Bytes} (hpayload : payload.length < 2 ^ 32) (hother : other.length < 2 ^ 32)
    (h : frame payload ++ a = frame other ++ b) : payload = other ∧ a = b := by
  have hlength : payload.length = other.length := by
    have hsize := size_frame hpayload (payload ++ a)
    rw [← append_assoc, ← frame, h, frame, append_assoc, size_frame hother] at hsize
    exact hsize.symm
  obtain ⟨hframe, hrest⟩ := append_inj h (by rw [length_frame, length_frame, hlength])
  exact ⟨(append_inj hframe (by rw [length_bigEndian, length_bigEndian])).2, hrest⟩

theorem flatMap_frame_split (hlimit : maxSize < 2 ^ 32) {payloads others : List Bytes} {rest : Bytes}
    (hpayloads : ∀ p ∈ payloads, p.length ≤ maxSize) (hothers : ∀ p ∈ others, p.length ≤ maxSize)
    (h : payloads.flatMap frame = others.flatMap frame ++ rest) :
    ∃ later, payloads = others ++ later ∧ rest = later.flatMap frame := by
  -- both sides start with a frame, and frames are cut off in one way
  induction others generalizing payloads with
  | nil => exact ⟨payloads, rfl, h.symm⟩
  | cons q qs ih =>
    cases payloads with
    | nil =>
      have hlength := congrArg List.length h
      simp only [flatMap_cons, length_append, length_frame, flatMap_nil, length_nil] at hlength
      omega
    | cons p ps =>
      have hp := hpayloads p mem_cons_self
      have hq := hothers q mem_cons_self
      rw [flatMap_cons, flatMap_cons, append_assoc] at h
      obtain ⟨rfl, htail⟩ := frame_append_inj (by omega) (by omega) h
      obtain ⟨later, rfl, hrest⟩ := ih (fun r hr => hpayloads r (mem_cons_of_mem _ hr))
        (fun r hr => hothers r (mem_cons_of_mem _ hr)) htail
      exact ⟨later, rfl, hrest⟩
end

end HelixRpc.Foundation
