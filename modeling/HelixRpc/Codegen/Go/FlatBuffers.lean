import HelixRpc.Codegen.FlatBuffers.Layout

/-!
# `MarshalFlatBuffers` and `UnmarshalFlatBuffers` of the generated Go code

Model of the two methods that `GenerateGo` writes for every struct.
-/

namespace HelixRpc.Codegen.Go

open Foundation Compiler Codegen.FlatBuffers List Outcome

inductive FlatError where
  | bufferTooSmall
  | invalidRootOffset
  | invalidVtableOffset
  deriving DecidableEq, Repr

abbrev FlatOutcome := Outcome FlatError

def wordByte {w : Nat} (v : BitVec w) (j : Nat) : UInt8 := UInt8.ofNat (v >>> (j * 8)).toNat

def signedByte (v : BitVec 32) (j : Nat) : UInt8 := UInt8.ofNat (v.sshiftRight (j * 8)).toNat

def flatByteLiteral (n : Nat) : FlatOutcome UInt8 :=
  if n < 256 then .ok (UInt8.ofNat n) else .fault .constant

def copyTail (buf : Bytes) (offset : Nat) (src : Bytes) : FlatOutcome Bytes :=
  if offset ≤ buf.length then .ok (overwrite buf offset (src.take (buf.length - offset)))
  else .fault .slice

def dynamicSizeField : (k : Kind) → GoVal k → Nat
  | .string, v | .binary, v => if 0 < (Slice.bytes v).length then 4 + (Slice.bytes v).length else 0
  | _, _ => 0

def dynamicSize (s : StructNode) (x : GoStruct s) : Nat :=
  ((positions s).map fun c => dynamicSizeField (kindAt s c) (x c)).sum

def marshalFlatWord (n : Nat) {w : Nat} (v : BitVec w) (offset : Nat) (buf : Bytes)
    (currentStringOffset : Nat) : FlatOutcome (Bytes × Nat) := do
  let buf ← storeWord n buf (4 + offset) (wordByte v)
  pure (buf, currentStringOffset)

/-- The statements of a string field: the relative offset in the slot, the length and the bytes in the
string area. -/
def marshalFlatString (v : Bytes) (offset : Nat) (buf : Bytes) (currentStringOffset : Nat) :
    FlatOutcome (Bytes × Nat) :=
  if 0 < v.length then do
    let relOffset := BitVec.ofInt 32 (currentStringOffset - (4 + offset : Int))
    let buf ← storeWord 4 buf (4 + offset) (wordByte relOffset)
    let strLen := BitVec.ofNat 32 v.length
    let buf ← storeWord 4 buf currentStringOffset (wordByte strLen)
    let buf ← copyTail buf (currentStringOffset + 4) v
    pure (buf, currentStringOffset + (4 + v.length))
  else pure (buf, currentStringOffset)

def marshalFlatField : (k : Kind) → GoVal k → Nat → Bytes → Nat → FlatOutcome (Bytes × Nat)
  | .int32, v, offset, buf, currentStringOffset =>
    marshalFlatWord 4 (w := 32) v offset buf currentStringOffset
  | .int64, v, offset, buf, currentStringOffset =>
    marshalFlatWord 8 (w := 64) v offset buf currentStringOffset
  | .bool, v, offset, buf, currentStringOffset =>
    match (v : Bool) with
    | true => do
        let buf ← store buf (4 + offset) 1
        pure (buf, currentStringOffset)
    | false => pure (buf, currentStringOffset)
  | .string, v, offset, buf, currentStringOffset =>
    marshalFlatString (Slice.bytes v) offset buf currentStringOffset
  | _, _, _, buf, currentStringOffset => pure (buf, currentStringOffset)

def storeLiteral (buf : Bytes) (offset n : Nat) : FlatOutcome Bytes := do
  let low ← flatByteLiteral n
  let buf ← store buf offset low
  let high ← flatByteLiteral (n >>> 8)
  store buf (offset + 1) high

def marshalVtable (s : StructNode) (buf : Bytes) (vtableStart : Nat) : FlatOutcome Bytes := do
  let buf ← storeLiteral buf vtableStart (vtableSize s)
  let buf ← storeLiteral buf (vtableStart + 2) (tableSize s)
  (offsets s).zipIdx.foldlM (fun buf p => storeLiteral buf (vtableStart + 4 + 2 * p.2) p.1) buf

def marshalFlatBuffers (s : StructNode) (x : GoStruct s) : FlatOutcome Bytes := do
  let buf := replicate (4 + tableSize s + dynamicSize s x + vtableSize s) 0
  let buf ← store buf 0 4
  let vtableStart := 4 + tableSize s + dynamicSize s x
  let vtableOffset := BitVec.ofNat 32 (vtableStart - 4)
  let buf ← storeWord 4 buf 4 (signedByte vtableOffset)
  let (buf, _) ← ((positions s).zip (offsets s)).foldlM
    (fun st p => marshalFlatField (kindAt s p.1) (x p.1) p.2 st.1 st.2) (buf, 4 + tableSize s)
  marshalVtable s buf vtableStart

def marshalFlatBuffersCompiles (s : StructNode) : Bool := s.fields.any fun f => f.kind = .string

def unmarshalFlatString (buf : Slice) (absOffset : Nat) (old : Slice) : FlatOutcome Slice :=
  if absOffset + 4 ≤ buf.bytes.length then do
    let relOffset : BitVec 32 ← loadWord 32 4 buf.bytes (absOffset + ·)
    let strStart := absOffset + relOffset.toNat
    if strStart + 4 ≤ buf.bytes.length then do
      let strLen : BitVec 32 ← loadWord 32 4 buf.bytes (strStart + ·)
      if strStart + 4 + strLen.toNat ≤ buf.bytes.length then
        buf.extract (strStart + 4 : Nat) (strStart + 4 + strLen.toNat : Nat)
      else pure old
    else pure old
  else pure old

def unmarshalFlatValue (buf : Slice) (absOffset : Nat) : (k : Kind) → GoVal k → FlatOutcome (GoVal k)
  | .int32, old =>
    if absOffset + 4 ≤ buf.bytes.length then loadWord 32 4 buf.bytes (absOffset + ·) else pure old
  | .int64, old =>
    if absOffset + 8 ≤ buf.bytes.length then loadWord 64 8 buf.bytes (absOffset + ·) else pure old
  | .bool, old =>
    if absOffset < buf.bytes.length then do
      let b : BitVec 8 ← loadWord 8 1 buf.bytes (absOffset + ·)
      pure (decide (b ≠ 0))
    else pure old
  | .string, old => unmarshalFlatString buf absOffset old
  | _, old => pure old

def unmarshalFlatField (keep : (k : Kind) → GoVal k → GoVal k → GoVal k) (s : StructNode) (buf : Slice)
    (rootOffset : BitVec 32) (vtableStart : Nat) (vtableSize : BitVec 16) (x : GoStruct s) (c : Fin s.fields.length) :
    FlatOutcome (GoStruct s) :=
  if 4 + 2 * c.val + 2 ≤ vtableSize.toNat then do
    let foffset : BitVec 16 ← loadWord 16 2 buf.bytes (vtableStart + (4 + 2 * c.val) + ·)
    if 0 < foffset.toNat then do
      let v ← unmarshalFlatValue buf (rootOffset.toNat + foffset.toNat) (kindAt s c) (x c)
      pure (Function.update x c (keep (kindAt s c) (x c) v))
    else pure x
  else pure x

/-- The offsets of the table and of its vtable; the bytes of the second are at `index`. -/
def flatHeader (index : BitVec 32 → Nat → Nat) (buf : Slice) : FlatOutcome (BitVec 32 × BitVec 32) :=
  if buf.bytes.length < 8 then .error .bufferTooSmall
  else do
    let rootOffset : BitVec 32 ← loadWord 32 4 buf.bytes (fun j => j)
    if buf.bytes.length < rootOffset.toNat + 4 then .error .invalidRootOffset
    else do
      let vtableOffset : BitVec 32 ← loadWord 32 4 buf.bytes (index rootOffset)
      pure (rootOffset, vtableOffset)

/-- The fields that the vtable has an entry for; `keep` decides between the old value and the one read. -/
def flatTable (keep : (k : Kind) → GoVal k → GoVal k → GoVal k) (s : StructNode) (buf : Slice) (rootOffset : BitVec 32)
    (vtableStart : Int) (x : GoStruct s) : FlatOutcome (GoStruct s) :=
  if vtableStart < 0 ∨ buf.len < vtableStart + 4 then .error .invalidVtableOffset
  else do
    let vtableSize : BitVec 16 ← loadWord 16 2 buf.bytes (vtableStart.toNat + ·)
    (positions s).foldlM (unmarshalFlatField keep s buf rootOffset vtableStart.toNat vtableSize) x

def goHeader : Slice → FlatOutcome (BitVec 32 × BitVec 32) :=
  flatHeader fun rootOffset j => (rootOffset + BitVec.ofNat 32 j).toNat

def unmarshalFlatBuffers (s : StructNode) (buf : Slice) (x : GoStruct s) : FlatOutcome (GoStruct s) := do
  let (rootOffset, vtableOffset) ← goHeader buf
  flatTable (fun _ _ v => v) s buf rootOffset (rootOffset.toNat + vtableOffset.toInt) x

def unmarshalFlatBuffersCompiles (s : StructNode) : Bool :=
  !s.fields.isEmpty && s.fields.all fun f => decide (FlatKind f.kind)

variable {w n offset vtableStart absOffset stringOffset stringOffset' : Nat} {buf v buf' : Bytes}
  {k : Kind} {s : StructNode} {x : GoStruct s}

theorem map_wordByte (v : BitVec w) (n : Nat) : (List.range n).map (wordByte v) = littleEndian n v.toNat := by
  rw [littleEndian_eq_map]
  apply map_congr_left
  intro j _
  rw [wordByte, BitVec.toNat_ushiftRight]

theorem signedByte_eq (v : BitVec 32) {j : Nat} (hj : j < 4) : signedByte v j = wordByte v j := by
  have hlow : (v.sshiftRight (j * 8)).setWidth 8 = (v >>> (j * 8)).setWidth 8 := by
    apply BitVec.eq_of_getLsbD_eq
    intro i hi
    have hin : j * 8 + i < 32 := by omega
    simp only [BitVec.getLsbD_setWidth, BitVec.getLsbD_sshiftRight, BitVec.getLsbD_ushiftRight]
    rw [if_pos hin, decide_eq_false (by omega : ¬ 32 ≤ i), Bool.not_false, Bool.true_and]
  apply UInt8.toNat_inj.1
  have hnat := congrArg BitVec.toNat hlow
  rw [BitVec.toNat_setWidth, BitVec.toNat_setWidth] at hnat
  rw [signedByte, wordByte, UInt8.toNat_ofNat', UInt8.toNat_ofNat']
  exact hnat

theorem map_signedByte (v : BitVec 32) : (List.range 4).map (signedByte v) = littleEndian 4 v.toNat := by
  rw [← map_wordByte v 4]
  apply map_congr_left
  intro j hj
  exact signedByte_eq v (mem_range.1 hj)

theorem storeWord_wordByte (v : BitVec w) (h : offset + n ≤ buf.length) :
    (storeWord n buf offset (wordByte v) : FlatOutcome Bytes) =
      .ok (overwrite buf offset (littleEndian n v.toNat)) := by rw [storeWord_eq _ h, map_wordByte]

theorem marshalFlatWord_eq (v : BitVec w) (currentStringOffset : Nat) (h : 4 + offset + n ≤ buf.length) :
    marshalFlatWord n v offset buf currentStringOffset = .ok (overwrite buf (4 + offset) (littleEndian n v.toNat),
    currentStringOffset) := by
  rw [marshalFlatWord, storeWord_wordByte v h]
  rfl

theorem marshalFlatString_eq {offset currentStringOffset : Nat} (hv : v ≠ [])
    (hslot : 4 + offset + 4 ≤ currentStringOffset)
    (hroom : currentStringOffset + (4 + v.length) ≤ buf.length) :
    marshalFlatString v offset buf currentStringOffset = .ok (overwrite (overwrite buf (4 + offset)
            (littleEndian 4 (currentStringOffset - (4 + offset)))) currentStringOffset
          (littleEndian 4 v.length ++ v), currentStringOffset + (4 + v.length)) := by
  have hpos : 0 < v.length := length_pos_of_ne_nil hv
  have hrel : littleEndian 4 (BitVec.ofInt 32 (currentStringOffset - (4 + offset : Int))).toNat =
      littleEndian 4 (currentStringOffset - (4 + offset)) := by
    rw [← littleEndian_mod 4 (currentStringOffset - (4 + offset)), BitVec.toNat_ofInt]
    congr 1
    omega
  have hsize : littleEndian 4 (BitVec.ofNat 32 v.length).toNat = littleEndian 4 v.length := by
    rw [BitVec.toNat_ofNat]
    exact littleEndian_mod 4 v.length
  obtain ⟨hfirst, hsecond, hcat⟩ := overwrite_text (currentStringOffset - (4 + offset)) hslot hroom
  rw [marshalFlatString, if_pos hpos]
  dsimp only
  rw [storeWord_wordByte _ (by omega), hrel, ok_bind, storeWord_wordByte _ (by rw [hfirst]; omega), hsize, ok_bind,
    copyTail, if_pos (by rw [hsecond]; omega), take_of_length_le (by rw [hsecond]; omega), hcat]
  rfl

theorem places_marshalFlatField (limit : Nat) (hk : FlatKind k) (v : GoVal k) :
    Places limit (marshalFlatField k v) k v := by
  cases k with
  | int32 =>
    refine places_of_word (k := .int32) (fun _ => rfl) rfl ?_
    intro offset buf stringOffset hroom
    exact marshalFlatWord_eq v stringOffset hroom
  | int64 =>
    refine places_of_word (k := .int64) (fun _ => rfl) rfl ?_
    intro offset buf stringOffset hroom
    exact marshalFlatWord_eq v stringOffset hroom
  | bool =>
    cases v with
    | false =>
      refine places_of_slot [] (Nat.zero_le _) (fun rel => rfl) rfl ?_
      intro offset buf stringOffset _
      rw [overwrite_nil]
      rfl
    | true =>
      refine places_of_slot [1] (by decide) (fun rel => rfl) rfl ?_
      intro offset buf stringOffset hroom
      rw [marshalFlatField, store_eq_overwrite 1 hroom]
      rfl
  | string =>
    by_cases hv : Slice.bytes v = []
    · refine places_of_empty hv ?_
      intro offset buf stringOffset
      rw [marshalFlatField, marshalFlatString, hv]
      rfl
    · refine places_of_text hv ?_
      intro offset buf stringOffset hslot hroom _
      exact marshalFlatString_eq hv hslot hroom
  | _ => exact hk.elim

theorem storeLiteral_eq (hn : n < 256) (h : offset + 2 ≤ buf.length) :
    storeLiteral buf offset n = .ok (overwrite buf offset (littleEndian 2 n)) := by
  have hlow : flatByteLiteral n = .ok (UInt8.ofNat n) := if_pos hn
  have hhigh : flatByteLiteral (n >>> 8) = .ok (UInt8.ofNat (n / 256)) := by
    rw [Nat.shiftRight_eq_div_pow]
    exact if_pos (by omega)
  have hlen : (overwrite buf offset [UInt8.ofNat n]).length = buf.length :=
    length_overwrite _ _ _ (by rw [length_singleton]; omega)
  have hcat := @overwrite_overwrite buf [UInt8.ofNat n] [UInt8.ofNat (n / 256)] offset (by rw [length_singleton, length_singleton]; omega)
  rw [length_singleton] at hcat
  rw [storeLiteral, hlow, ok_bind, store_eq_overwrite _ (by omega), ok_bind, hhigh,
    ok_bind, store_eq_overwrite _ (by rw [hlen]; omega), hcat]
  rfl

theorem lt_of_storeLiteral (h : storeLiteral buf offset n = .ok buf') : n < 256 := by
  obtain ⟨b, hlow, -⟩ := bind_eq_ok.1 h
  unfold flatByteLiteral at hlow
  split at hlow
  · rename_i hn
    exact hn
  · cases hlow

theorem marshalVtable_eq (hsize : tableSize s < 256) (h : vtableStart + vtableSize s ≤ buf.length) :
    marshalVtable s buf vtableStart = .ok (overwrite buf vtableStart (vtableBytes s)) :=
  vtable_eq (fun _ hn _ _ hroom => storeLiteral_eq (Nat.lt_of_le_of_lt hn hsize) hroom) (fun _ _ _ _ => rfl) h

theorem tableSize_lt_of_marshalVtable (h : marshalVtable s buf vtableStart = .ok buf') : tableSize s < 256 := by
  obtain ⟨buf₁, -, hrest⟩ := bind_eq_ok.1 h
  obtain ⟨buf₂, htable, -⟩ := bind_eq_ok.1 hrest
  exact lt_of_storeLiteral htable

theorem dynamicSize_text (v : Slice) : dynamicSizeField .string v = (textBytes .string v).length := by
  show (if 0 < v.bytes.length then 4 + v.bytes.length else 0) = (textEntry v.bytes).length
  unfold textEntry
  by_cases hv : v.bytes = []
  · rw [if_pos hv, if_neg (by rw [hv]; decide)]
    rfl
  · rw [if_neg hv, if_pos (length_pos_of_ne_nil hv), length_append, length_littleEndian]

theorem dynamicSize_eq (hflat : AllFlat s) (x : GoStruct s) : dynamicSize s x = textSize s x := by
  have hfield : ∀ c : Fin s.fields.length, dynamicSizeField (kindAt s c) (x c) =
      (textBytes (kindAt s c) (x c)).length := by
    intro c
    have hk := allFlat_at hflat c
    generalize x c = v
    generalize kindAt s c = k at hk v
    cases k with
    | int32 => rfl
    | int64 => rfl
    | bool => rfl
    | string => exact dynamicSize_text v
    | _ => exact hk.elim
  rw [dynamicSize, textSize, textPart, length_flatMap]
  exact congrArg sum (map_congr_left fun c _ => hfield c)

theorem marshalFlatBuffers_body (hflat : AllFlat s) (x : GoStruct s) : marshalFlatBuffers s x = marshalVtable s
    (bodyBytes x ++ replicate (vtableSize s) 0) (4 + tableSize s + textSize s x) := by
  obtain ⟨htotal, hlen⟩ := header_room x (show ([4] : Bytes).length ≤ 4 by decide)
  have hoffset : littleEndian 4 (BitVec.ofNat 32 (4 + tableSize s + textSize s x - 4)).toNat =
      littleEndian 4 (tableSize s + textSize s x) := by
    rw [BitVec.toNat_ofNat, show 4 + tableSize s + textSize s x - 4 = tableSize s + textSize s x by omega]
    exact littleEndian_mod 4 _
  have hfields := foldlM_fields x
    (fun c offset buf stringOffset => marshalFlatField (kindAt s c) (x c) offset buf stringOffset)
    (fun c => places_marshalFlatField _ (allFlat_at hflat c) (x c)) (Nat.le_refl _)
  rw [marshalFlatBuffers, dynamicSize_eq hflat]
  dsimp only
  rw [← totalSize, store_eq_overwrite 4 (by rw [length_replicate]; omega), ok_bind,
    storeWord_eq _ (by rw [hlen]; exact htotal), map_signedByte, hoffset, ok_bind,
    overwrite_header x [4] rfl, hfields, ok_bind]

theorem marshalFlatBuffers_eq (hflat : AllFlat s) (hsize : tableSize s < 256)
    (x : GoStruct s) : marshalFlatBuffers s x = .ok (flatBytes s x) := by
  rw [marshalFlatBuffers_body hflat, marshalVtable_eq hsize, overwrite_vtable]
  rw [length_append, length_bodyBytes, length_replicate]

theorem tableSize_lt_of_marshalFlatBuffers (hflat : AllFlat s)
    (h : marshalFlatBuffers s x = .ok buf) : tableSize s < 256 := by
  rw [marshalFlatBuffers_body hflat] at h
  exact tableSize_lt_of_marshalVtable h

theorem unmarshalFlatString_eq {buf : Slice} (hbuf : buf.bytes.length < 2 ^ 32) {v : Slice}
    (hslot : At buf.bytes absOffset (textSlot v.bytes (stringOffset - absOffset)))
    (htext : At buf.bytes stringOffset (textEntry v.bytes)) (hle : absOffset ≤ stringOffset)
    (old : Slice) : unmarshalFlatString buf absOffset old = .ok v := by
  have hroom := hslot.length_le
  rw [length_textSlot] at hroom
  rw [unmarshalFlatString, if_pos hroom]
  by_cases hv : v.bytes = []
  · -- the slot is zero: it points at itself, and is the length 0 there
    have hzero : At buf.bytes absOffset (littleEndian 4 0) := by
      rw [textSlot, if_pos hv, ← littleEndian_zero] at hslot
      exact hslot
    have hload := hzero.loadWord_littleEndian (ε := FlatError) (w := 32) (by decide)
    have hextract : buf.extract ((absOffset + 4 : Nat) : Int) ((absOffset + 4 : Nat) : Int) =
        (.ok v : FlatOutcome Slice) := by
      rw [Slice.extract_eq_ok (by omega) (by omega) (by unfold Slice.len; omega)]
      congr 1
      apply Slice.ext
      rw [hv]
      show (buf.bytes.take _).drop _ = []
      rw [drop_eq_nil_of_le]
      rw [length_take]
      omega
    simp only [hload, ok_bind, Nat.zero_mod, BitVec.toNat_ofNat, Nat.add_zero, if_pos hroom]
    exact hextract
  · rw [textSlot, if_neg hv] at hslot
    rw [textEntry, if_neg hv] at htext
    have hend := htext.length_le
    rw [length_append, length_littleEndian] at hend
    have hrel := hslot.loadWord_littleEndian (ε := FlatError) (w := 32) (by decide)
    have hlen := htext.left.loadWord_littleEndian (ε := FlatError) (w := 32) (by decide)
    have hbytes := htext.right
    rw [length_littleEndian] at hbytes
    have hrelNat : (BitVec.ofNat 32 ((stringOffset - absOffset) % 256 ^ 4)).toNat = stringOffset - absOffset := by
      rw [BitVec.toNat_ofNat]
      omega
    have hlenNat : (BitVec.ofNat 32 (v.bytes.length % 256 ^ 4)).toNat = v.bytes.length := by
      rw [BitVec.toNat_ofNat]
      omega
    have hextract : buf.extract ((stringOffset + 4 : Nat) : Int)
        ((stringOffset + 4 + v.bytes.length : Nat) : Int) = (.ok v : FlatOutcome Slice) := by
      rw [Slice.extract_eq_ok (by omega) (by omega) (by unfold Slice.len; omega)]
      congr 1
      apply Slice.ext
      exact hbytes.drop_take
    have hstart : absOffset + (stringOffset - absOffset) = stringOffset := by omega
    have hhead : stringOffset + 4 ≤ buf.bytes.length := by omega
    have htail : stringOffset + 4 + v.bytes.length ≤ buf.bytes.length := by omega
    simp only [hrel, ok_bind, hrelNat, hstart, if_pos hhead, hlen, hlenNat, if_pos htail]
    exact hextract

theorem loadWord_slot {v : BitVec w} (hw : w = 8 * n) (h : At buf absOffset (littleEndian n v.toNat)) :
    (loadWord w n buf (absOffset + ·) : FlatOutcome (BitVec w)) = .ok v := by
  rw [h.loadWord_littleEndian (by omega)]
  congr 1
  apply BitVec.eq_of_toNat_eq
  have hlt : v.toNat < 256 ^ n := by
    rw [show (256 : Nat) = 2 ^ 8 from rfl, ← Nat.pow_mul, ← hw]
    exact v.isLt
  rw [Nat.mod_eq_of_lt hlt, BitVec.toNat_ofNat, Nat.mod_eq_of_lt v.isLt]

theorem unmarshalFlatValue_eq {buf : Slice} (hbuf : buf.bytes.length < 2 ^ 32) (hk : FlatKind k)
    {v : GoVal k} (hslot : At buf.bytes absOffset (slotBytes k v (stringOffset - absOffset)))
    (htext : At buf.bytes stringOffset (textBytes k v)) (hle : absOffset ≤ stringOffset)
    (old : GoVal k) : unmarshalFlatValue buf absOffset k old = .ok v := by
  have hroom := hslot.length_le
  rw [length_slotBytes] at hroom
  cases k with
  | int32 => exact (if_pos hroom).trans (loadWord_slot (v := v) rfl hslot)
  | int64 => exact (if_pos hroom).trans (loadWord_slot (v := v) rfl hslot)
  | string => exact unmarshalFlatString_eq hbuf hslot htext hle old
  | bool =>
    have hroom' : absOffset < buf.bytes.length := Nat.lt_of_lt_of_le (Nat.lt_add_of_pos_right (by decide)) hroom
    have hflag : At buf.bytes absOffset [flagByte v] := hslot.left (b := [0, 0, 0])
    have hload := hflag.loadWord (ε := FlatError) (w := 8) (Nat.le_refl 8)
    refine (if_pos hroom').trans ?_
    rw [length_singleton] at hload
    rw [hload, ok_bind]
    cases v <;> rfl
  | _ => exact hk.elim

theorem unmarshalFlatBuffers_header {buf : Slice} (hbuf : buf.bytes = flatBytes s x) (x₀ : GoStruct s) :
    unmarshalFlatBuffers s buf x₀ = flatTable (fun _ _ v => v) s buf 4
      (4 + (BitVec.ofNat 32 (tableSize s + textSize s x)).toInt) x₀ := by
  obtain ⟨hroot, hoffset, -⟩ := header_at x
  rw [← hbuf] at hroot hoffset
  have hlen := hoffset.length_le
  rw [length_littleEndian] at hlen
  have hloadRoot := hroot.loadWord_littleEndian (ε := FlatError) (w := 32) (by decide)
  simp only [Nat.zero_add] at hloadRoot
  have hindex : ∀ j, j < 4 → ((4 : BitVec 32) + BitVec.ofNat 32 j).toNat = 4 + j := by
    intro j hj
    rw [BitVec.toNat_add, BitVec.toNat_ofNat]
    show (4 + j % 2 ^ 32) % 2 ^ 32 = 4 + j
    omega
  have hword : (BitVec.ofNat 32 (4 % 256 ^ 4)) = (4 : BitVec 32) := rfl
  have hloadOffset : (loadWord 32 4 buf.bytes
      (fun j => ((4 : BitVec 32) + BitVec.ofNat 32 j).toNat) : FlatOutcome (BitVec 32)) =
      .ok (BitVec.ofNat 32 (tableSize s + textSize s x)) := by
    have hload := loadWord_eq (ε := FlatError) (w := 32)
      (littleEndian 4 (tableSize s + textSize s x))
      (fun j => ((4 : BitVec 32) + BitVec.ofNat 32 j).toNat) (by rw [length_littleEndian])
      (fun j hj => by
        rw [hindex j (by rw [length_littleEndian] at hj; exact hj)]
        exact hoffset.getElem? hj)
    rw [length_littleEndian, ofLittleEndian_littleEndian] at hload
    rw [hload]
    congr 1
    apply BitVec.eq_of_toNat_eq
    rw [BitVec.toNat_ofNat, BitVec.toNat_ofNat]
    exact Nat.mod_mod _ _
  have hfour : (4 : BitVec 32).toNat = 4 := rfl
  rw [unmarshalFlatBuffers, goHeader, flatHeader, if_neg (by omega), hloadRoot, ok_bind, hword, hfour,
    if_neg (by omega), hloadOffset]
  rfl

theorem unmarshalFlatBuffers_flatBytes (hflat : AllFlat s) (hsize : tableSize s < 2 ^ 16) {buf : Slice}
    (hbuf : buf.bytes = flatBytes s x) (hsmall : tableSize s + textSize s x < 2 ^ 31) (x₀ : GoStruct s) :
    unmarshalFlatBuffers s buf x₀ = .ok x := by
  have hvtable := vtableSize_le_tableSize s
  have hlen : buf.bytes.length = totalSize s (textSize s x) := by rw [hbuf, length_flatBytes]
  have hv4 : 4 ≤ vtableSize s := Nat.le_add_right _ _
  have hoffset : (BitVec.ofNat 32 (tableSize s + textSize s x)).toInt = (tableSize s + textSize s x : Nat) := by
    rw [BitVec.toInt_eq_toNat_cond, BitVec.toNat_ofNat]
    omega
  have hstart : (4 : Int) + (tableSize s + textSize s x : Nat) = (4 + tableSize s + textSize s x : Nat) := by omega
  unfold totalSize at hlen
  rw [unmarshalFlatBuffers_header hbuf, flatTable, hoffset, hstart, if_neg (by unfold Slice.len; omega), Int.toNat_natCast]
  have hword := (header_at x).2.2
  rw [← hbuf] at hword
  rw [hword.loadWord_littleEndian (by decide), ok_bind]
  refine foldlM_assign x ?_ x₀
  intro acc c
  obtain ⟨offset, stringOffset, hfield⟩ := exists_fieldAt x c
  rw [← hbuf] at hfield
  have hc : c.val < s.fields.length := c.isLt
  have hmem := offset_lt_tableSize hfield.mem
  have hsizeNat : (BitVec.ofNat 16 (vtableSize s % 256 ^ 2)).toNat = vtableSize s := by
    rw [BitVec.toNat_ofNat]
    omega
  have hoffsetNat : (BitVec.ofNat 16 (offset % 256 ^ 2)).toNat = offset := by
    rw [BitVec.toNat_ofNat]
    omega
  have hentry := hfield.entry.loadWord_littleEndian (ε := FlatError) (w := 16) (by decide)
  have hvalue := unmarshalFlatValue_eq (by omega) (allFlat_at hflat c) hfield.slot hfield.text hfield.slot_le (acc c)
  have hfour : (4 : BitVec 32).toNat = 4 := rfl
  rw [unmarshalFlatField, hsizeNat, if_pos (by unfold vtableSize; omega), hentry, ok_bind,
    hoffsetNat, if_pos hfield.pos, hfour, hvalue]
  rfl

theorem unmarshalFlatBuffers_large {buf : Slice} (hbuf : buf.bytes = flatBytes s x)
    (hlarge : 2 ^ 31 ≤ tableSize s + textSize s x) (hlt : tableSize s + textSize s x + 4 < 2 ^ 32) (x₀ : GoStruct s) :
    unmarshalFlatBuffers s buf x₀ = .error .invalidVtableOffset := by
  have hoffset : 4 + (BitVec.ofNat 32 (tableSize s + textSize s x)).toInt < 0 := by
    rw [BitVec.toInt_eq_toNat_cond, BitVec.toNat_ofNat]
    omega
  rw [unmarshalFlatBuffers_header hbuf]
  exact if_pos (.inl hoffset)

def WritesOnly (regions : List Region) (buf buf' : Bytes) : Prop := ∀ i, (∀ r ∈ regions, ¬ r.Has i) → buf'[i]? = buf[i]?

theorem WritesOnly.refl (regions : List Region) (buf : Bytes) : WritesOnly regions buf buf :=
  fun _ _ => rfl

theorem WritesOnly.trans {regions : List Region} {buf₁ buf₂ buf₃ : Bytes} (h₁ : WritesOnly regions buf₁ buf₂)
    (h₂ : WritesOnly regions buf₂ buf₃) : WritesOnly regions buf₁ buf₃ := fun i hi => (h₂ i hi).trans (h₁ i hi)

theorem writesOnly_store {regions : List Region} {b : UInt8} (hin : ∃ r ∈ regions, r.Has offset)
    (h : (store buf offset b : FlatOutcome Bytes) = .ok buf') : WritesOnly regions buf buf' := by
  intro i hi
  have hne : offset ≠ i := by
    rintro rfl
    obtain ⟨r, hr, hhas⟩ := hin
    exact hi r hr hhas
  unfold store at h
  split at h
  · cases h
    exact getElem?_set_ne hne
  · cases h

theorem writesOnly_storeWord {regions : List Region} {byteAt : Nat → UInt8} (hin : ∀ j, j < n → ∃ r ∈ regions,
    r.Has (offset + j)) (h : (storeWord n buf offset byteAt : FlatOutcome Bytes) =
    .ok buf') : WritesOnly regions buf buf' := by
  induction n generalizing buf' with
  | zero =>
    cases h
    exact .refl regions buf
  | succ n ih =>
    unfold storeWord at h ih
    rw [range_succ, foldlM_append] at h
    obtain ⟨buf₁, hfirst, hlast⟩ := bind_eq_ok.1 h
    rw [foldlM_cons] at hlast
    obtain ⟨buf₂, hstore, hpure⟩ := bind_eq_ok.1 hlast
    cases hpure
    exact (ih (fun j hj => hin j (by omega)) hfirst).trans (writesOnly_store (hin n (by omega)) hstore)

theorem writesOnly_copyTail {regions : List Region} {src buf buf' : Bytes} (hin : ∀ j, j < src.length → ∃ r ∈ regions,
    r.Has (offset + j)) (h : copyTail buf offset src = .ok buf') : WritesOnly regions buf buf' := by
  intro i hi
  unfold copyTail at h
  split at h
  · rename_i hle
    cases h
    have hout : i < offset ∨ offset + src.length ≤ i := by
      by_contra hbetween
      obtain ⟨r, hr, hhas⟩ := hin (i - offset) (by omega)
      rw [show offset + (i - offset) = i by omega] at hhas
      exact hi r hr hhas
    have htake : (buf.take offset).length = offset := by
      rw [length_take]
      omega
    rw [overwrite, append_assoc]
    rcases hout with hlt | hge
    · rw [getElem?_append_left (by omega), getElem?_take_of_lt hlt]
    · have hcopied : (src.take (buf.length - offset)).length ≤ src.length := by
        rw [length_take]
        omega
      rw [getElem?_append_right (by omega), getElem?_append_right (by omega), getElem?_drop, htake]
      by_cases hend : i < buf.length
      · have hall : (src.take (buf.length - offset)).length ≤ i - offset := by
          rw [length_take]
          omega
        congr 1
        omega
      · rw [getElem?_eq_none (by rw [length_take]; omega), getElem?_eq_none (by omega)]
  · cases h

theorem writesOnly_marshalFlatString (h : marshalFlatString v offset buf stringOffset = .ok (buf', stringOffset')) :
    WritesOnly [slotRegion offset .string, ⟨stringOffset, stringOffset' - stringOffset⟩] buf buf' := by
  unfold marshalFlatString at h
  split at h
  · obtain ⟨buf₁, hrel, h⟩ := bind_eq_ok.1 h
    obtain ⟨buf₂, hlen, h⟩ := bind_eq_ok.1 h
    obtain ⟨buf₃, hcopy, hpure⟩ := bind_eq_ok.1 h
    obtain rfl : buf₃ = buf' := congrArg Prod.fst (ok.inj hpure)
    have hend : stringOffset + (4 + v.length) = stringOffset' := congrArg Prod.snd (ok.inj hpure)
    have hslot : ∀ j, j < 4 → ∃ r ∈ [slotRegion offset .string, ⟨stringOffset, stringOffset' - stringOffset⟩],
          r.Has (4 + offset + j) := by
      intro j hj
      exact ⟨slotRegion offset .string, mem_cons_self .., Nat.le_add_right _ _, Nat.add_lt_add_left hj _⟩
    have htext : ∀ j, j < 4 + v.length →
        ∃ r ∈ [slotRegion offset .string, ⟨stringOffset, stringOffset' - stringOffset⟩], r.Has (stringOffset + j) := by
      intro j hj
      refine ⟨⟨stringOffset, stringOffset' - stringOffset⟩, by simp, Nat.le_add_right _ _, ?_⟩
      show stringOffset + j < stringOffset + (stringOffset' - stringOffset)
      omega
    refine ((writesOnly_storeWord hslot hrel).trans (writesOnly_storeWord (fun j hj => htext j (by omega)) hlen)).trans
      (writesOnly_copyTail (fun j hj => ?_) hcopy)
    rw [Nat.add_assoc]
    exact htext (4 + j) (by omega)
  · obtain rfl : buf = buf' := congrArg Prod.fst (ok.inj h)
    exact .refl _ buf

theorem writesOnly_marshalFlatField {v : GoVal k}
    (h : marshalFlatField k v offset buf stringOffset = .ok (buf', stringOffset')) :
    WritesOnly [slotRegion offset k, ⟨stringOffset, stringOffset' - stringOffset⟩] buf buf' := by
  have hslot : ∀ j, j < fieldSize k → ∃ r ∈ [slotRegion offset k, ⟨stringOffset, stringOffset' - stringOffset⟩],
        r.Has (4 + offset + j) := by
    intro j hj
    exact ⟨slotRegion offset k, mem_cons_self .., Nat.le_add_right _ _, Nat.add_lt_add_left hj _⟩
  have hsame : ∀ {b : Bytes} {n : Nat}, (.ok (b, n) : FlatOutcome (Bytes × Nat)) =
      .ok (buf', stringOffset') → b = buf' := by
    intro b n heq
    exact congrArg Prod.fst (ok.inj heq)
  cases k with
  | int32 =>
    obtain ⟨buf₁, hstore, hpure⟩ := bind_eq_ok.1 h
    obtain rfl := hsame hpure
    exact writesOnly_storeWord hslot hstore
  | int64 =>
    obtain ⟨buf₁, hstore, hpure⟩ := bind_eq_ok.1 h
    obtain rfl := hsame hpure
    exact writesOnly_storeWord hslot hstore
  | bool =>
    cases v with
    | false =>
      obtain rfl := hsame h
      exact .refl _ buf
    | true =>
      obtain ⟨buf₁, hstore, hpure⟩ := bind_eq_ok.1 h
      obtain rfl := hsame hpure
      exact writesOnly_store (hslot 0 (by decide)) hstore
  | string => exact writesOnly_marshalFlatString h
  | _ =>
    obtain rfl := hsame h
    exact .refl _ buf

theorem writesOnly_storeLiteral {regions : List Region} (hin : ∀ j, j < 2 → ∃ r ∈ regions, r.Has (offset + j))
    (h : storeLiteral buf offset n = .ok buf') : WritesOnly regions buf buf' := by
  obtain ⟨low, -, h⟩ := bind_eq_ok.1 h
  obtain ⟨buf₁, hlow, h⟩ := bind_eq_ok.1 h
  obtain ⟨high, -, hhigh⟩ := bind_eq_ok.1 h
  exact (writesOnly_store (hin 0 (by decide)) hlow).trans (writesOnly_store (hin 1 (by decide)) hhigh)

theorem writesOnly_marshalVtable {dynamicSize : Nat}
    (h : marshalVtable s buf (4 + tableSize s + dynamicSize) = .ok buf') :
    WritesOnly [vtableRegion s dynamicSize] buf buf' := by
  have hin : ∀ j, j < vtableSize s → ∃ r ∈ [vtableRegion s dynamicSize], r.Has (4 + tableSize s + dynamicSize + j) := by
    intro j hj
    exact ⟨_, mem_cons_self .., Nat.le_add_right _ _, Nat.add_lt_add_left hj _⟩
  have hwords : ∀ (vs : List Nat) (idx : Nat) (buf : Bytes), 4 + 2 * (idx + vs.length) ≤ vtableSize s →
      (vs.zipIdx idx).foldlM (fun buf p =>
        storeLiteral buf (4 + tableSize s + dynamicSize + 4 + 2 * p.2) p.1) buf = .ok buf' →
      WritesOnly [vtableRegion s dynamicSize] buf buf' := by
    intro vs
    induction vs with
    | nil =>
      intro idx buf _ hrun
      obtain rfl := ok.inj hrun
      exact .refl _ buf
    | cons v vs ih =>
      intro idx buf hroom hrun
      rw [length_cons] at hroom
      rw [zipIdx_cons, foldlM_cons] at hrun
      obtain ⟨buf₁, hstore, hrest⟩ := bind_eq_ok.1 hrun
      refine (writesOnly_storeLiteral (fun j hj => ?_) hstore).trans (ih (idx + 1) buf₁ (by omega) hrest)
      rw [show 4 + tableSize s + dynamicSize + 4 + 2 * idx + j =
        4 + tableSize s + dynamicSize + (4 + 2 * idx + j) by omega]
      exact hin _ (by omega)
  have hoffsets := length_offsets s
  have hsize : vtableSize s = 4 + 2 * s.fields.length := rfl
  obtain ⟨buf₁, hfirst, h⟩ := bind_eq_ok.1 h
  obtain ⟨buf₂, hsecond, hrest⟩ := bind_eq_ok.1 h
  refine ((writesOnly_storeLiteral (fun j hj => hin j (by omega)) hfirst).trans
    (writesOnly_storeLiteral (fun j hj => ?_) hsecond)).trans
    (hwords (offsets s) 0 buf₂ (by omega) hrest)
  rw [Nat.add_assoc]
  exact hin (2 + j) (by omega)

def stringLength : (k : Kind) → GoVal k → Nat
  | .string, v => (Slice.bytes v).length
  | _, _ => 0

def stringBytes (s : StructNode) (x : GoStruct s) : Nat :=
  ((positions s).map fun c => stringLength (kindAt s c) (x c)).sum

/-- The methods exist; the encoder stays inside its buffer, each field in its slot and its part of the string area,
and the vtable behind them; and the decoder returns the value. -/
structure FlatRoundTrip (s : StructNode) (x : GoStruct s) : Prop where
  compiles : marshalFlatBuffersCompiles s = true ∧ unmarshalFlatBuffersCompiles s = true
  field_writes : ∀ (c : Fin s.fields.length) (offset stringOffset stringOffset' : Nat)
    (buf buf' : Bytes), marshalFlatField (kindAt s c) (x c) offset buf stringOffset = .ok (buf', stringOffset') →
    WritesOnly [slotRegion offset (kindAt s c), ⟨stringOffset, stringOffset' - stringOffset⟩] buf buf'
  vtable_writes : ∀ buf buf' : Bytes, marshalVtable s buf (4 + tableSize s + dynamicSize s x) = .ok buf' →
    WritesOnly [vtableRegion s (dynamicSize s x)] buf buf'
  disjoint : (regions s (dynamicSize s x)).Pairwise Region.Disjoint
  inside : ∀ r ∈ regions s (dynamicSize s x), r.start + r.size ≤ totalSize s (dynamicSize s x)
  returns : ∃ buf, marshalFlatBuffers s x = .ok buf ∧ buf.length = totalSize s (dynamicSize s x) ∧
    ∀ dAtA : Slice, dAtA.bytes = buf → unmarshalFlatBuffers s dAtA (GoStruct.zero s) = .ok x

theorem marshalFlatBuffersCompiles_iff (s : StructNode) :
    marshalFlatBuffersCompiles s = true ↔ ∃ f ∈ s.fields, f.kind = .string := by
  simp [marshalFlatBuffersCompiles]

theorem unmarshalFlatBuffersCompiles_of_string (hflat : AllFlat s)
    (h : ∃ f ∈ s.fields, f.kind = .string) : unmarshalFlatBuffersCompiles s = true := by
  obtain ⟨f, hf, -⟩ := h
  have hne : s.fields.isEmpty = false := by
    rw [isEmpty_eq_false_iff]
    exact ne_nil_of_mem hf
  rw [unmarshalFlatBuffersCompiles, hne, all_eq_true.2]
  · rfl
  · exact fun g hg => decide_eq_true (hflat g hg)

theorem textSize_le (x : GoStruct s) : textSize s x ≤ stringBytes s x + 4 * s.fields.length := by
  have hfield : ∀ {k : Kind} (v : GoVal k), (textBytes k v).length ≤ stringLength k v + 4 := by
    intro k v
    cases k with
    | string =>
      show (textEntry (Slice.bytes v)).length ≤ (Slice.bytes v).length + 4
      unfold textEntry
      split
      · exact Nat.zero_le _
      · rw [length_append, length_littleEndian, Nat.add_comm]
    | _ => exact Nat.zero_le _
  have hsum : ∀ cs : List (Fin s.fields.length), (textPart s x cs).length ≤
        (cs.map fun c => stringLength (kindAt s c) (x c)).sum + 4 * cs.length := by
    intro cs
    induction cs with
    | nil => exact Nat.zero_le _
    | cons c cs ih =>
      have hc := hfield (x c)
      have hcons : textPart s x (c :: cs) = textBytes (kindAt s c) (x c) ++ textPart s x cs := flatMap_cons
      rw [hcons, length_append, map_cons, sum_cons, length_cons]
      omega
  have hall := hsum (positions s)
  rw [show (positions s).length = s.fields.length from length_finRange] at hall
  exact hall

/-- The round trip works exactly for structs with a string field whose table has at most 255 bytes, and
values whose vtable starts less than `2 ^ 31` bytes behind the table. -/
theorem flatBuffers_roundTrip_iff {s : StructNode} (hflat : AllFlat s) (htable : tableSize s < 2 ^ 16) {x : GoStruct s}
    (hstrings : stringBytes s x < 2 ^ 31) : FlatRoundTrip s x ↔ (∃ f ∈ s.fields, f.kind = .string) ∧ tableSize s ≤ 255 ∧
    tableSize s + dynamicSize s x < 2 ^ 31 := by
  have hdynamic := dynamicSize_eq hflat x
  have htext := textSize_le x
  have hvtable := vtableSize_le_tableSize s
  have hfields : 4 + 2 * s.fields.length ≤ tableSize s := hvtable
  have hlen := length_flatBytes x
  constructor
  · intro h
    obtain ⟨buf, hmarshal, -, hunmarshal⟩ := h.returns
    have hsize := tableSize_lt_of_marshalFlatBuffers hflat hmarshal
    refine ⟨(marshalFlatBuffersCompiles_iff s).1 h.compiles.1, by omega, ?_⟩
    rw [marshalFlatBuffers_eq hflat hsize] at hmarshal
    cases hmarshal
    have hslice : (flatBytes s x).length < 2 ^ 63 := by
      rw [hlen, totalSize]
      omega
    by_contra hlarge
    have hbuf : (⟨flatBytes s x, hslice⟩ : Slice).bytes = flatBytes s x := rfl
    have herror := unmarshalFlatBuffers_large hbuf (by omega) (by omega) (GoStruct.zero s)
    rw [hunmarshal ⟨flatBytes s x, hslice⟩ rfl] at herror
    cases herror
  · rintro ⟨hstring, hsize, hsmall⟩
    refine ⟨⟨(marshalFlatBuffersCompiles_iff s).2 hstring, unmarshalFlatBuffersCompiles_of_string hflat hstring⟩,
      fun c offset stringOffset stringOffset' buf buf' hrun => writesOnly_marshalFlatField hrun,
      fun buf buf' hrun => writesOnly_marshalVtable hrun, regions_disjoint s _, fun r hr => regions_inside hr,
      flatBytes s x, marshalFlatBuffers_eq hflat (Nat.lt_succ_of_le hsize) x, by rw [hlen, hdynamic], ?_⟩
    intro dAtA hbytes
    exact unmarshalFlatBuffers_flatBytes hflat htable hbytes (by omega) _

def account : StructNode where
  name := "Account"
  fields := [⟨"active", 1, ⟨.bool, "", none, none⟩, false⟩, ⟨"balance", 2, ⟨.int64, "", none, none⟩, false⟩,
    ⟨"owner", 3, ⟨.string, "", none, none⟩, false⟩, ⟨"level", 4, ⟨.int32, "", none, none⟩, false⟩,
    ⟨"note", 5, ⟨.string, "", none, none⟩, false⟩]

def openAccount : GoStruct account
  | ⟨0, _⟩ => true
  | ⟨1, _⟩ => (-5 : BitVec 64)
  | ⟨2, _⟩ => (⟨[0x6f, 0x6b], by decide⟩ : Slice)
  | ⟨3, _⟩ => (7 : BitVec 32)
  | ⟨4, _⟩ => Slice.empty

theorem flatBuffers_roundTrip_iff_account : tableSize account = 28 ∧ dynamicSize account openAccount = 6 ∧
      FlatRoundTrip account openAccount :=
  ⟨by decide, by decide,
    (flatBuffers_roundTrip_iff (s := account) (x := openAccount) (by decide) (by decide) (by decide)).2 (by decide)⟩

def position : StructNode where
  name := "Position"
  fields := [⟨"x", 1, ⟨.int32, "", none, none⟩, false⟩, ⟨"y", 2, ⟨.int32, "", none, none⟩, false⟩]

def catalogue : StructNode where
  name := "Catalogue"
  fields := (List.range 64).map fun i =>
    ⟨"item" ++ toString i, BitVec.ofNat 32 (i + 1), ⟨.string, "", none, none⟩, false⟩

theorem flatBuffers_rejected : AllFlat position ∧ marshalFlatBuffersCompiles position = false ∧ (∀ x,
    ¬ FlatRoundTrip position x) ∧ AllFlat catalogue ∧ tableSize catalogue = 260 ∧ ∀ x, ¬ FlatRoundTrip catalogue x := by
  have hflat : AllFlat catalogue := by decide +kernel
  have hsize : tableSize catalogue = 260 := by decide +kernel
  refine ⟨by decide, by decide, ?_, hflat, hsize, ?_⟩
  · intro x h
    exact absurd h.compiles.1 (by decide)
  · intro x h
    obtain ⟨buf, hmarshal, -, -⟩ := h.returns
    have hlt := tableSize_lt_of_marshalFlatBuffers hflat hmarshal
    omega

end HelixRpc.Codegen.Go
