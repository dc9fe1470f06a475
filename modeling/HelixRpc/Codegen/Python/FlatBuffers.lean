import HelixRpc.Codegen.FlatBuffers.Layout
import HelixRpc.Codegen.Python.FromProto

/-!
# `marshal_flatbuffers` and `unmarshal_flatbuffers` of the generated Python code

Model of the two methods that `GeneratePython` writes for every struct.
-/

namespace HelixRpc.Codegen.Python

open Foundation Compiler Codegen.Go Codegen.FlatBuffers List Outcome

def truthy : PyVal → Bool
  | .none => false
  | .int n => n ≠ 0
  | .text s => s ≠ ""
  | .bytes b => b ≠ []
  | .bool b => b
  | .float raw => raw ≠ replicate 8 0 && raw ≠ replicate 7 0 ++ [0x80]

def orZero (v : PyVal) : PyVal := if truthy v then v else .int 0

def encodeText (v : PyVal) : Outcome Failure Bytes :=
  if truthy v then
    match v with
    | .text s => .ok (utf8Bytes s)
    | _ => .error .attribute
  else .ok []

def packSigned (n : Nat) (v : Int) : Outcome Failure Bytes :=
  if -2 ^ (8 * n - 1) ≤ v ∧ v < 2 ^ (8 * n - 1) then .ok (littleEndian n (v % 256 ^ n).toNat)
  else .error .unpack

def packUnsigned (n v : Nat) : Outcome Failure Bytes :=
  if v < 256 ^ n then .ok (littleEndian n v) else .error .unpack

def packValue (n : Nat) : PyVal → Outcome Failure Bytes
  | .int v => packSigned n v
  | .bool b => packSigned n (if b then 1 else 0)
  | _ => .error .unpack

def packInto (buf : Bytes) (offset : Nat) (bs : Bytes) : Outcome Failure Bytes :=
  if offset + bs.length ≤ buf.length then .ok (overwrite buf offset bs) else .error .unpack

def unpackFrom (n : Nat) (buf : Bytes) (offset : Nat) : Outcome Failure Nat :=
  if offset + n ≤ buf.length then .ok (ofLittleEndian (slice buf offset n)) else .error .unpack

def signedOf (n v : Nat) : Int := if v < 2 ^ (8 * n - 1) then v else v - 256 ^ n

def dynamicSizeField (k : Kind) (v : PyVal) : Outcome Failure Nat :=
  match k with
  | .string | .binary => do
      let str ← encodeText v
      pure (if str ≠ [] then 4 + str.length else 0)
  | _ => pure 0

variable (s : StructNode)

def dynamicSize (y : Fin s.fields.length → PyVal) : Outcome Failure Nat :=
  (positions s).foldlM (fun size c => do
    let n ← dynamicSizeField (kindAt s c) (y c)
    pure (size + n)) 0

/-- The statements of a string field. -/
def marshalFlatText (str : Bytes) (offset : Nat) (buf : Bytes) (currentStringOffset : Nat) :
    Outcome Failure (Bytes × Nat) :=
  if str ≠ [] then do
    let relOffset := currentStringOffset - (4 + offset)
    let rel ← packUnsigned 4 relOffset
    let buf ← packInto buf (4 + offset) rel
    let len ← packUnsigned 4 str.length
    let buf ← packInto buf currentStringOffset len
    let buf := overwrite buf (currentStringOffset + 4) str
    pure (buf, currentStringOffset + (4 + str.length))
  else pure (buf, currentStringOffset)

def marshalFlatField (k : Kind) (v : PyVal) (offset : Nat) (buf : Bytes) (currentStringOffset : Nat) :
    Outcome Failure (Bytes × Nat) :=
  match k with
  | .int32 => do
      let bs ← packValue 4 (orZero v)
      let buf ← packInto buf (4 + offset) bs
      pure (buf, currentStringOffset)
  | .int64 => do
      let bs ← packValue 8 (orZero v)
      let buf ← packInto buf (4 + offset) bs
      pure (buf, currentStringOffset)
  | .bool => do
      let buf ← packInto buf (4 + offset) [flagByte (truthy v)]
      pure (buf, currentStringOffset)
  | .string => do
      let str ← encodeText v
      marshalFlatText str offset buf currentStringOffset
  | _ => pure (buf, currentStringOffset)

variable (buf : Bytes)

def marshalVtable (vtableStart : Nat) : Outcome Failure Bytes := do
  let size ← packUnsigned 2 (vtableSize s)
  let table ← packUnsigned 2 (tableSize s)
  let buf ← packInto buf vtableStart (size ++ table)
  (offsets s).zipIdx.foldlM (fun buf p => do
    let entry ← packUnsigned 2 p.1
    packInto buf (vtableStart + 4 + 2 * p.2) entry) buf

def marshalFlatbuffers (y : Fin s.fields.length → PyVal) : Outcome Failure Bytes := do
  let dynamicSize ← dynamicSize s y
  let buf := replicate (4 + tableSize s + dynamicSize + vtableSize s) 0
  let root ← packUnsigned 4 4
  let buf ← packInto buf 0 root
  let vtableStart := 4 + tableSize s + dynamicSize
  let vtableOffset := vtableStart - 4
  let offset ← packSigned 4 vtableOffset
  let buf ← packInto buf 4 offset
  let (buf, _) ← ((positions s).zip (offsets s)).foldlM
    (fun st p => marshalFlatField (kindAt s p.1) (y p.1) p.2 st.1 st.2) (buf, 4 + tableSize s)
  marshalVtable s buf vtableStart

def flatDefault : Kind → PyVal
  | .string => .text ""
  | .bool => .bool false
  | _ => .int 0

def unmarshalFlatText (absOffset : Nat) (old : PyVal) : Outcome Failure PyVal :=
  if absOffset + 4 ≤ buf.length then do
    let relOffset ← unpackFrom 4 buf absOffset
    let strStart := absOffset + relOffset
    if strStart + 4 ≤ buf.length then do
      let strLen ← unpackFrom 4 buf strStart
      if strStart + 4 + strLen ≤ buf.length then
        match decodeUtf8 (slice buf (strStart + 4) strLen) with
        | some text => pure (.text text)
        | none => .error .decode
      else pure old
    else pure old
  else pure old

def unmarshalFlatValue (absOffset : Nat) (k : Kind) (old : PyVal) : Outcome Failure PyVal :=
  match k with
  | .int32 =>
    if absOffset + 4 ≤ buf.length then do
      let v ← unpackFrom 4 buf absOffset
      pure (.int (signedOf 4 v))
    else pure old
  | .int64 =>
    if absOffset + 8 ≤ buf.length then do
      let v ← unpackFrom 8 buf absOffset
      pure (.int (signedOf 8 v))
    else pure old
  | .bool =>
    if absOffset < buf.length then do
      let v ← unpackFrom 1 buf absOffset
      pure (.bool (v ≠ 0))
    else pure old
  | .string => unmarshalFlatText buf absOffset old
  | _ => pure old

def unmarshalFlatField (rootOffset vtableStart vtableSize : Nat)
    (y : Fin s.fields.length → PyVal) (c : Fin s.fields.length) :
    Outcome Failure (Fin s.fields.length → PyVal) :=
  if 4 + 2 * c.val + 2 ≤ vtableSize then do
    let foffset ← unpackFrom 2 buf (vtableStart + (4 + 2 * c.val))
    if 0 < foffset then do
      let v ← unmarshalFlatValue buf (rootOffset + foffset) (kindAt s c) (y c)
      pure (Function.update y c v)
    else pure y
  else pure y

def unmarshalFlatbuffers : Outcome Failure (Fin s.fields.length → PyVal) :=
  if buf.length < 8 then .error (.raised "flatbuffers: buffer too small")
  else do
    let rootOffset ← unpackFrom 4 buf 0
    if buf.length < rootOffset + 4 then .error (.raised "flatbuffers: invalid root offset")
    else do
      let vtableOffset ← unpackFrom 4 buf rootOffset
      let vtableStart : Int := rootOffset + signedOf 4 vtableOffset
      if vtableStart < 0 ∨ buf.length < vtableStart + 4 then
        .error (.raised "flatbuffers: invalid vtable offset")
      else do
        let vtableSize ← unpackFrom 2 buf vtableStart.toNat
        (positions s).foldlM (unmarshalFlatField s buf rootOffset vtableStart.toNat vtableSize)
          fun c => flatDefault (kindAt s c)

theorem orZero_int (n : Int) : orZero (.int n) = .int n := by
  unfold orZero
  split
  · rfl
  · rename_i hn
    have hzero : n = 0 := by simpa [truthy] using hn
    rw [hzero]

theorem encodeText_text (text : String) : encodeText (.text text) = .ok (utf8Bytes text) := by
  unfold encodeText
  split
  · rfl
  · rename_i h
    have hempty : text = "" := by simpa [truthy] using h
    rw [(utf8Bytes_eq_nil_iff text).2 hempty]

variable {buf : Bytes} {n offset w absOffset : Nat} {s : StructNode}

theorem packSigned_toInt (hw : w = 8 * n) (v : BitVec w) : packSigned n v.toInt = .ok (littleEndian n v.toNat) := by
  have hlow := BitVec.le_toInt v
  have hhigh := BitVec.toInt_lt (x := v)
  rw [packSigned, if_pos (by rw [← hw]; exact ⟨hlow, hhigh⟩), toInt_emod_toNat hw]

theorem packUnsigned_eq {v : Nat} (h : v < 256 ^ n) : packUnsigned n v = .ok (littleEndian n v) := if_pos h

theorem packInto_eq {bs : Bytes} (h : offset + bs.length ≤ buf.length) :
    packInto buf offset bs = .ok (overwrite buf offset bs) := if_pos h

theorem marshalFlatText_eq {str : Bytes} {currentStringOffset : Nat} (hstr : str ≠ [])
    (hslot : 4 + offset + 4 ≤ currentStringOffset) (hroom : currentStringOffset + (4 + str.length) ≤ buf.length)
    (hlimit : currentStringOffset + (4 + str.length) < 2 ^ 32) : marshalFlatText str offset buf currentStringOffset =
      .ok (overwrite (overwrite buf (4 + offset)
            (littleEndian 4 (currentStringOffset - (4 + offset)))) currentStringOffset
          (littleEndian 4 str.length ++ str), currentStringOffset + (4 + str.length)) := by
  obtain ⟨hfirst, -, hcat⟩ := overwrite_text (currentStringOffset - (4 + offset)) hslot hroom
  rw [marshalFlatText, if_pos hstr]
  dsimp only
  rw [packUnsigned_eq (by omega), ok_bind, packInto_eq (by rw [length_littleEndian]; omega), ok_bind,
    packUnsigned_eq (by omega), ok_bind, packInto_eq (by rw [length_littleEndian, hfirst]; omega), ok_bind, hcat]
  rfl

theorem packValue_orZero (hw : w = 8 * n) (v : BitVec w) (hroom : 4 + offset + n ≤ buf.length)
    (currentStringOffset : Nat) :
    (do
      let bs ← packValue n (orZero (.int v.toInt))
      let buf ← packInto buf (4 + offset) bs
      pure (buf, currentStringOffset)) =
      (.ok (overwrite buf (4 + offset) (littleEndian n v.toNat), currentStringOffset) :
        Outcome Failure (Bytes × Nat)) := by
  rw [orZero_int, packValue, packSigned_toInt hw, ok_bind, packInto_eq (by rw [length_littleEndian]; exact hroom)]
  rfl

theorem places_marshalFlatField {limit : Nat} (hlimit : limit < 2 ^ 32) {k : Kind} {v : GoVal k}
    {p : PyVal} (h : SameValue k v p) : Places limit (marshalFlatField k p) k v := by
  cases h with
  | int32 v =>
    refine places_of_word (k := .int32) (fun _ => rfl) rfl ?_
    intro offset buf stringOffset hroom
    exact packValue_orZero rfl v hroom stringOffset
  | int64 v =>
    refine places_of_word (k := .int64) (fun _ => rfl) rfl ?_
    intro offset buf stringOffset hroom
    exact packValue_orZero rfl v hroom stringOffset
  | bool b =>
    refine places_of_slot [flagByte b] (by show 1 ≤ 4; decide) (fun rel => rfl) rfl ?_
    intro offset buf stringOffset hroom
    have htruthy : truthy (.bool b) = b := rfl
    rw [marshalFlatField, htruthy, packInto_eq hroom]
    rfl
  | string v text hbytes =>
    have hfield : ∀ offset buf stringOffset, marshalFlatField .string (.text text) offset buf
        stringOffset = marshalFlatText v.bytes offset buf stringOffset := by
      intro offset buf stringOffset
      rw [marshalFlatField, encodeText_text, ok_bind, hbytes]
    by_cases hv : v.bytes = []
    · refine places_of_empty hv ?_
      intro offset buf stringOffset
      rw [hfield, marshalFlatText, if_neg (not_not.2 hv)]
      rfl
    · refine places_of_text hv ?_
      intro offset buf stringOffset hslot hroom hend
      rw [hfield]
      exact marshalFlatText_eq hv hslot hroom (by omega)

theorem marshalVtable_eq (hsize : tableSize s < 2 ^ 16) {vtableStart : Nat}
    (h : vtableStart + vtableSize s ≤ buf.length) :
    marshalVtable s buf vtableStart = .ok (overwrite buf vtableStart (vtableBytes s)) := by
  have hv := vtableSize_le_tableSize s
  have hfour : 4 ≤ vtableSize s := Nat.le_add_right _ _
  have hentries := foldlM_vtable
    (fun buf p => do
      let entry ← packUnsigned 2 p.1
      packInto buf (vtableStart + 4 + 2 * p.2) entry)
    (fun v hv i _ buf hroom => by
      have hlt := (offset_lt_tableSize hv).2
      rw [packUnsigned_eq (by omega), ok_bind, packInto_eq (by rw [length_littleEndian]; exact hroom)]) h
  rw [marshalVtable, packUnsigned_eq (by omega), ok_bind, packUnsigned_eq (by omega), ok_bind,
    packInto_eq (by simp only [length_append, length_littleEndian]; omega), ok_bind, hentries]

theorem dynamicSize_eq {x : GoStruct s} {y : Fin s.fields.length → PyVal}
    (hsame : ∀ c, SameValue (kindAt s c) (x c) (y c)) : dynamicSize s y = .ok (textSize s x) := by
  have hfield : ∀ {k : Kind} {v : GoVal k} {p : PyVal}, SameValue k v p →
      dynamicSizeField k p = .ok (textBytes k v).length := by
    intro k v p h
    cases h with
    | int32 v => rfl
    | int64 v => rfl
    | bool b => rfl
    | string v text hbytes =>
      rw [dynamicSizeField, encodeText_text, ok_bind, ← hbytes]
      show (.ok (if v.bytes ≠ [] then 4 + v.bytes.length else 0) : Outcome Failure Nat) = .ok (textEntry v.bytes).length
      unfold textEntry
      by_cases hv : v.bytes = []
      · rw [if_pos hv, if_neg (not_not.2 hv)]
        rfl
      · rw [if_neg hv, if_pos hv, length_append, length_littleEndian]
  have hrun : ∀ (cs : List (Fin s.fields.length)) (size : Nat), cs.foldlM (fun size c => do
        let n ← dynamicSizeField (kindAt s c) (y c)
        pure (size + n)) size = .ok (size + (textPart s x cs).length) := by
    intro cs
    induction cs with
    | nil => exact fun size => rfl
    | cons c cs ih =>
      intro size
      have hcons : textPart s x (c :: cs) = textBytes (kindAt s c) (x c) ++ textPart s x cs := flatMap_cons
      rw [foldlM_cons, hfield (hsame c), ok_bind, pure_eq, ok_bind, ih, hcons, length_append, Nat.add_assoc]
  rw [dynamicSize, hrun, Nat.zero_add, textSize]

section
variable {s : StructNode} {x : GoStruct s} {y : Fin s.fields.length → PyVal}
  (hsame : ∀ c, SameValue (kindAt s c) (x c) (y c))
include hsame

theorem marshalFlatbuffers_eq (hsize : tableSize s < 2 ^ 16) (hsmall : tableSize s + textSize s x < 2 ^ 31) :
    marshalFlatbuffers s y = .ok (flatBytes s x) := by
  obtain ⟨htotal, hlen⟩ := header_room x (show (littleEndian 4 4).length ≤ 4 by decide)
  have hoffset : packSigned 4 ((4 + tableSize s + textSize s x - 4 : Nat) : Int) =
      .ok (littleEndian 4 (tableSize s + textSize s x)) := by
    rw [packSigned, if_pos (by omega)]
    congr 2
    omega
  have hlimit : 2 ^ 32 - 1 < 2 ^ 32 := by decide
  have hfields := foldlM_fields x
    (fun c offset buf stringOffset => marshalFlatField (kindAt s c) (y c) offset buf stringOffset)
    (fun c => places_marshalFlatField hlimit (hsame c)) (by omega)
  rw [marshalFlatbuffers, dynamicSize_eq hsame, ok_bind]
  dsimp only
  rw [← totalSize, packUnsigned_eq (by decide), ok_bind,
    packInto_eq (by rw [length_replicate, length_littleEndian]; omega), ok_bind, hoffset,
    ok_bind, packInto_eq (by rw [hlen, length_littleEndian]; exact htotal), ok_bind,
    overwrite_header x (littleEndian 4 4) rfl, hfields, ok_bind, marshalVtable_eq hsize, overwrite_vtable]
  rw [length_append, length_bodyBytes, length_replicate]

theorem marshalFlatbuffers_large (hlarge : 2 ^ 31 ≤ tableSize s + textSize s x) :
    marshalFlatbuffers s y = .error .unpack := by
  have htotal : 4 ≤ totalSize s (textSize s x) := by
    unfold totalSize
    omega
  have hoffset : packSigned 4 ((4 + tableSize s + textSize s x - 4 : Nat) : Int) = .error .unpack := by
    rw [packSigned, if_neg (by omega)]
  rw [marshalFlatbuffers, dynamicSize_eq hsame, ok_bind]
  dsimp only
  rw [← totalSize, packUnsigned_eq (by decide), ok_bind,
    packInto_eq (by rw [length_replicate, length_littleEndian]; omega), ok_bind, hoffset, error_bind]
end

theorem unpackFrom_at {bs : Bytes} (h : At buf offset bs) (hn : bs.length = n) :
    unpackFrom n buf offset = .ok (ofLittleEndian bs) := by
  have hle := h.length_le
  obtain ⟨pre, post, rfl, rfl⟩ := h
  subst hn
  rw [unpackFrom, if_pos hle, slice, drop_left, take_left]

theorem unpackFrom_littleEndian {v : Nat} (h : At buf offset (littleEndian n v)) (hv : v < 256 ^ n) :
    unpackFrom n buf offset = .ok v := by
  rw [unpackFrom_at h (length_littleEndian n v), ofLittleEndian_littleEndian, Nat.mod_eq_of_lt hv]

theorem signedOf_toNat (hw : w = 8 * n) (hn : 0 < n) (v : BitVec w) : signedOf n v.toNat = v.toInt := by
  obtain ⟨m, rfl⟩ : ∃ m, w = m + 1 := ⟨w - 1, by omega⟩
  have hpow : (256 : Int) ^ n = 2 ^ (m + 1) := by
    rw [hw, Int.pow_mul]
    norm_num
  have hhalf : 2 ^ (m + 1) = 2 * 2 ^ m := by rw [Nat.pow_succ, Nat.mul_comm]
  rw [signedOf, BitVec.toInt_eq_toNat_cond, hpow, ← hw, Nat.add_sub_cancel]
  by_cases hlt : v.toNat < 2 ^ m
  · rw [if_pos hlt, if_pos (by omega)]
  · rw [if_neg hlt, if_neg (by omega)]
    push_cast
    rfl

theorem unpackFrom_slot (hw : w = 8 * n) (hn : 0 < n) {v : BitVec w} (h : At buf absOffset (littleEndian n v.toNat)) :
    (do
      let v ← unpackFrom n buf absOffset
      pure (PyVal.int (signedOf n v))) = (.ok (.int v.toInt) : Outcome Failure PyVal) := by
  have hlt : v.toNat < 256 ^ n := by
    rw [show (256 : Nat) = 2 ^ 8 from rfl, ← Nat.pow_mul, ← hw]
    exact v.isLt
  rw [unpackFrom_littleEndian h hlt, ok_bind, signedOf_toNat hw hn]
  rfl

theorem unmarshalFlatText_eq (hbuf : buf.length < 2 ^ 32) {text : String} {stringOffset : Nat}
    (hslot : At buf absOffset (textSlot (utf8Bytes text) (stringOffset - absOffset)))
    (htext : At buf stringOffset (textEntry (utf8Bytes text))) (hle : absOffset ≤ stringOffset) (old : PyVal) :
    unmarshalFlatText buf absOffset old = .ok (.text text) := by
  have hroom := hslot.length_le
  rw [length_textSlot] at hroom
  rw [unmarshalFlatText, if_pos hroom]
  by_cases hv : utf8Bytes text = []
  · have hzero : At buf absOffset (littleEndian 4 0) := by
      rw [textSlot, if_pos hv, ← littleEndian_zero] at hslot
      exact hslot
    have hload := unpackFrom_littleEndian hzero (by decide)
    have hdecode : decodeUtf8 (slice buf (absOffset + 4) 0) = some text := by
      rw [slice, take_zero, decodeUtf8_eq_some_iff, hv]
    simp only [hload, ok_bind, Nat.add_zero, if_pos hroom, hdecode]
    rfl
  · rw [textSlot, if_neg hv] at hslot
    rw [textEntry, if_neg hv] at htext
    have hend := htext.length_le
    rw [length_append, length_littleEndian] at hend
    have hrel := unpackFrom_littleEndian hslot (by omega)
    have hlen := unpackFrom_littleEndian htext.left (by omega)
    have hbytes := htext.right
    rw [length_littleEndian] at hbytes
    have hdecode : decodeUtf8 (slice buf (stringOffset + 4) (utf8Bytes text).length) = some text := by
      obtain ⟨pre, post, rfl, hpre⟩ := hbytes
      rw [slice, ← hpre, drop_left, take_left, decodeUtf8_utf8Bytes]
    have hstart : absOffset + (stringOffset - absOffset) = stringOffset := by omega
    have hhead : stringOffset + 4 ≤ buf.length := by omega
    have htail : stringOffset + 4 + (utf8Bytes text).length ≤ buf.length := by omega
    simp only [hrel, ok_bind, hstart, if_pos hhead, hlen, if_pos htail, hdecode]
    rfl

theorem unmarshalFlatValue_eq (hbuf : buf.length < 2 ^ 32) {k : Kind} {v : GoVal k} {p : PyVal} (h : SameValue k v p)
    {stringOffset : Nat} (hslot : At buf absOffset (slotBytes k v (stringOffset - absOffset)))
    (htext : At buf stringOffset (textBytes k v)) (hle : absOffset ≤ stringOffset) (old : PyVal) :
    unmarshalFlatValue buf absOffset k old = .ok p := by
  have hroom := hslot.length_le
  rw [length_slotBytes] at hroom
  cases h with
  | int32 v => exact (if_pos hroom).trans (unpackFrom_slot rfl (by decide) hslot)
  | int64 v => exact (if_pos hroom).trans (unpackFrom_slot rfl (by decide) hslot)
  | string v text hbytes =>
    have hslot' : At buf absOffset (textSlot v.bytes (stringOffset - absOffset)) := hslot
    have htext' : At buf stringOffset (textEntry v.bytes) := htext
    rw [hbytes] at hslot' htext'
    exact unmarshalFlatText_eq hbuf hslot' htext' hle old
  | bool b =>
    have hroom' : absOffset < buf.length := Nat.lt_of_lt_of_le (Nat.lt_add_of_pos_right (by decide)) hroom
    have hflag : At buf absOffset [flagByte b] := hslot.left (b := [0, 0, 0])
    have hload : unpackFrom 1 buf absOffset = .ok (ofLittleEndian [flagByte b]) := unpackFrom_at hflag rfl
    refine (if_pos hroom').trans ?_
    rw [hload, ok_bind]
    cases b <;> rfl

theorem unmarshalFlatbuffers_flatBytes {x : GoStruct s} {y : Fin s.fields.length → PyVal}
    (hsame : ∀ c, SameValue (kindAt s c) (x c) (y c)) (hsize : tableSize s < 2 ^ 16)
    (hsmall : tableSize s + textSize s x < 2 ^ 31) : unmarshalFlatbuffers s (flatBytes s x) = .ok y := by
  obtain ⟨hroot, hoffset, hvtable⟩ := header_at x
  have hvsize := vtableSize_le_tableSize s
  have hv4 : 4 ≤ vtableSize s := Nat.le_add_right _ _
  have hlen := length_flatBytes x
  unfold totalSize at hlen
  have hsigned : signedOf 4 (tableSize s + textSize s x) = (tableSize s + textSize s x : Nat) := if_pos hsmall
  have hstart : ((4 : Nat) : Int) + (tableSize s + textSize s x : Nat) =
      (4 + tableSize s + textSize s x : Nat) := by omega
  rw [unmarshalFlatbuffers, if_neg (by omega), unpackFrom_littleEndian hroot (by decide),
    ok_bind, if_neg (by omega), unpackFrom_littleEndian hoffset (by omega), ok_bind]
  dsimp only
  rw [hsigned, hstart, if_neg (by omega), Int.toNat_natCast, unpackFrom_littleEndian hvtable (by omega), ok_bind]
  refine foldlM_assign (β := fun _ => PyVal) y ?_ _
  intro acc c
  obtain ⟨offset, stringOffset, hfield⟩ := exists_fieldAt x c
  have hc : c.val < s.fields.length := c.isLt
  have hmem := offset_lt_tableSize hfield.mem
  have hvalue := unmarshalFlatValue_eq (by omega) (hsame c) hfield.slot hfield.text hfield.slot_le (acc c)
  rw [unmarshalFlatField, if_pos (by unfold vtableSize; omega),
    unpackFrom_littleEndian hfield.entry (by omega), ok_bind, if_pos hfield.pos, hvalue]
  rfl

end HelixRpc.Codegen.Python
