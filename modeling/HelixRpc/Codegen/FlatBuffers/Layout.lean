import HelixRpc.Codegen.Go.Struct
import HelixRpc.Foundation.LittleEndian

/-!
# The FlatBuffers layout of a struct

The generators for Go, Python and Node compute the same layout: a table with one slot per field, the string area, and
the vtable.
-/

namespace HelixRpc.Codegen.FlatBuffers

open Foundation Compiler Codegen.Go List Outcome Function

def FlatKind : Kind → Prop
  | .int32 | .int64 | .bool | .string => True
  | _ => False

instance : DecidablePred FlatKind
  | .int32 | .int64 | .bool | .string => .isTrue trivial
  | .binary | .double | .void | .map | .list | .struct | .enum => .isFalse id

variable (s : StructNode)

def AllFlat : Prop := ∀ f ∈ s.fields, FlatKind f.kind

instance (s : StructNode) : Decidable (AllFlat s) :=
  inferInstanceAs (Decidable (∀ f ∈ s.fields, FlatKind f.kind))

theorem allFlat_at {s : StructNode} (h : AllFlat s) (c : Fin s.fields.length) :
    FlatKind (kindAt s c) := h _ (get_mem _ _)

def fieldSize : Kind → Nat
  | .int64 | .double => 8
  | _ => 4

def alignOffset (currentOffset size : Nat) : Nat :=
  if currentOffset % size ≠ 0 then currentOffset + (size - currentOffset % size) else currentOffset

variable (currentOffset : Nat) (k : Kind)

def slotOffset : Nat := alignOffset currentOffset (fieldSize k)

def slotEnd : Nat := slotOffset currentOffset k + fieldSize k

def offsetsFrom : Nat → List Kind → List Nat
  | _, [] => []
  | currentOffset, k :: ks =>
    slotOffset currentOffset k :: offsetsFrom (slotEnd currentOffset k) ks

def kinds : List Kind := s.fields.map FieldNode.kind

def offsets : List Nat := offsetsFrom 4 (kinds s)

def tableSize : Nat := (kinds s).foldl slotEnd 4

def vtableSize : Nat := 4 + 2 * s.fields.length

theorem fieldSize_pos : 0 < fieldSize k := by
  cases k <;> decide

theorem le_alignOffset (currentOffset size : Nat) : currentOffset ≤ alignOffset currentOffset size := by
  unfold alignOffset
  split
  · exact Nat.le_add_right _ _
  · exact Nat.le_refl _

theorem le_slotOffset : currentOffset ≤ slotOffset currentOffset k :=
  le_alignOffset _ _

variable (ks : List Kind)

theorem length_offsetsFrom : (offsetsFrom currentOffset ks).length = ks.length := by
  induction ks generalizing currentOffset with
  | nil => rfl
  | cons k ks ih => rw [offsetsFrom, length_cons, ih, length_cons]

theorem length_offsets : (offsets s).length = s.fields.length := by rw [offsets, length_offsetsFrom, kinds, length_map]

theorem le_foldl_slotEnd : currentOffset + 4 * ks.length ≤ ks.foldl slotEnd currentOffset := by
  induction ks generalizing currentOffset with
  | nil => exact Nat.le_refl _
  | cons k ks ih =>
    have hsize : 4 ≤ fieldSize k := by cases k <;> decide
    have hle := le_slotOffset currentOffset k
    have hrest := ih (slotEnd currentOffset k)
    rw [length_cons, foldl_cons]
    unfold slotEnd at hrest ⊢
    omega

theorem mem_offsetsFrom {currentOffset offset : Nat} {ks : List Kind} (h : offset ∈ offsetsFrom currentOffset ks) :
    currentOffset ≤ offset ∧ offset < ks.foldl slotEnd currentOffset := by
  induction ks generalizing currentOffset with
  | nil => cases h
  | cons k ks ih =>
    have hle := le_slotOffset currentOffset k
    have hpos := fieldSize_pos k
    have hrest := le_foldl_slotEnd (slotEnd currentOffset k) ks
    rw [offsetsFrom, mem_cons] at h
    rw [foldl_cons]
    rcases h with rfl | hmem
    · unfold slotEnd at hrest ⊢
      omega
    · obtain ⟨hlow, hhigh⟩ := ih hmem
      refine ⟨?_, hhigh⟩
      unfold slotEnd at hlow
      omega

theorem offset_lt_tableSize {s : StructNode} {offset : Nat} (h : offset ∈ offsets s) :
    4 ≤ offset ∧ offset < tableSize s := mem_offsetsFrom h

theorem vtableSize_le_tableSize : vtableSize s ≤ tableSize s := by
  have h := le_foldl_slotEnd 4 (kinds s)
  rw [kinds, length_map] at h
  unfold vtableSize tableSize kinds
  omega

structure Region where
  start : Nat
  size : Nat

def Region.Has (r : Region) (i : Nat) : Prop := r.start ≤ i ∧ i < r.start + r.size

def Region.Disjoint (a b : Region) : Prop := ∀ i, ¬ (a.Has i ∧ b.Has i)

def Region.Before (a b : Region) : Prop := a.start + a.size ≤ b.start

theorem Region.Before.disjoint {a b : Region} (h : a.Before b) : a.Disjoint b := by
  rintro i ⟨⟨-, ha⟩, ⟨hb, -⟩⟩
  unfold Region.Before at h
  omega

def slotRegion (offset : Nat) (k : Kind) : Region := ⟨4 + offset, fieldSize k⟩

def slotRegions : List Region :=
  zipWith slotRegion (offsetsFrom currentOffset ks) ks

variable (dynamicSize : Nat)

def stringRegion : Region := ⟨4 + tableSize s, dynamicSize⟩

def vtableRegion : Region := ⟨4 + tableSize s + dynamicSize, vtableSize s⟩

def regions : List Region :=
  slotRegions 4 (kinds s) ++ [stringRegion s dynamicSize, vtableRegion s dynamicSize]

def totalSize : Nat := 4 + tableSize s + dynamicSize + vtableSize s

theorem slotRegions_cons : slotRegions currentOffset (k :: ks) =
      slotRegion (slotOffset currentOffset k) k :: slotRegions (slotEnd currentOffset k) ks := rfl

theorem mem_slotRegions {currentOffset : Nat} {ks : List Kind} {r : Region} (h : r ∈ slotRegions currentOffset ks) :
    4 + currentOffset ≤ r.start ∧ r.start + r.size ≤ 4 + ks.foldl slotEnd currentOffset := by
  induction ks generalizing currentOffset with
  | nil => cases h
  | cons k ks ih =>
    have hle := le_slotOffset currentOffset k
    have hrest := le_foldl_slotEnd (slotEnd currentOffset k) ks
    rw [slotRegions_cons, mem_cons] at h
    rw [foldl_cons]
    rcases h with rfl | hmem
    · show 4 + currentOffset ≤ 4 + slotOffset currentOffset k ∧ 4 + slotOffset currentOffset k + fieldSize k ≤ _
      unfold slotEnd at hrest ⊢
      omega
    · obtain ⟨hlow, hhigh⟩ := ih hmem
      refine ⟨?_, hhigh⟩
      unfold slotEnd at hlow
      omega

theorem slotRegions_before : (slotRegions currentOffset ks).Pairwise Region.Before := by
  induction ks generalizing currentOffset with
  | nil => exact Pairwise.nil
  | cons k ks ih =>
    rw [slotRegions_cons]
    refine Pairwise.cons ?_ (ih _)
    intro r hr
    have hstart := (mem_slotRegions hr).1
    show 4 + slotOffset currentOffset k + fieldSize k ≤ r.start
    unfold slotEnd at hstart
    omega

theorem regions_before : (regions s dynamicSize).Pairwise Region.Before := by
  refine pairwise_append.2 ⟨slotRegions_before 4 (kinds s), ?_, ?_⟩
  · refine Pairwise.cons ?_ (pairwise_singleton _ _)
    intro r hr
    obtain rfl := mem_singleton.1 hr
    exact Nat.le_refl _
  · intro slot hslot r hr
    have hend := (mem_slotRegions hslot).2
    have hstart : 4 + tableSize s ≤ r.start := by
      rcases mem_cons.1 hr with rfl | hmem
      · exact Nat.le_refl _
      · obtain rfl := mem_singleton.1 hmem
        exact Nat.le_add_right _ _
    exact Nat.le_trans hend hstart

theorem regions_disjoint : (regions s dynamicSize).Pairwise Region.Disjoint :=
  (regions_before s dynamicSize).imp fun h => h.disjoint

theorem regions_inside {s : StructNode} {dynamicSize : Nat} {r : Region}
    (h : r ∈ regions s dynamicSize) : r.start + r.size ≤ totalSize s dynamicSize := by
  unfold totalSize
  rcases mem_append.1 h with hslot | htail
  · have hend := (mem_slotRegions hslot).2
    unfold tableSize
    omega
  · rcases mem_cons.1 htail with rfl | hmem
    · exact Nat.le_add_right _ _
    · obtain rfl := mem_singleton.1 hmem
      exact Nat.le_refl _

def flagByte (b : Bool) : UInt8 := if b then 1 else 0

def textSlot (text : Bytes) (rel : Nat) : Bytes :=
  if text = [] then replicate 4 0 else littleEndian 4 rel

def textEntry (text : Bytes) : Bytes :=
  if text = [] then [] else littleEndian 4 text.length ++ text

def slotBytes : (k : Kind) → GoVal k → Nat → Bytes
  | .int32, v, _ => littleEndian 4 (BitVec.toNat v)
  | .int64, v, _ => littleEndian 8 (BitVec.toNat v)
  | .bool, b, _ => [flagByte b, 0, 0, 0]
  | .string, v, rel => textSlot (Slice.bytes v) rel
  | k, _, _ => replicate (fieldSize k) 0

def textBytes : (k : Kind) → GoVal k → Bytes
  | .string, v => textEntry (Slice.bytes v)
  | _, _ => []

section
variable (s : StructNode) (x : GoStruct s)

/-- The slots of some fields, with the padding in front of each: `currentOffset` is the offset in
front of them and `stringOffset` the place of their first text. -/
def tablePart : List (Fin s.fields.length) → Nat → Nat → Bytes
  | [], _, _ => []
  | c :: cs, currentOffset, stringOffset =>
    replicate (slotOffset currentOffset (kindAt s c) - currentOffset) 0 ++
      (slotBytes (kindAt s c) (x c) (stringOffset - (4 + slotOffset currentOffset (kindAt s c))) ++
        tablePart cs (slotEnd currentOffset (kindAt s c))
          (stringOffset + (textBytes (kindAt s c) (x c)).length))

def textPart (cs : List (Fin s.fields.length)) : Bytes := cs.flatMap fun c => textBytes (kindAt s c) (x c)

def vtableBytes : Bytes := littleEndian 2 (vtableSize s) ++
    (littleEndian 2 (tableSize s) ++ (offsets s).flatMap (littleEndian 2))

def positions : List (Fin s.fields.length) := finRange s.fields.length

def textSize : Nat := (textPart s x (positions s)).length

def flatBytes : Bytes := littleEndian 4 4 ++ (littleEndian 4 (tableSize s + textSize s x) ++
    (tablePart s x (positions s) 4 (4 + tableSize s) ++ (textPart s x (positions s) ++ vtableBytes s)))
end

theorem length_textSlot (text : Bytes) (rel : Nat) : (textSlot text rel).length = 4 := by
  unfold textSlot
  split
  · rfl
  · exact length_littleEndian 4 _

theorem length_slotBytes {k : Kind} (v : GoVal k) (rel : Nat) : (slotBytes k v rel).length = fieldSize k := by
  cases k with
  | int32 => exact length_littleEndian 4 _
  | int64 => exact length_littleEndian 8 _
  | string => exact length_textSlot _ _
  | bool => rfl
  | _ => exact length_replicate ..

theorem map_kindAt_positions (s : StructNode) : (positions s).map (kindAt s) = kinds s := by
  have hget : (finRange s.fields.length).map s.fields.get = s.fields := map_get_finRange s.fields
  rw [positions, kinds]
  conv => rhs; rw [← hget]
  rw [map_map]
  rfl

section
variable {s : StructNode} (x : GoStruct s)

theorem length_tablePart (cs : List (Fin s.fields.length)) (currentOffset stringOffset : Nat) : currentOffset +
    (tablePart s x cs currentOffset stringOffset).length = (cs.map (kindAt s)).foldl slotEnd currentOffset := by
  induction cs generalizing currentOffset stringOffset with
  | nil => rfl
  | cons c cs ih =>
    have hle := le_slotOffset currentOffset (kindAt s c)
    rw [map_cons, foldl_cons, ← ih _ (stringOffset + (textBytes _ (x c)).length),
      tablePart, length_append, length_append, length_replicate, length_slotBytes]
    unfold slotEnd
    omega

theorem length_table (stringOffset : Nat) : 4 + (tablePart s x (positions s) 4 stringOffset).length = tableSize s := by
  rw [length_tablePart, map_kindAt_positions, tableSize]

theorem length_flatMap_littleEndian (n : Nat) (vs : List Nat) :
    (vs.flatMap (littleEndian n)).length = n * vs.length := by
  induction vs with
  | nil => rfl
  | cons v vs ih =>
    rw [flatMap_cons, length_append, length_littleEndian, ih, length_cons]
    ring

theorem length_vtableBytes (s : StructNode) : (vtableBytes s).length = vtableSize s := by
  have hoffsets := length_offsets s
  rw [vtableBytes, length_append, length_append, length_littleEndian, length_littleEndian,
    length_flatMap_littleEndian, hoffsets, vtableSize]
  omega

theorem length_flatBytes : (flatBytes s x).length = totalSize s (textSize s x) := by
  have htable := length_table x (4 + tableSize s)
  simp only [flatBytes, length_append, length_littleEndian, length_vtableBytes, totalSize]
  unfold textSize
  omega
end

/-! The three encoders run over the fields with a buffer and the place of the next text. What a statement
of one of them must do to a buffer that is still zero behind its slot and behind the texts is
`Places`; from it `foldlM_places` builds the table and the string area, and `foldlM_words` the entries
of the vtable. -/

section
universe u
variable {ε : Type u} {s : StructNode} (x : GoStruct s)

/-- A statement fills the slot of a value and adds its text, as long as the texts end before
`limit`. -/
def Places (limit : Nat) (step : Nat → Bytes → Nat → Outcome ε (Bytes × Nat)) (k : Kind) (v : GoVal k) : Prop :=
  ∀ (front texts : Bytes) (skip rest tail offset stringOffset : Nat), 4 + offset = front.length + skip →
    stringOffset = front.length + (skip + fieldSize k + rest) + texts.length →
    stringOffset + (textBytes k v).length ≤ limit → step offset
        (front ++ (replicate (skip + fieldSize k + rest) 0 ++ (texts ++ replicate ((textBytes k v).length + tail) 0)))
        stringOffset = .ok (front ++ (replicate skip 0 ++ (slotBytes k v (stringOffset - (4 + offset)) ++
          (replicate rest 0 ++ (texts ++ (textBytes k v ++ replicate tail 0))))), stringOffset + (textBytes k v).length)

variable {limit : Nat} {step : Nat → Bytes → Nat → Outcome ε (Bytes × Nat)}

theorem places_of_slot {k : Kind} {v : GoVal k} (w : Bytes) (hle : w.length ≤ fieldSize k) (hslot : ∀ rel,
    slotBytes k v rel = w ++ replicate (fieldSize k - w.length) 0) (htext : textBytes k v = []) (hstep :
    ∀ offset buf stringOffset, 4 + offset + w.length ≤ buf.length → step offset buf stringOffset =
    .ok (overwrite buf (4 + offset) w, stringOffset)) : Places limit step k v := by
  intro front texts skip rest tail offset stringOffset hoffset _ _
  have hzeros := overwrite_zeros front (texts ++ replicate tail 0) w skip (fieldSize k - w.length + rest)
  rw [show skip + w.length + (fieldSize k - w.length + rest) = skip + fieldSize k + rest by omega] at hzeros
  rw [htext, length_nil, Nat.zero_add, hstep, hoffset, hzeros, hslot]
  · simp only [replicate_add, append_assoc, nil_append, Nat.add_zero]
  · simp only [length_append, length_replicate]
    omega

theorem places_of_word {k : Kind} {v : GoVal k} {m : Nat} (hslot : ∀ rel,
    slotBytes k v rel = littleEndian (fieldSize k) m) (htext : textBytes k v = []) (hstep : ∀ offset buf stringOffset,
    4 + offset + fieldSize k ≤ buf.length → step offset buf stringOffset =
    .ok (overwrite buf (4 + offset) (littleEndian (fieldSize k) m), stringOffset)) : Places limit step k v := by
  have hlen := length_littleEndian (fieldSize k) m
  refine places_of_slot (littleEndian (fieldSize k) m) (Nat.le_of_eq hlen) (fun rel => ?_) htext ?_
  · rw [hslot, hlen, Nat.sub_self]
    exact (append_nil _).symm
  · intro offset buf stringOffset hroom
    exact hstep offset buf stringOffset (hlen ▸ hroom)

theorem overwrite_text {buf text : Bytes} {offset stringOffset : Nat} (rel : Nat)
    (hslot : 4 + offset + 4 ≤ stringOffset)
    (hroom : stringOffset + (4 + text.length) ≤ buf.length) :
    (overwrite buf (4 + offset) (littleEndian 4 rel)).length = buf.length ∧
      (overwrite (overwrite buf (4 + offset) (littleEndian 4 rel)) stringOffset
        (littleEndian 4 text.length)).length = buf.length ∧
      overwrite (overwrite (overwrite buf (4 + offset) (littleEndian 4 rel)) stringOffset
          (littleEndian 4 text.length)) (stringOffset + 4) text =
        overwrite (overwrite buf (4 + offset) (littleEndian 4 rel)) stringOffset
          (littleEndian 4 text.length ++ text) := by
  have hfirst : (overwrite buf (4 + offset) (littleEndian 4 rel)).length = buf.length :=
    length_overwrite _ _ _ (by rw [length_littleEndian]; omega)
  have hsecond : (overwrite (overwrite buf (4 + offset) (littleEndian 4 rel)) stringOffset
      (littleEndian 4 text.length)).length = buf.length := by
    rw [length_overwrite _ _ _ (by rw [length_littleEndian, hfirst]; omega), hfirst]
  have hcat := @overwrite_overwrite (overwrite buf (4 + offset) (littleEndian 4 rel))
    (littleEndian 4 text.length) text stringOffset (by rw [length_littleEndian, hfirst]; omega)
  rw [length_littleEndian] at hcat
  exact ⟨hfirst, hsecond, hcat⟩

theorem places_of_empty {v : Slice} (hv : v.bytes = []) (hstep : ∀ offset buf stringOffset,
    step offset buf stringOffset = .ok (buf, stringOffset)) : Places limit step .string v := by
  have hslot : ∀ rel, slotBytes .string v rel = replicate 4 0 := fun rel => if_pos hv
  refine places_of_slot [] (Nat.zero_le _) (fun rel => hslot rel) (if_pos hv) ?_
  intro offset buf stringOffset _
  rw [hstep, overwrite_nil]

theorem places_of_text {v : Slice} (hv : v.bytes ≠ [])
    (hstep : ∀ offset buf stringOffset, 4 + offset + 4 ≤ stringOffset →
      stringOffset + (4 + v.bytes.length) ≤ buf.length → stringOffset + (4 + v.bytes.length) ≤ limit →
      step offset buf stringOffset =
        .ok (overwrite (overwrite buf (4 + offset) (littleEndian 4 (stringOffset - (4 + offset))))
            stringOffset (littleEndian 4 v.bytes.length ++ v.bytes), stringOffset + (4 + v.bytes.length))) :
    Places limit step .string v := by
  intro front texts skip rest tail offset stringOffset hoffset hstring hlimit
  have hslot : slotBytes .string v (stringOffset - (4 + offset)) =
      littleEndian 4 (stringOffset - (4 + offset)) := if_neg hv
  have htext : textBytes .string v = littleEndian 4 v.bytes.length ++ v.bytes := if_neg hv
  have hsize : fieldSize .string = 4 := rfl
  have hlen : (littleEndian 4 v.bytes.length ++ v.bytes).length = 4 + v.bytes.length := by
    rw [length_append, length_littleEndian]
  have hzeros := overwrite_zeros front (texts ++ replicate (4 + v.bytes.length + tail) 0)
    (littleEndian 4 (stringOffset - (4 + offset))) skip rest
  have hzeros' := overwrite_zeros
    (front ++ (replicate skip 0 ++ (littleEndian 4 (stringOffset - (4 + offset)) ++
      (replicate rest 0 ++ texts)))) [] (littleEndian 4 v.bytes.length ++ v.bytes) 0 tail
  rw [length_littleEndian, ← hoffset] at hzeros
  rw [hlen] at hzeros'
  simp only [length_append, length_replicate, length_littleEndian, Nat.zero_add, Nat.add_zero, append_nil,
    replicate_zero, nil_append, append_assoc] at hzeros'
  rw [hsize] at hstring ⊢
  rw [htext, hlen] at hlimit ⊢
  have hplace : front.length + (skip + (4 + (rest + texts.length))) = stringOffset := by omega
  rw [hplace] at hzeros'
  rw [hstep offset _ stringOffset (by omega) (by simp only [length_append, length_replicate]; omega) hlimit, hzeros,
    hzeros', hslot]
  simp

variable {limit : Nat} {step : Fin s.fields.length → Nat → Bytes → Nat → Outcome ε (Bytes × Nat)}

theorem foldlM_places (hstep : ∀ c, Places limit (step c) (kindAt s c) (x c)) (cs : List (Fin s.fields.length))
    (front texts : Bytes) (tail currentOffset stringOffset : Nat)
    (hfront : front.length = 4 + currentOffset)
    (hstring : stringOffset = front.length + (tablePart s x cs currentOffset stringOffset).length + texts.length)
    (hlimit : stringOffset + (textPart s x cs).length ≤ limit) :
    (cs.zip (offsetsFrom currentOffset (cs.map (kindAt s)))).foldlM
        (fun st p => step p.1 p.2 st.1 st.2)
        (front ++ (replicate (tablePart s x cs currentOffset stringOffset).length 0 ++
          (texts ++ replicate ((textPart s x cs).length + tail) 0)), stringOffset) =
      .ok (front ++ (tablePart s x cs currentOffset stringOffset ++ (texts ++ (textPart s x cs ++ replicate tail 0))),
        stringOffset + (textPart s x cs).length) := by
  induction cs generalizing front texts currentOffset stringOffset with
  | nil => simp only [tablePart, textPart, length_nil, replicate_zero, flatMap_nil,
      nil_append, Nat.zero_add, Nat.add_zero]; rfl
  | cons c cs ih =>
    have hle := le_slotOffset currentOffset (kindAt s c)
    have htexts : textPart s x (c :: cs) = textBytes (kindAt s c) (x c) ++ textPart s x cs := flatMap_cons
    have hlen : (tablePart s x (c :: cs) currentOffset stringOffset).length =
        slotOffset currentOffset (kindAt s c) - currentOffset + fieldSize (kindAt s c) +
          (tablePart s x cs (slotEnd currentOffset (kindAt s c))
            (stringOffset + (textBytes (kindAt s c) (x c)).length)).length := by
      rw [tablePart, length_append, length_append, length_replicate, length_slotBytes, Nat.add_assoc]
    rw [htexts, length_append] at hlimit
    rw [hlen] at hstring
    -- the statement of the first field, and then the others behind its slot and its text
    have hone := hstep c front texts (slotOffset currentOffset (kindAt s c) - currentOffset)
      _ ((textPart s x cs).length + tail) (slotOffset currentOffset (kindAt s c)) stringOffset
      (by omega) hstring (by omega)
    have hrest := ih
      (front ++ (replicate (slotOffset currentOffset (kindAt s c) - currentOffset) 0 ++ slotBytes (kindAt s c) (x c)
          (stringOffset - (4 + slotOffset currentOffset (kindAt s c)))))
      (texts ++ textBytes (kindAt s c) (x c)) (slotEnd currentOffset (kindAt s c))
      (stringOffset + (textBytes (kindAt s c) (x c)).length)
      (by
        simp only [length_append, length_replicate, length_slotBytes, slotEnd]
        omega)
      (by
        simp only [length_append, length_replicate, length_slotBytes]
        omega)
      (by omega)
    rw [map_cons, offsetsFrom, zip_cons_cons, foldlM_cons, hlen, htexts,
      length_append, Nat.add_assoc (textBytes _ _).length, hone, ok_bind]
    simp only [append_assoc] at hrest
    rw [hrest, tablePart]
    simp [Nat.add_assoc]

def headerBytes : Bytes := littleEndian 4 4 ++ littleEndian 4 (tableSize s + textSize s x)

theorem length_headerBytes : (headerBytes x).length = 8 := by
  rw [headerBytes, length_append, length_littleEndian, length_littleEndian]

def bodyBytes : Bytes :=
  headerBytes x ++ (tablePart s x (positions s) 4 (4 + tableSize s) ++ textPart s x (positions s))

theorem flatBytes_eq : flatBytes s x = bodyBytes x ++ vtableBytes s := by
  simp [flatBytes, bodyBytes, headerBytes]

theorem length_bodyBytes : (bodyBytes x).length = 4 + tableSize s + textSize s x := by
  have htable := length_table x (4 + tableSize s)
  have hheader := length_headerBytes x
  simp only [bodyBytes, length_append, textSize]
  omega

theorem header_room {root : Bytes} (hroot : root.length ≤ 4) : 8 ≤ totalSize s (textSize s x) ∧
    (overwrite (replicate (totalSize s (textSize s x)) 0) 0 root).length = totalSize s (textSize s x) := by
  have hle := le_foldl_slotEnd 4 (kinds s)
  have htotal : 8 ≤ totalSize s (textSize s x) := by
    unfold totalSize tableSize
    omega
  refine ⟨htotal, ?_⟩
  rw [length_overwrite _ _ _ (by rw [length_replicate]; omega), length_replicate]

theorem overwrite_header (root : Bytes) (hroot : root ++ replicate (4 - root.length) 0 = littleEndian 4 4) : overwrite
    (overwrite (replicate (totalSize s (textSize s x)) 0) 0 root) 4 (littleEndian 4 (tableSize s + textSize s x)) =
    headerBytes x ++ replicate (tableSize s - 4 + textSize s x + vtableSize s) 0 := by
  have hle := le_foldl_slotEnd 4 (kinds s)
  have hlen := congrArg List.length hroot
  rw [length_append, length_replicate, length_littleEndian] at hlen
  have hfirst := overwrite_zeros [] [] root 0 (totalSize s (textSize s x) - root.length)
  have hsecond := overwrite_zeros root [] (littleEndian 4 (tableSize s + textSize s x))
    (4 - root.length) (tableSize s - 4 + textSize s x + vtableSize s)
  have htotal : totalSize s (textSize s x) = root.length + (totalSize s (textSize s x) - root.length) := by
    unfold totalSize tableSize
    omega
  have hrest : totalSize s (textSize s x) - root.length = 4 - root.length + 4 +
      (tableSize s - 4 + textSize s x + vtableSize s) := by
    unfold totalSize tableSize
    omega
  simp only [nil_append, append_nil, length_nil, Nat.zero_add, replicate_zero, ← htotal] at hfirst
  rw [length_littleEndian, ← hrest, show root.length + (4 - root.length) = 4 by omega, append_nil] at hsecond
  rw [hfirst, hsecond, ← append_assoc, hroot, headerBytes, append_nil, append_assoc]

variable (step) in
theorem foldlM_fields (hstep : ∀ c, Places limit (step c) (kindAt s c) (x c))
    (hlimit : 4 + tableSize s + textSize s x ≤ limit) : ((positions s).zip (offsets s)).foldlM
    (fun st p => step p.1 p.2 st.1 st.2) (headerBytes x ++ replicate (tableSize s - 4 + textSize s x + vtableSize s) 0,
    4 + tableSize s) = .ok (bodyBytes x ++ replicate (vtableSize s) 0, 4 + tableSize s + textSize s x) := by
  have htable := length_table x (4 + tableSize s)
  have hheader := length_headerBytes x
  have hrun := foldlM_places x hstep (positions s) (headerBytes x) [] (vtableSize s) 4
    (4 + tableSize s) hheader (by rw [length_nil]; omega) hlimit
  rw [map_kindAt_positions] at hrun
  have hzeros : tableSize s - 4 + textSize s x + vtableSize s =
      (tablePart s x (positions s) 4 (4 + tableSize s)).length +
        ((textPart s x (positions s)).length + vtableSize s) := by
    unfold textSize
    omega
  simp only [nil_append, ← replicate_add] at hrun
  rw [offsets, hzeros, hrun]
  simp [bodyBytes, textSize]

theorem foldlM_words {store : Bytes → Nat × Nat → Outcome ε Bytes} {start : Nat} (vs : List Nat) (idx : Nat)
    (hstore : ∀ v ∈ vs, ∀ i, i < idx + vs.length → ∀ buf, start + 2 * i + 2 ≤ buf.length →
      store buf (v, i) = .ok (overwrite buf (start + 2 * i) (littleEndian 2 v)))
    (buf : Bytes) (hroom : start + 2 * idx + 2 * vs.length ≤ buf.length) :
    (vs.zipIdx idx).foldlM store buf = .ok (overwrite buf (start + 2 * idx) (vs.flatMap (littleEndian 2))) := by
  induction vs generalizing idx buf with
  | nil =>
    rw [flatMap_nil, overwrite_nil]
    rfl
  | cons v vs ih =>
    rw [length_cons] at hroom hstore
    have hlen : (overwrite buf (start + 2 * idx) (littleEndian 2 v)).length = buf.length :=
      length_overwrite _ _ _ (by rw [length_littleEndian]; omega)
    have hcat := @overwrite_overwrite buf (littleEndian 2 v) (vs.flatMap (littleEndian 2)) (start + 2 * idx)
      (by rw [length_littleEndian, length_flatMap_littleEndian]; omega)
    rw [length_littleEndian] at hcat
    have hrest := ih (idx + 1) (fun w hw i hi => hstore w (mem_cons_of_mem v hw) i (by omega))
      (overwrite buf (start + 2 * idx) (littleEndian 2 v)) (by rw [hlen]; omega)
    rw [zipIdx_cons, foldlM_cons, hstore v (mem_cons_self ..) idx (by omega) buf (by omega), ok_bind, hrest,
      flatMap_cons, ← hcat, show start + 2 * (idx + 1) = start + 2 * idx + 2 by omega]

theorem foldlM_vtable (store : Bytes → Nat × Nat → Outcome ε Bytes) {vtableStart : Nat} {buf : Bytes}
    (hstore : ∀ v ∈ offsets s, ∀ i, i < s.fields.length → ∀ buf, vtableStart + 4 + 2 * i + 2 ≤ buf.length →
    store buf (v, i) = .ok (overwrite buf (vtableStart + 4 + 2 * i) (littleEndian 2 v))) (hroom :
    vtableStart + vtableSize s ≤ buf.length) : (offsets s).zipIdx.foldlM store (overwrite buf vtableStart
    (littleEndian 2 (vtableSize s) ++ littleEndian 2 (tableSize s))) = .ok (overwrite buf vtableStart
    (vtableBytes s)) := by
  have hoffsets := length_offsets s
  have hlen : (overwrite buf vtableStart
      (littleEndian 2 (vtableSize s) ++ littleEndian 2 (tableSize s))).length = buf.length := by
    apply length_overwrite
    rw [length_append, length_littleEndian, length_littleEndian]
    unfold vtableSize at hroom
    omega
  have hcat := @overwrite_overwrite buf
    (littleEndian 2 (vtableSize s) ++ littleEndian 2 (tableSize s))
    ((offsets s).flatMap (littleEndian 2)) vtableStart
    (by
      rw [length_flatMap_littleEndian, length_append, length_littleEndian, length_littleEndian]
      unfold vtableSize at hroom
      omega)
  rw [length_append, length_littleEndian, length_littleEndian, append_assoc] at hcat
  have hfold := foldlM_words (offsets s) 0
    (fun v hv i hi => hstore v hv i (by omega))
    (overwrite buf vtableStart (littleEndian 2 (vtableSize s) ++ littleEndian 2 (tableSize s)))
    (by
      unfold vtableSize at hroom
      omega)
  exact hfold.trans (congrArg ok hcat)

/-- A vtable that is stored word by word: the two sizes with `put`, and an entry as `put` stores it. -/
theorem vtable_eq {put : Bytes → Nat → Nat → Outcome ε Bytes} {entry : Bytes → Nat × Nat → Outcome ε Bytes}
    {vtableStart : Nat} {buf : Bytes} (hput : ∀ n ≤ tableSize s, ∀ buf offset, offset + 2 ≤ buf.length →
      put buf offset n = .ok (overwrite buf offset (littleEndian 2 n)))
    (hentry : ∀ v i, i < s.fields.length → ∀ buf, entry buf (v, i) = put buf (vtableStart + 4 + 2 * i) v)
    (hroom : vtableStart + vtableSize s ≤ buf.length) :
    (put buf vtableStart (vtableSize s) >>= fun buf => put buf (vtableStart + 2) (tableSize s) >>= fun buf =>
      (offsets s).zipIdx.foldlM entry buf) = .ok (overwrite buf vtableStart (vtableBytes s)) := by
  have hfour : 4 ≤ vtableSize s := Nat.le_add_right _ _
  have hlen : (overwrite buf vtableStart (littleEndian 2 (vtableSize s))).length = buf.length :=
    length_overwrite _ _ _ (by rw [length_littleEndian]; omega)
  have hcat := @overwrite_overwrite buf (littleEndian 2 (vtableSize s)) (littleEndian 2 (tableSize s)) vtableStart
    (by rw [length_littleEndian, length_littleEndian]; omega)
  rw [length_littleEndian] at hcat
  rw [hput _ (vtableSize_le_tableSize s) _ _ (by omega), ok_bind, hput _ (Nat.le_refl _) _ _ (by omega), hcat, ok_bind]
  refine foldlM_vtable entry (fun v hv i hi buf hfits => ?_) hroom
  rw [hentry v i hi]
  exact hput v (offset_lt_tableSize hv).2.le _ _ hfits

theorem overwrite_vtable : overwrite (bodyBytes x ++ replicate (vtableSize s) 0) (4 + tableSize s + textSize s x)
      (vtableBytes s) = flatBytes s x := by
  have hzeros := overwrite_zeros (bodyBytes x) [] (vtableBytes s) 0 0
  simp only [Nat.zero_add, Nat.add_zero, replicate_zero, append_nil, nil_append, length_vtableBytes] at hzeros
  rw [flatBytes_eq, ← length_bodyBytes x]
  exact hzeros
end

section
universe u
variable {s : StructNode} (x : GoStruct s)

/-- Where the buffer holds a field: its slot at `offset` of the table, its text at `stringOffset`, and
its entry in the vtable. -/
structure FieldAt (buf : Bytes) (vtableStart : Nat) (c : Fin s.fields.length)
    (offset stringOffset : Nat) : Prop where
  slot : At buf (4 + offset) (slotBytes (kindAt s c) (x c) (stringOffset - (4 + offset)))
  text : At buf stringOffset (textBytes (kindAt s c) (x c))
  entry : At buf (vtableStart + (4 + 2 * c)) (littleEndian 2 offset)
  pos : 0 < offset
  slot_le : 4 + offset ≤ stringOffset
  mem : offset ∈ offsets s

theorem fieldAt_of_parts {buf : Bytes} {vtableStart : Nat} (cs : List (Fin s.fields.length))
    (k currentOffset stringOffset : Nat) (hpos : 0 < currentOffset)
    (hindex : cs.map Fin.val = range' k cs.length)
    (htable : At buf (4 + currentOffset) (tablePart s x cs currentOffset stringOffset))
    (htext : At buf stringOffset (textPart s x cs))
    (hentries : At buf (vtableStart + (4 + 2 * k))
      ((offsetsFrom currentOffset (cs.map (kindAt s))).flatMap (littleEndian 2)))
    (hend : 4 + (cs.map (kindAt s)).foldl slotEnd currentOffset ≤ stringOffset)
    (hmem : ∀ o ∈ offsetsFrom currentOffset (cs.map (kindAt s)), o ∈ offsets s)
    {c : Fin s.fields.length} (hc : c ∈ cs) :
    ∃ offset stringOffset, FieldAt x buf vtableStart c offset stringOffset := by
  induction cs generalizing k currentOffset stringOffset with
  | nil => cases hc
  | cons d cs ih =>
    rw [map_cons, length_cons, range'_succ, cons.injEq] at hindex
    rw [map_cons, offsetsFrom, flatMap_cons] at hentries
    rw [map_cons, offsetsFrom] at hmem
    rw [map_cons, foldl_cons] at hend
    rw [tablePart] at htable
    rw [textPart, flatMap_cons] at htext
    have hle := le_slotOffset currentOffset (kindAt s d)
    have hfold := le_foldl_slotEnd (slotEnd currentOffset (kindAt s d)) (cs.map (kindAt s))
    have hslot := htable.right
    rw [length_replicate, show 4 + currentOffset + (slotOffset currentOffset (kindAt s d) - currentOffset) =
        4 + slotOffset currentOffset (kindAt s d) by omega] at hslot
    rcases mem_cons.1 hc with rfl | hcs
    · refine ⟨slotOffset currentOffset (kindAt s c), stringOffset, hslot.left, htext.left, ?_,
        by omega, ?_, hmem _ (mem_cons_self ..)⟩
      · rw [hindex.1]
        exact hentries.left
      · unfold slotEnd at hfold
        unfold slotEnd at hend
        omega
    · have hslots := hslot.right
      have htexts := htext.right
      have hwords := hentries.right
      rw [length_slotBytes, Nat.add_assoc] at hslots
      rw [length_littleEndian, show vtableStart + (4 + 2 * k) + 2 = vtableStart + (4 + 2 * (k + 1)) by omega] at hwords
      refine ih (k + 1) (slotEnd currentOffset (kindAt s d)) _ ?_ hindex.2 hslots htexts hwords
        (Nat.le_trans hend (Nat.le_add_right _ _)) (fun o ho => hmem o (mem_cons_of_mem _ ho)) hcs
      unfold slotEnd
      omega

theorem exists_fieldAt (c : Fin s.fields.length) : ∃ offset stringOffset,
      FieldAt x (flatBytes s x) (4 + tableSize s + textSize s x) c offset stringOffset := by
  have hbody := length_bodyBytes x
  have hheader := length_headerBytes x
  have htable := length_table x (4 + tableSize s)
  have hall : At (flatBytes s x) 0 (flatBytes s x) := ⟨[], [], by simp, rfl⟩
  have hvtable : At (flatBytes s x) (4 + tableSize s + textSize s x) (vtableBytes s) := by
    rw [flatBytes_eq] at hall ⊢
    have hright := hall.right
    rw [Nat.zero_add, hbody] at hright
    exact hright
  have hparts : At (flatBytes s x) 8
      (tablePart s x (positions s) 4 (4 + tableSize s) ++ textPart s x (positions s)) := by
    rw [flatBytes_eq] at hall ⊢
    have hright := hall.left.right (a := headerBytes x)
    rw [Nat.zero_add, hheader] at hright
    exact hright
  have htexts := hparts.right
  rw [show 8 + (tablePart s x (positions s) 4 (4 + tableSize s)).length = 4 + tableSize s by omega] at htexts
  have hentries := hvtable.right.right
  rw [length_littleEndian, length_littleEndian] at hentries
  refine fieldAt_of_parts x (positions s) 0 4 (4 + tableSize s) (by decide) ?_ hparts.left htexts ?_
    ?_ ?_ (mem_finRange c)
  · rw [positions, length_finRange, ← range_eq_range']
    exact map_coe_finRange_eq_range
  · rw [map_kindAt_positions]
    exact hentries
  · rw [map_kindAt_positions]
    exact Nat.le_refl _
  · rw [map_kindAt_positions]
    exact fun o ho => ho

theorem header_at : At (flatBytes s x) 0 (littleEndian 4 4) ∧
      At (flatBytes s x) 4 (littleEndian 4 (tableSize s + textSize s x)) ∧
      At (flatBytes s x) (4 + tableSize s + textSize s x) (littleEndian 2 (vtableSize s)) := by
  have hall : At (flatBytes s x) 0 (flatBytes s x) := ⟨[], [], by simp, rfl⟩
  have hsecond := hall.right.left
  rw [length_littleEndian] at hsecond
  refine ⟨hall.left, hsecond, ?_⟩
  rw [flatBytes_eq] at hall ⊢
  have hvtable := hall.right.left
  rw [Nat.zero_add, length_bodyBytes] at hvtable
  exact hvtable

theorem foldlM_assign {ε : Type u} {n : Nat} {β : Fin n → Type} (x : (c : Fin n) → β c) {step : ((c : Fin n) → β c) →
    Fin n → Outcome ε ((c : Fin n) → β c)} (hstep : ∀ acc c, step acc c = .ok (update acc c (x c))) (acc : (c : Fin n) →
    β c) : (finRange n).foldlM step acc = .ok x := by
  have key : ∀ (cs : List (Fin n)) (acc : (c : Fin n) → β c),
      ∃ acc', cs.foldlM step acc = .ok acc' ∧ (∀ c ∈ cs, acc' c = x c) ∧ ∀ c, c ∉ cs → acc' c = acc c := by
    intro cs
    induction cs with
    | nil => exact fun acc => ⟨acc, rfl, by simp, fun c _ => rfl⟩
    | cons d cs ih =>
      intro acc
      obtain ⟨acc', hrun, hin, hout⟩ := ih (update acc d (x d))
      refine ⟨acc', by rw [foldlM_cons, hstep, ok_bind, hrun], ?_, ?_⟩
      · intro c hc
        by_cases hcs : c ∈ cs
        · exact hin c hcs
        · obtain rfl : c = d := by
            rcases mem_cons.1 hc with h | h
            · exact h
            · exact absurd h hcs
          rw [hout c hcs, update_self]
      · intro c hc
        rw [mem_cons, not_or] at hc
        rw [hout c hc.2, update_of_ne hc.1]
  obtain ⟨acc', hrun, hin, -⟩ := key (finRange n) acc
  rw [hrun, funext fun c => hin c (mem_finRange c)]
end

end HelixRpc.Codegen.FlatBuffers
