import HelixRpc.Codegen.Go.FlatBuffers

/-!
# FlatBuffers decoders on any bytes

`UnmarshalFlatBuffers` of the generated Go code, and `unmarshal_flatbuffers` that `compiler/codegen/rust_generator.go`
writes.
-/

namespace HelixRpc.Codegen.FlatBuffers

open Foundation Compiler Codegen.Go List

section
variable {ε α β : Type}

def NoFault (x : Outcome ε α) : Prop := ∀ f, x ≠ .fault f

def IsOk (x : Outcome ε α) : Prop := ∃ a, x = .ok a

theorem isOk_ok (a : α) : IsOk (.ok a : Outcome ε α) := ⟨a, rfl⟩

theorem isOk_bind {x : Outcome ε α} {f : α → Outcome ε β} (hx : IsOk x) (hf : ∀ a, IsOk (f a)) : IsOk (x >>= f) := by
  obtain ⟨a, rfl⟩ := hx
  exact hf a

theorem isOk_if {c : Prop} [Decidable c] {x y : Outcome ε α} (hx : c → IsOk x) (hy : IsOk y) :
    IsOk (if c then x else y) := by
  split
  · exact hx ‹c›
  · exact hy

/-- A value where `p` holds, and a fault elsewhere. -/
structure OkIff (x : Outcome ε α) (p : Prop) : Prop where
  ok : p → IsOk x
  fault : ¬ p → ∃ f, x = .fault f

theorem OkIff.noFault_iff {x : Outcome ε α} {p : Prop} (h : OkIff x p) : NoFault x ↔ p := by
  by_cases hp : p
  · obtain ⟨a, rfl⟩ := h.ok hp
    simp [NoFault, hp]
  · obtain ⟨f, rfl⟩ := h.fault hp
    simp [NoFault, hp]

theorem okIff_foldlM {step : β → α → Outcome ε β} {p : α → Prop} (h : ∀ b a, OkIff (step b a) (p a)) (as : List α)
    (b : β) : OkIff (as.foldlM step b) (∀ a ∈ as, p a) := by
  induction as generalizing b with
  | nil => exact ⟨fun _ => isOk_ok b, fun hnot => absurd (forall_mem_nil p) hnot⟩
  | cons a as ih =>
    rw [foldlM_cons, forall_mem_cons]
    by_cases ha : p a
    · obtain ⟨b', hb'⟩ := (h b a).ok ha
      rw [hb', and_iff_right ha]
      exact ih b'
    · obtain ⟨f, hf⟩ := (h b a).fault ha
      rw [hf]
      exact ⟨fun hp => absurd hp.1 ha, fun _ => ⟨f, rfl⟩⟩

theorem okIff_loadWord (w n : Nat) (buf : Bytes) (index : Nat → Nat) :
    OkIff (loadWord w n buf index : Outcome ε (BitVec w)) (∀ j ∈ List.range n, index j < buf.length) := by
  refine okIff_foldlM (fun v j => ⟨fun hj => ?_, fun hj => ?_⟩) _ _
  · rw [getElem?_eq_getElem hj]
    exact isOk_ok _
  · rw [getElem?_eq_none (Nat.not_lt.1 hj)]
    exact ⟨_, rfl⟩

theorem isOk_loadWord {w n : Nat} {buf : Bytes} {index : Nat → Nat} (h : ∀ j < n, index j < buf.length) :
    IsOk (loadWord w n buf index : Outcome ε (BitVec w)) :=
  (okIff_loadWord w n buf index).ok fun j hj => h j (mem_range.1 hj)
end

theorem isOk_flatString (buf : Slice) (absOffset : Nat) (old : Slice) : IsOk (unmarshalFlatString buf absOffset old) := by
  refine isOk_if (fun hslot => ?_) (isOk_ok _)
  refine isOk_bind (isOk_loadWord fun j hj => by omega) fun relOffset => ?_
  refine isOk_if (fun hstart => ?_) (isOk_ok _)
  refine isOk_bind (isOk_loadWord fun j hj => by omega) fun strLen => ?_
  refine isOk_if (fun hroom => ?_) (isOk_ok _)
  rw [Slice.extract_eq_ok (by omega) (by omega) (by rw [Slice.len]; omega)]
  exact isOk_ok _

theorem isOk_flatValue (buf : Slice) (absOffset : Nat) (k : Kind) (old : GoVal k) :
    IsOk (unmarshalFlatValue buf absOffset k old) := by
  cases k with
  | int32 => exact isOk_if (fun _ => isOk_loadWord fun j hj => by omega) (isOk_ok _)
  | int64 => exact isOk_if (fun _ => isOk_loadWord fun j hj => by omega) (isOk_ok _)
  | bool =>
    refine isOk_if (fun _ => ?_) (isOk_ok _)
    exact isOk_bind (isOk_loadWord fun j hj => by omega) fun _ => isOk_ok _
  | string => exact isOk_flatString buf absOffset old
  | _ => exact isOk_ok _

def rustHeader : Slice → FlatOutcome (BitVec 32 × BitVec 32) := flatHeader fun rootOffset j => rootOffset.toNat + j

theorem noFault_header {index : BitVec 32 → Nat → Nat} (hindex : ∀ rootOffset j, index rootOffset j ≤ rootOffset.toNat + j)
    (buf : Slice) : NoFault (flatHeader index buf) := by
  unfold flatHeader
  split_ifs with hlen
  · nofun
  obtain ⟨rootOffset, hroot⟩ : IsOk (loadWord 32 4 buf.bytes (fun j => j) : FlatOutcome (BitVec 32)) :=
    isOk_loadWord fun j hj => by omega
  rw [hroot, Outcome.ok_bind]
  split_ifs with hrange
  · nofun
  obtain ⟨vtableOffset, hvtable⟩ : IsOk (loadWord 32 4 buf.bytes (index rootOffset) : FlatOutcome (BitVec 32)) :=
    isOk_loadWord fun j hj => Nat.lt_of_le_of_lt (hindex rootOffset j) (by omega)
  rw [hvtable]
  nofun

section
variable (utf8 : Bytes → Bool)

def keepText : (k : Kind) → GoVal k → GoVal k → GoVal k
  | .string, old, v => if utf8 (Slice.bytes v) then v else old
  | _, _, v => v

def overflows (rootOffset vtableOffset : BitVec 32) : Bool :=
  (rootOffset + vtableOffset).toInt ≠ rootOffset.toInt + vtableOffset.toInt

def rustUnmarshal (checked : Bool) (s : StructNode) (buf : Slice) : Option (FlatOutcome (GoStruct s)) :=
  match rustHeader buf with
  | .ok (rootOffset, vtableOffset) =>
    if checked && overflows rootOffset vtableOffset then none
    else some (flatTable (keepText utf8) s buf rootOffset (rootOffset + vtableOffset).toInt (GoStruct.zero s))
  | .error e => some (.error e)
  | .fault f => some (.fault f)
end

section
variable (s : StructNode) (buf : Slice)

/-- A vtable that is accepted has the entries inside the buffer that its size covers. -/
def tableInside (vtableStart : Int) : Bool :=
  if vtableStart < 0 ∨ buf.len < vtableStart + 4 then true
  else
    match (loadWord 16 2 buf.bytes (vtableStart.toNat + ·) : FlatOutcome (BitVec 16)) with
    | .ok vtableSize => (positions s).all fun c =>
        decide (4 + 2 * c.val + 2 ≤ vtableSize.toNat → vtableStart.toNat + (4 + 2 * c.val) + 2 ≤ buf.bytes.length)
    | _ => true

def goInside : Bool :=
  match goHeader buf with
  | .ok (rootOffset, vtableOffset) => tableInside s buf (rootOffset.toNat + vtableOffset.toInt)
  | _ => true

def rustInside (checked : Bool) : Bool :=
  match rustHeader buf with
  | .ok (rootOffset, vtableOffset) =>
    !(checked && overflows rootOffset vtableOffset) && tableInside s buf (rootOffset + vtableOffset).toInt
  | _ => true

variable {s buf}

theorem noFault_table_iff (keep : (k : Kind) → GoVal k → GoVal k → GoVal k) (rootOffset : BitVec 32)
    (vtableStart : Int) (x : GoStruct s) :
    NoFault (flatTable keep s buf rootOffset vtableStart x) ↔ tableInside s buf vtableStart = true := by
  rw [flatTable, tableInside]
  split_ifs with hstart
  · simp [NoFault]
  · rw [not_or, Slice.len] at hstart
    obtain ⟨vtableSize, hsize⟩ : IsOk (loadWord 16 2 buf.bytes (vtableStart.toNat + ·) : FlatOutcome (BitVec 16)) :=
      isOk_loadWord fun j hj => by omega
    rw [hsize, all_eq_true]
    simp only [decide_eq_true_eq]
    refine (okIff_foldlM (fun x c => ?_) _ _).noFault_iff
    have hword := okIff_loadWord (ε := FlatError) 16 2 buf.bytes (vtableStart.toNat + (4 + 2 * c.val) + ·)
    refine ⟨fun hc => isOk_if (fun hle => isOk_bind (hword.ok fun j hj => ?_) fun foffset => ?_) (isOk_ok _), fun hc => ?_⟩
    · have hend := hc hle
      have hj := mem_range.1 hj
      omega
    · exact isOk_if (fun _ => isOk_bind (isOk_flatValue buf _ _ _) fun _ => isOk_ok _) (isOk_ok _)
    · obtain ⟨hle, hout⟩ := Classical.not_imp.1 hc
      obtain ⟨f, hf⟩ := hword.fault fun hall => hout (hall 1 (by decide))
      rw [unmarshalFlatField, if_pos hle, hf]
      exact ⟨f, rfl⟩

theorem noFault_go_iff (x : GoStruct s) : NoFault (unmarshalFlatBuffers s buf x) ↔ goInside s buf = true := by
  have hheader : NoFault (goHeader buf) := noFault_header (fun rootOffset j => by
    rw [BitVec.toNat_add, BitVec.toNat_ofNat]
    exact (Nat.mod_le _ _).trans (Nat.add_le_add_left (Nat.mod_le _ _) _)) buf
  rw [unmarshalFlatBuffers, goInside]
  cases hread : goHeader buf with
  | error e => simp [NoFault]
  | fault f => exact absurd hread (hheader f)
  | ok offsets => exact noFault_table_iff _ _ _ x

theorem noFault_rust_iff (utf8 : Bytes → Bool) (checked : Bool) :
    (∃ r, rustUnmarshal utf8 checked s buf = some r ∧ NoFault r) ↔ rustInside s buf checked = true := by
  have hheader : NoFault (rustHeader buf) := noFault_header (fun _ _ => Nat.le_refl _) buf
  rw [rustUnmarshal, rustInside]
  cases hread : rustHeader buf with
  | error e => simp [NoFault]
  | fault f => exact absurd hread (hheader f)
  | ok offsets =>
    cases hover : checked && overflows offsets.1 offsets.2 with
    | true => simp [hover]
    | false =>
      simp only [hover, Bool.false_eq_true, if_false, Bool.not_false, Bool.true_and, Option.some.injEq, exists_eq_left']
      exact noFault_table_iff _ _ _ _
end

/-- Both decoders return a value or an error exactly if a vtable that they accept has its entries inside
the buffer, and in the Rust code with overflow checks the sum of the offsets does not overflow. -/
theorem flat_decoders_never_panic_iff (s : StructNode) (buf : Slice) (x : GoStruct s) (utf8 : Bytes → Bool)
    (checked : Bool) : ((∀ f, unmarshalFlatBuffers s buf x ≠ .fault f) ↔ goInside s buf = true) ∧
      ((∃ r, rustUnmarshal utf8 checked s buf = some r ∧ ∀ f, r ≠ .fault f) ↔ rustInside s buf checked = true) :=
  ⟨noFault_go_iff x, noFault_rust_iff utf8 checked⟩

def counterStruct : StructNode := ⟨"Counter", [⟨"count", 1, ⟨.int32, "", none, none⟩, false⟩], false⟩

def shortVtable : Slice := ⟨[4, 0, 0, 0, 4, 0, 0, 0, 6, 0, 0, 0], by decide⟩

def farVtable : Slice := ⟨[4, 0, 0, 0, 255, 255, 255, 127], by decide⟩

theorem flat_decoders_panic : unmarshalFlatBuffers counterStruct shortVtable (GoStruct.zero _) = .fault .index ∧
      rustUnmarshal (fun _ => true) true counterStruct shortVtable = some (.fault .index) ∧
      rustUnmarshal (fun _ => true) true counterStruct farVtable = none :=
  ⟨rfl, rfl, rfl⟩

end HelixRpc.Codegen.FlatBuffers
