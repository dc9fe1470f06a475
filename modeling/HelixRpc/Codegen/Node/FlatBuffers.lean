import HelixRpc.Codegen.FlatBuffers.Layout
import HelixRpc.Codegen.Transpilers

/-!
# `marshalFlatBuffers` of the generated Node code

Model of the method that `GenerateNode` writes for every struct.
-/

namespace HelixRpc.Codegen.Node

open Foundation Compiler Codegen.Go Codegen.FlatBuffers List Outcome

structure Number where
  value : Int
  bounds : -2 ^ 53 ≤ value ∧ value ≤ 2 ^ 53

def JsVal : Kind → Type
  | .int32 | .int64 => Number
  | .string => String
  | .bool => Bool
  | _ => Unit

variable (s : StructNode)

abbrev JsStruct := (i : Fin s.fields.length) → Option (JsVal (kindAt s i))

def numberOrZero : Option Number → Int
  | some n => n.value
  | none => 0

def encodeText : Option String → Bytes
  | some text => if text ≠ "" then utf8Bytes text else []
  | none => []

def truthy : Option String → Bool
  | some text => text ≠ ""
  | none => false

/-- The setters `setUint8`, `setUint16`, `setInt32`, `setUint32` and `setBigInt64`, little-endian. -/
def setWord (n : Nat) (buf : Bytes) (offset : Nat) (v : Int) : Outcome Failure Bytes :=
  if offset + n ≤ buf.length then .ok (overwrite buf offset (littleEndian n (v % 256 ^ n).toNat))
  else .error .range

def setBytes (buf : Bytes) (src : Bytes) (offset : Nat) : Outcome Failure Bytes :=
  if offset + src.length ≤ buf.length then .ok (overwrite buf offset src) else .error .range

def dynamicSizeField : (k : Kind) → Option (JsVal k) → Nat
  | .string, v => if truthy v then 4 + (encodeText v).length else 0
  | _, _ => 0

def dynamicSize (z : JsStruct s) : Nat :=
  ((positions s).map fun c => dynamicSizeField (kindAt s c) (z c)).sum

def marshalFlatText (v : Option String) (offset : Nat) (buf : Bytes) (currentStringOffset : Nat) :
    Outcome Failure (Bytes × Nat) :=
  if truthy v then do
    let relOffset : Int := currentStringOffset - (4 + offset : Nat)
    let buf ← setWord 4 buf (4 + offset) relOffset
    let buf ← setWord 4 buf currentStringOffset (encodeText v).length
    let buf ← setBytes buf (encodeText v) (currentStringOffset + 4)
    pure (buf, currentStringOffset + (4 + (encodeText v).length))
  else pure (buf, currentStringOffset)

def marshalFlatNumber (n : Nat) (v : Option Number) (offset : Nat) (buf : Bytes)
    (currentStringOffset : Nat) : Outcome Failure (Bytes × Nat) := do
  let buf ← setWord n buf (4 + offset) (numberOrZero v)
  pure (buf, currentStringOffset)

def marshalFlatBool (v : Option Bool) (offset : Nat) (buf : Bytes) (currentStringOffset : Nat) :
    Outcome Failure (Bytes × Nat) := do
  let buf ← setWord 1 buf (4 + offset) (if v = some true then 1 else 0)
  pure (buf, currentStringOffset)

def marshalFlatField : (k : Kind) → Option (JsVal k) → Nat → Bytes → Nat → Outcome Failure (Bytes × Nat)
  | .int32, v, offset, buf, currentStringOffset =>
    marshalFlatNumber 4 v offset buf currentStringOffset
  | .int64, v, offset, buf, currentStringOffset =>
    marshalFlatNumber 8 v offset buf currentStringOffset
  | .bool, v, offset, buf, currentStringOffset => marshalFlatBool v offset buf currentStringOffset
  | .string, v, offset, buf, currentStringOffset => marshalFlatText v offset buf currentStringOffset
  | _, _, _, buf, currentStringOffset => pure (buf, currentStringOffset)

def defined {s : StructNode} (z : JsStruct s) (idx : Nat) : Bool :=
  if h : idx < s.fields.length then (z ⟨idx, h⟩).isSome else false

def marshalVtable (z : JsStruct s) (buf : Bytes) (vtableStart : Nat) : Outcome Failure Bytes := do
  let buf ← setWord 2 buf vtableStart (vtableSize s)
  let buf ← setWord 2 buf (vtableStart + 2) (tableSize s)
  (offsets s).zipIdx.foldlM (fun buf p =>
    if defined z p.2 then setWord 2 buf (vtableStart + 4 + 2 * p.2) p.1 else pure buf) buf

def marshalFlatBuffers (z : JsStruct s) : Outcome Failure Bytes := do
  let buf := replicate (4 + tableSize s + dynamicSize s z + vtableSize s) 0
  let buf ← setWord 4 buf 0 4
  let vtableStart := 4 + tableSize s + dynamicSize s z
  let vtableOffset := vtableStart - 4
  let buf ← setWord 4 buf 4 vtableOffset
  let (buf, _) ← ((positions s).zip (offsets s)).foldlM
    (fun st p => marshalFlatField (kindAt s p.1) (z p.1) p.2 st.1 st.2) (buf, 4 + tableSize s)
  marshalVtable s z buf vtableStart

inductive SameValue : (k : Kind) → GoVal k → Option (JsVal k) → Prop where
  | int32 (v : BitVec 32) (n : Number) (h : n.value = v.toInt) : SameValue .int32 v (some n)
  | int64 (v : BitVec 64) (n : Number) (h : n.value = v.toInt) : SameValue .int64 v (some n)
  | string (v : Slice) (text : String) (h : v.bytes = utf8Bytes text) : SameValue .string v (some text)
  | bool (b : Bool) : SameValue .bool b (some b)

variable {k : Kind} {v : GoVal k} {p : Option (JsVal k)} {n : Nat}

theorem SameValue.isSome (h : SameValue k v p) : p.isSome = true := by
  cases h with
  | _ => rfl

theorem encodeText_some (text : String) : encodeText (some text) = utf8Bytes text := by
  show (if text ≠ "" then utf8Bytes text else []) = utf8Bytes text
  by_cases htext : text = ""
  · rw [if_neg (not_not.2 htext), (utf8Bytes_eq_nil_iff text).2 htext]
  · rw [if_pos htext]

theorem truthy_some (text : String) : truthy (some text) = true ↔ utf8Bytes text ≠ [] := by
  simp [truthy, utf8Bytes_eq_nil_iff]

variable {buf : Bytes} {offset : Nat}

theorem setWord_eq (v : Int) (h : offset + n ≤ buf.length) :
    setWord n buf offset v = .ok (overwrite buf offset (littleEndian n (v % 256 ^ n).toNat)) :=
  if_pos h

theorem setWord_nat (v : Nat) (h : offset + n ≤ buf.length) :
    setWord n buf offset v = .ok (overwrite buf offset (littleEndian n v)) := by
  have hmod : ((v : Int) % 256 ^ n).toNat = v % 256 ^ n := by
    have hcast : ((v : Int) % 256 ^ n) = ((v % 256 ^ n : Nat) : Int) := by norm_cast
    rw [hcast, Int.toNat_natCast]
  rw [setWord_eq _ h, hmod, littleEndian_mod]

theorem setBytes_eq {src : Bytes} (h : offset + src.length ≤ buf.length) :
    setBytes buf src offset = .ok (overwrite buf offset src) := if_pos h

theorem marshalFlatNumber_eq {w n : Nat} (hw : w = 8 * n) {v : BitVec w} {m : Number} (hm : m.value = v.toInt)
    (hroom : 4 + offset + n ≤ buf.length) (currentStringOffset : Nat) :
    marshalFlatNumber n (some m) offset buf currentStringOffset =
      .ok (overwrite buf (4 + offset) (littleEndian n v.toNat), currentStringOffset) := by
  have hvalue : numberOrZero (some m) = v.toInt := hm
  rw [marshalFlatNumber, hvalue, setWord_eq _ hroom, toInt_emod_toNat hw]
  rfl

theorem marshalFlatText_eq {text : String} {currentStringOffset : Nat} (htext : utf8Bytes text ≠ [])
    (hslot : 4 + offset + 4 ≤ currentStringOffset)
    (hroom : currentStringOffset + (4 + (utf8Bytes text).length) ≤ buf.length) :
    marshalFlatText (some text) offset buf currentStringOffset = .ok (overwrite (overwrite buf (4 + offset)
            (littleEndian 4 (currentStringOffset - (4 + offset)))) currentStringOffset
          (littleEndian 4 (utf8Bytes text).length ++ utf8Bytes text),
        currentStringOffset + (4 + (utf8Bytes text).length)) := by
  obtain ⟨hfirst, hsecond, hcat⟩ := overwrite_text (currentStringOffset - (4 + offset)) hslot hroom
  have hrel : (currentStringOffset : Int) - (4 + offset : Nat) = (currentStringOffset - (4 + offset) : Nat) := by omega
  rw [marshalFlatText, if_pos ((truthy_some text).2 htext), encodeText_some]
  dsimp only
  rw [hrel, setWord_nat _ (by omega), ok_bind, setWord_nat _ (by rw [hfirst]; omega),
    ok_bind, setBytes_eq (by rw [hsecond]; omega), hcat]
  rfl

theorem places_marshalFlatField (limit : Nat) (h : SameValue k v p) : Places limit (marshalFlatField k p) k v := by
  cases h with
  | int32 v n hn =>
    refine places_of_word (k := .int32) (fun _ => rfl) rfl ?_
    intro offset buf stringOffset hroom
    exact marshalFlatNumber_eq rfl hn hroom stringOffset
  | int64 v n hn =>
    refine places_of_word (k := .int64) (fun _ => rfl) rfl ?_
    intro offset buf stringOffset hroom
    exact marshalFlatNumber_eq rfl hn hroom stringOffset
  | bool b =>
    refine places_of_slot [flagByte b] (by show 1 ≤ 4; decide) (fun rel => rfl) rfl ?_
    intro offset buf stringOffset hroom
    have hword : setWord 1 buf (4 + offset) (if some b = some true then 1 else 0) =
        .ok (overwrite buf (4 + offset) [flagByte b]) := by
      rw [setWord_eq (n := 1) _ hroom]
      cases b <;> rfl
    exact congrArg (· >>= fun buf => pure (buf, stringOffset)) hword
  | string v text hbytes =>
    by_cases hv : v.bytes = []
    · refine places_of_empty hv ?_
      intro offset buf stringOffset
      have hfalse : truthy (some text) ≠ true := by
        rw [ne_eq, truthy_some, not_not, ← hbytes]
        exact hv
      exact if_neg hfalse
    · refine places_of_text hv ?_
      intro offset buf stringOffset hslot hroom _
      rw [hbytes] at hv hroom ⊢
      exact marshalFlatText_eq hv hslot hroom

section
variable {s : StructNode} {x : GoStruct s} {z : JsStruct s}
  (hsame : ∀ c, SameValue (kindAt s c) (x c) (z c))
include hsame

theorem dynamicSize_eq : dynamicSize s z = textSize s x := by
  have hfield : ∀ {k : Kind} {v : GoVal k} {p : Option (JsVal k)}, SameValue k v p →
      dynamicSizeField k p = (textBytes k v).length := by
    intro k v p h
    cases h with
    | int32 v n hn => rfl
    | int64 v n hn => rfl
    | bool b => rfl
    | string v text hbytes =>
      show (if truthy (some text) then 4 + (encodeText (some text)).length else 0) = (textEntry v.bytes).length
      rw [encodeText_some, textEntry, hbytes]
      by_cases htext : utf8Bytes text = []
      · rw [if_pos htext, if_neg (fun h => (truthy_some text).1 h htext)]
        rfl
      · rw [if_neg htext, if_pos ((truthy_some text).2 htext), length_append, length_littleEndian]
  rw [dynamicSize, textSize, textPart, length_flatMap]
  exact congrArg sum (map_congr_left fun c _ => hfield (hsame c))

theorem defined_eq_true {idx : Nat} (hidx : idx < s.fields.length) : defined z idx = true := by
  rw [defined, dif_pos hidx]
  exact (hsame ⟨idx, hidx⟩).isSome

theorem marshalVtable_eq {buf : Bytes} {vtableStart : Nat} (h : vtableStart + vtableSize s ≤ buf.length) :
    marshalVtable s z buf vtableStart = .ok (overwrite buf vtableStart (vtableBytes s)) :=
  vtable_eq (fun n _ _ _ hroom => setWord_nat n hroom) (fun _ _ hi _ => if_pos (defined_eq_true hsame hi)) h

theorem marshalFlatBuffers_eq : marshalFlatBuffers s z = .ok (flatBytes s x) := by
  obtain ⟨htotal, hlen⟩ := header_room x (show (littleEndian 4 4).length ≤ 4 by decide)
  have hroot : setWord 4 (replicate (totalSize s (textSize s x)) 0) 0 4 =
      .ok (overwrite (replicate (totalSize s (textSize s x)) 0) 0 (littleEndian 4 4)) :=
    setWord_nat 4 (by rw [length_replicate]; omega)
  have hoffset : 4 + tableSize s + textSize s x - 4 = tableSize s + textSize s x := by omega
  have hfields := foldlM_fields x
    (fun c offset buf stringOffset => marshalFlatField (kindAt s c) (z c) offset buf stringOffset)
    (fun c => places_marshalFlatField _ (hsame c)) (Nat.le_refl _)
  rw [marshalFlatBuffers, dynamicSize_eq hsame]
  dsimp only
  rw [← totalSize, hroot, ok_bind, hoffset, setWord_nat _ (by rw [hlen]; exact htotal), ok_bind,
    overwrite_header x (littleEndian 4 4) rfl, hfields, ok_bind, marshalVtable_eq hsame, overwrite_vtable]
  rw [length_append, length_bodyBytes, length_replicate]
end

end HelixRpc.Codegen.Node
