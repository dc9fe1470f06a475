import HelixRpc.Compiler.Ast
import HelixRpc.Codegen.Go.Varint
import HelixRpc.Foundation.ProtobufWire
import HelixRpc.Foundation.Utf8
import Mathlib.Data.List.Nodup

/-!
# Structs of the generated Go code

`GenerateGo` declares a Go struct with one field per AST field, of the Go type of its kind.
-/

namespace HelixRpc.Codegen.Go

open Foundation Compiler List

def GoVal : Kind → Type
  | .int32 => BitVec 32
  | .int64 => BitVec 64
  | .string => Slice
  | .binary => Slice
  | .bool => Bool
  | .double => BitVec 64
  | _ => Unit

def GoVal.zero : (k : Kind) → GoVal k
  | .int32 => (0 : BitVec 32)
  | .int64 => (0 : BitVec 64)
  | .string => Slice.empty
  | .binary => Slice.empty
  | .bool => false
  | .double => (0 : BitVec 64)
  | .void | .map | .list | .struct | .enum => ()

instance : (k : Kind) → DecidableEq (GoVal k)
  | .int32 => inferInstanceAs (DecidableEq (BitVec 32))
  | .int64 => inferInstanceAs (DecidableEq (BitVec 64))
  | .string => inferInstanceAs (DecidableEq Slice)
  | .binary => inferInstanceAs (DecidableEq Slice)
  | .bool => inferInstanceAs (DecidableEq Bool)
  | .double => inferInstanceAs (DecidableEq (BitVec 64))
  | .void | .map | .list | .struct | .enum => inferInstanceAs (DecidableEq Unit)

variable (s : StructNode)

abbrev kindAt (i : Fin s.fields.length) : Kind := (s.fields.get i).kind

abbrev GoStruct := (i : Fin s.fields.length) → GoVal (kindAt s i)

def GoStruct.zero : GoStruct s := fun i => GoVal.zero (kindAt s i)

def GoStruct.value {s : StructNode} (x : GoStruct s) (i : Fin s.fields.length) :
    (k : Kind) × GoVal k := ⟨kindAt s i, x i⟩

def IsText : (k : Kind) → GoVal k → Prop
  | .string, v => ∃ text, utf8Bytes text = Slice.bytes v
  | _, _ => True

def caseOf (fieldNum : BitVec 32) : Option (Fin s.fields.length) :=
  s.fields.findFinIdx? fun f => decide (f.id = fieldNum)

def Codable : Kind → Prop
  | .int32 | .int64 | .string => True
  | _ => False

instance : DecidablePred Codable
  | .int32 | .int64 | .string => .isTrue trivial
  | .binary | .bool | .double | .void | .map | .list | .struct | .enum => .isFalse id

def AllCodable : Prop := ∀ f ∈ s.fields, Codable f.kind

def DistinctIds : Prop := (s.fields.map FieldNode.id).Nodup

def IdsUpTo (n : Nat) (s : StructNode) : Prop := ∀ f ∈ s.fields, 1 ≤ f.id.toNat ∧ f.id.toNat ≤ n

instance (s : StructNode) : Decidable (AllCodable s) :=
  inferInstanceAs (Decidable (∀ f ∈ s.fields, Codable f.kind))

instance (s : StructNode) : Decidable (DistinctIds s) :=
  inferInstanceAs (Decidable (s.fields.map FieldNode.id).Nodup)

instance (n : Nat) (s : StructNode) : Decidable (IdsUpTo n s) :=
  inferInstanceAs (Decidable (∀ f ∈ s.fields, 1 ≤ f.id.toNat ∧ f.id.toNat ≤ n))

variable {s : StructNode} {i : Fin s.fields.length}

theorem allCodable_at (h : AllCodable s) (i : Fin s.fields.length) : Codable (kindAt s i) := h _ (get_mem _ _)

theorem idsUpTo_at {n : Nat} (h : IdsUpTo n s) (i : Fin s.fields.length) :
    1 ≤ (s.fields.get i).id.toNat ∧ (s.fields.get i).id.toNat ≤ n := h _ (get_mem _ _)

def userProfile : StructNode where
  name := "UserProfile"
  fields := [⟨"user_id", 1, ⟨.int64, "", none, none⟩, false⟩, ⟨"username", 2, ⟨.string, "", none, none⟩, false⟩,
    ⟨"email", 3, ⟨.string, "", none, none⟩, false⟩]

variable {n id : BitVec 32} {r : Record} {rs : List Record}

theorem id_of_caseOf (h : caseOf s n = some i) : (s.fields.get i).id = n := by
  have := (findFinIdx?_eq_some_iff.1 h).1
  simpa using this

theorem caseOf_eq_none_iff : caseOf s n = none ↔ ∀ i : Fin s.fields.length, (s.fields.get i).id ≠ n := by
  unfold caseOf
  rw [findFinIdx?_eq_none_iff]
  constructor
  · intro h i hi
    exact h _ (get_mem _ i) (by simpa using hi)
  · intro h f hf hp
    obtain ⟨i, rfl⟩ := get_of_mem hf
    exact h i (by simpa using hp)

theorem eq_of_id_eq (h : DistinctIds s) {j : Fin s.fields.length} (hij : (s.fields.get i).id = (s.fields.get j).id) :
    i = j := by
  have hi : (s.fields.map FieldNode.id).get (i.cast (by simp)) =
      (s.fields.map FieldNode.id).get (j.cast (by simp)) := by simpa using hij
  have := (nodup_iff_injective_get.1 h) hi
  exact Fin.ext (by simpa using congrArg Fin.val this)

theorem caseOf_id (h : DistinctIds s) (i : Fin s.fields.length) : caseOf s (s.fields.get i).id = some i := by
  cases hc : caseOf s (s.fields.get i).id with
  | none => exact absurd rfl (caseOf_eq_none_iff.1 hc i)
  | some j => rw [eq_of_id_eq h (id_of_caseOf hc)]

def wireTypeOf : Kind → Nat
  | .int32 | .int64 | .bool | .enum => 0
  | .double => 1
  | .string | .binary | .struct | .map | .list | .void => 2

def bodyValue : (k : Kind) → Body → GoVal k
  | .int32, .varint raw => raw.value.setWidth 32
  | .int64, .varint raw => raw.value
  | .string, .delimited _ payload _ => payload
  | k, _ => GoVal.zero k

theorem setWidth_signExtend (v : BitVec 32) : (v.signExtend 64).setWidth 32 = v := by
  apply BitVec.eq_of_getLsbD_eq
  intro i hi
  rw [BitVec.getLsbD_setWidth, BitVec.getLsbD_signExtend, if_pos hi]
  simp [hi, show i < 64 by omega]

inductive KindBody : Kind → Body → Prop where
  | int32 (raw : Varint) : KindBody .int32 (.varint raw)
  | int64 (raw : Varint) : KindBody .int64 (.varint raw)
  | string (len : Varint) (payload : Slice) (size : len.value.toNat = payload.bytes.length) :
      KindBody .string (.delimited len payload size)

theorem kindBody_of_wireType {k : Kind} {body : Body} (hk : Codable k)
    (hwt : body.wireType = wireTypeOf k) : KindBody k body := by
  cases body with
  | varint raw =>
    cases k with
    | int32 => exact .int32 raw
    | int64 => exact .int64 raw
    | string => exact absurd hwt (show (0 : Nat) ≠ 2 by decide)
    | _ => exact hk.elim
  | fixed64 raw size =>
    cases k with
    | int32 => exact absurd hwt (show (1 : Nat) ≠ 0 by decide)
    | int64 => exact absurd hwt (show (1 : Nat) ≠ 0 by decide)
    | string => exact absurd hwt (show (1 : Nat) ≠ 2 by decide)
    | _ => exact hk.elim
  | delimited len payload size =>
    cases k with
    | int32 => exact absurd hwt (show (2 : Nat) ≠ 0 by decide)
    | int64 => exact absurd hwt (show (2 : Nat) ≠ 0 by decide)
    | string => exact .string len payload size
    | _ => exact hk.elim

def fieldOf (s : StructNode) (r : Record) : Option (Fin s.fields.length) :=
  caseOf s (BitVec.ofNat 32 r.num)

def lastRecord (rs : List Record) (id : BitVec 32) : Option Record :=
  rs.reverse.find? fun r => decide (r.num = id.toNat)

def lastValue (s : StructNode) (rs : List Record) (i : Fin s.fields.length) : GoVal (kindAt s i) :=
  match lastRecord rs (s.fields.get i).id with
  | some r => bodyValue (kindAt s i) r.body
  | none => GoVal.zero (kindAt s i)

/-- A record of a field has the field's wire type, and a record of no field is a varint or
length-delimited. -/
def Declared (s : StructNode) (r : Record) : Prop :=
  match fieldOf s r with
  | some i => r.body.wireType = wireTypeOf (kindAt s i)
  | none => r.body.wireType = 0 ∨ r.body.wireType = 2

instance (s : StructNode) (r : Record) : Decidable (Declared s r) :=
  match h : fieldOf s r with
  | some i => decidable_of_iff (r.body.wireType = wireTypeOf (kindAt s i)) (by simp [Declared, h])
  | none => decidable_of_iff (r.body.wireType = 0 ∨ r.body.wireType = 2) (by simp [Declared, h])

theorem toNat_ofNat_num (r : Record) : (BitVec.ofNat 32 r.num).toNat = r.num := by
  have hlt := r.num_lt
  rw [BitVec.toNat_ofNat]
  exact Nat.mod_eq_of_lt (by omega)

theorem num_of_fieldOf (h : fieldOf s r = some i) : r.num = (s.fields.get i).id.toNat := by
  rw [id_of_caseOf h, toNat_ofNat_num]

theorem fieldOf_eq_some_iff (hids : DistinctIds s) (r : Record) (i : Fin s.fields.length) :
    fieldOf s r = some i ↔ r.num = (s.fields.get i).id.toNat := by
  constructor
  · exact num_of_fieldOf
  · intro h
    have hid : BitVec.ofNat 32 r.num = (s.fields.get i).id := BitVec.eq_of_toNat_eq (by rw [toNat_ofNat_num, h])
    rw [fieldOf, hid]
    exact caseOf_id hids i

theorem lastRecord_append_singleton (rs : List Record) (r : Record) (id : BitVec 32) :
    lastRecord (rs ++ [r]) id = if r.num = id.toNat then some r else lastRecord rs id := by
  simp only [lastRecord, reverse_append, reverse_cons, reverse_nil, nil_append, singleton_append, find?_cons]
  by_cases h : r.num = id.toNat
  all_goals simp [h]

theorem lastRecord_eq_none (h : ∀ r ∈ rs, r.num ≠ id.toNat) : lastRecord rs id = none := by
  rw [lastRecord, find?_eq_none]
  intro r hr
  simpa using h r (mem_reverse.1 hr)

theorem lastRecord_eq_some (hr : r ∈ rs) (hnum : r.num = id.toNat) (huniq : ∀ q ∈ rs, q.num = id.toNat → q = r) :
    lastRecord rs id = some r := by
  cases hl : lastRecord rs id with
  | none =>
    rw [lastRecord, find?_eq_none] at hl
    exact absurd hnum (by simpa using hl r (mem_reverse.2 hr))
  | some q =>
    have hq := mem_reverse.1 (mem_of_find?_eq_some hl)
    have hqnum : q.num = id.toNat := by simpa using find?_some hl
    rw [huniq q hq hqnum]

end HelixRpc.Codegen.Go
