import HelixRpc.Compiler.Ast
import Mathlib.Data.List.Dedup

/-!
# The compatibility checker

Model of `DiffASTs` (`compiler/compat/checker.go`).
-/

namespace HelixRpc.Compiler

open List

mutual

def typesEqual : TypeNode → TypeNode → Bool
  | ⟨kind, name, key, value⟩, ⟨kind', name', key', value'⟩ =>
    if kind ≠ kind' then false
    else if name ≠ name' then false
    else pointersEqual key key' && pointersEqual value value'

def pointersEqual : Option TypeNode → Option TypeNode → Bool
  | none, none => true
  | some t, some t' => typesEqual t t'
  | _, _ => false
end

inductive Note where
  | removedStruct (name : String)
  | removedField (name field : String)
  | changedId (name field : String) (old new : BitVec 32)
  | changedType (name field : String) (old new : TypeNode)
  | madeRequired (name field : String)
  | addedRequired (name field : String)
  | addedOptional (name field : String)
  | addedStruct (name : String)
  | removedEnum (name : String)
  | removedValue (name value : String)
  | changedValue (name value : String) (old new : BitVec 32)
  | addedValue (name value : String)
  | addedEnum (name : String)
  | removedService (name : String)
  | removedMethod (name method : String)
  | changedInput (name method old new : String)
  | changedOutput (name method old new : String)
  | changedClientStreaming (name method : String)
  | changedServerStreaming (name method : String)
  | addedMethod (name method : String)
  | addedService (name : String)

structure CompatReport where
  breaking : List Note := []
  safe : List Note := []
  hasBreaking : Bool := false

variable (r : CompatReport)

def CompatReport.addBreaking (n : Note) : CompatReport :=
  { r with breaking := r.breaking ++ [n], hasBreaking := true }

def CompatReport.addSafe (n : Note) : CompatReport := { r with safe := r.safe ++ [n] }

def CompatReport.breakIf (cond : Bool) (n : Note) : CompatReport :=
  if cond then r.addBreaking n else r

@[simp] theorem CompatReport.addBreaking_hasBreaking (n : Note) : (r.addBreaking n).hasBreaking = true := rfl

@[simp] theorem CompatReport.addSafe_hasBreaking (n : Note) : (r.addSafe n).hasBreaking = r.hasBreaking := rfl

@[simp] theorem CompatReport.breakIf_hasBreaking (cond : Bool) (n : Note) :
    (r.breakIf cond n).hasBreaking = (r.hasBreaking || cond) := by
  cases cond <;> simp [breakIf]

section
variable {α : Type} (key : α → String)

def index (xs : List α) (name : String) : Option α := xs.reverse.find? fun x => decide (key x = name)

def indexed (xs : List α) : List α := (xs.map key).dedup.filterMap (index key xs)

variable {xs : List α} {x : α}

theorem key_of_index {name : String} (h : index key xs name = some x) : key x = name := by simpa using find?_some h

theorem mem_of_index {name : String} (h : index key xs name = some x) : x ∈ xs := mem_reverse.1 (mem_of_find?_eq_some h)

theorem mem_indexed_iff : x ∈ indexed key xs ↔ index key xs (key x) = some x := by
  simp only [indexed, mem_filterMap, mem_dedup, mem_map]
  constructor
  · rintro ⟨name, -, h⟩
    rwa [key_of_index key h]
  · intro h
    exact ⟨key x, ⟨x, mem_of_index key h, rfl⟩, h⟩

theorem exists_index_of_mem (hx : x ∈ xs) : ∃ y, index key xs (key x) = some y := by
  cases h : index key xs (key x) with
  | none =>
    have := find?_eq_none.1 h x (mem_reverse.2 hx)
    simp at this
  | some y => exact ⟨y, rfl⟩

theorem index_of_mem (hnames : (xs.map key).Nodup) (hx : x ∈ xs) : index key xs (key x) = some x := by
  obtain ⟨y, h⟩ := exists_index_of_mem key hx
  rw [h, inj_on_of_nodup_map hnames (mem_of_index key h) hx (key_of_index key h)]
end

section
variable {α : Type} (key : α → String)

/-- The loop over the old index: an entry without a new one of its name is reported as removed, the
others are compared with the new one. -/
def compareAll (old new : List α) (removed : String → Note)
    (compare : α → α → CompatReport → CompatReport) (r : CompatReport) : CompatReport :=
  (indexed key old).foldl (fun r x =>
    match index key new (key x) with
    | none => r.addBreaking (removed (key x))
    | some y => compare x y r) r

def addAll (old new : List α) (added : α → CompatReport → CompatReport) (r : CompatReport) : CompatReport :=
  (indexed key new).foldl (fun r y => if (index key old (key y)).isSome then r else added y r) r
end

def compareFields (name : String) (oldField newField : FieldNode) (r : CompatReport) : CompatReport :=
  let fName := oldField.name
  let r := r.breakIf (oldField.id ≠ newField.id)
    (.changedId name fName oldField.id newField.id)
  let r := r.breakIf (!typesEqual oldField.type newField.type)
    (.changedType name fName oldField.type newField.type)
  r.breakIf (oldField.optional && !newField.optional) (.madeRequired name fName)

def addField (name : String) (newField : FieldNode) (r : CompatReport) : CompatReport :=
  if !newField.optional then r.addBreaking (.addedRequired name newField.name)
  else r.addSafe (.addedOptional name newField.name)

def compareStructs (oldStruct newStruct : StructNode) (r : CompatReport) : CompatReport :=
  let name := oldStruct.name
  let r := compareAll FieldNode.name oldStruct.fields newStruct.fields (.removedField name)
    (compareFields name) r
  addAll FieldNode.name oldStruct.fields newStruct.fields (addField name) r

def compareEnums (oldEnum newEnum : EnumNode) (r : CompatReport) : CompatReport :=
  let name := oldEnum.name
  let r := compareAll Prod.fst oldEnum.values newEnum.values (.removedValue name)
    (fun old new r => r.breakIf (old.2 ≠ new.2) (.changedValue name old.1 old.2 new.2)) r
  addAll Prod.fst oldEnum.values newEnum.values (fun v r => r.addSafe (.addedValue name v.1)) r

def compareMethods (name : String) (oldMethod newMethod : MethodNode) (r : CompatReport) : CompatReport :=
  let mName := oldMethod.name
  let r := r.breakIf (oldMethod.inputType ≠ newMethod.inputType)
    (.changedInput name mName oldMethod.inputType newMethod.inputType)
  let r := r.breakIf (oldMethod.outputType ≠ newMethod.outputType)
    (.changedOutput name mName oldMethod.outputType newMethod.outputType)
  let r := r.breakIf (oldMethod.clientStreaming ≠ newMethod.clientStreaming)
    (.changedClientStreaming name mName)
  r.breakIf (oldMethod.serverStreaming ≠ newMethod.serverStreaming)
    (.changedServerStreaming name mName)

def compareServices (oldSvc newSvc : ServiceNode) (r : CompatReport) : CompatReport :=
  let name := oldSvc.name
  let r := compareAll MethodNode.name oldSvc.methods newSvc.methods (.removedMethod name)
    (compareMethods name) r
  addAll MethodNode.name oldSvc.methods newSvc.methods
    (fun m r => r.addSafe (.addedMethod name m.name)) r

def diffASTs (oldAST newAST : AST) : CompatReport :=
  let r : CompatReport := {}
  let r := compareAll StructNode.name oldAST.structs newAST.structs .removedStruct compareStructs r
  let r := addAll StructNode.name oldAST.structs newAST.structs
    (fun s r => r.addSafe (.addedStruct s.name)) r
  let r := compareAll EnumNode.name oldAST.enums newAST.enums .removedEnum compareEnums r
  let r := addAll EnumNode.name oldAST.enums newAST.enums
    (fun e r => r.addSafe (.addedEnum e.name)) r
  let r := compareAll ServiceNode.name oldAST.services newAST.services .removedService
    compareServices r
  addAll ServiceNode.name oldAST.services newAST.services
    (fun s r => r.addSafe (.addedService s.name)) r

mutual

theorem typesEqual_iff : ∀ t t' : TypeNode, typesEqual t t' = true ↔ t = t'
  | ⟨kind, name, key, value⟩, ⟨kind', name', key', value'⟩ => by
      have hkey := pointersEqual_iff key key'
      have hvalue := pointersEqual_iff value value'
      by_cases hkind : kind = kind'
      · by_cases hname : name = name'
        · simp [typesEqual, hkind, hname, hkey, hvalue]
        · simp [typesEqual, hname]
      · simp [typesEqual, hkind]

theorem pointersEqual_iff : ∀ p p' : Option TypeNode, pointersEqual p p' = true ↔ p = p'
  | none, none => by simp [pointersEqual]
  | none, some t' => by simp [pointersEqual]
  | some t, none => by simp [pointersEqual]
  | some t, some t' => by simp [pointersEqual, typesEqual_iff t t']
end

section
variable {α : Type} (key : α → String)

def Kept (R : α → α → Prop) (old new : List α) : Prop :=
  ∀ name x, index key old name = some x → ∃ y, index key new name = some y ∧ R x y

def Added (P : α → Prop) (old new : List α) : Prop :=
  ∀ name y, index key new name = some y → index key old name = none → P y
end

structure FieldExtends (old new : FieldNode) : Prop where
  id : old.id = new.id
  type : old.type = new.type
  optional : old.optional = true → new.optional = true

structure StructExtends (old new : StructNode) : Prop where
  kept : Kept FieldNode.name FieldExtends old.fields new.fields
  added : Added FieldNode.name (fun f => f.optional = true) old.fields new.fields

def EnumExtends (old new : EnumNode) : Prop := Kept Prod.fst (fun v v' => v.2 = v'.2) old.values new.values

structure MethodExtends (old new : MethodNode) : Prop where
  inputType : old.inputType = new.inputType
  outputType : old.outputType = new.outputType
  clientStreaming : old.clientStreaming = new.clientStreaming
  serverStreaming : old.serverStreaming = new.serverStreaming

def ServiceExtends (old new : ServiceNode) : Prop := Kept MethodNode.name MethodExtends old.methods new.methods

structure Extends (old new : AST) : Prop where
  structs : Kept StructNode.name StructExtends old.structs new.structs
  enums : Kept EnumNode.name EnumExtends old.enums new.enums
  services : Kept ServiceNode.name ServiceExtends old.services new.services

def Checks (f : CompatReport → CompatReport) (P : Prop) : Prop :=
  ∀ r, (f r).hasBreaking = false ↔ r.hasBreaking = false ∧ P

variable {α : Type} {f : CompatReport → CompatReport}
variable {P Q : Prop} {key : α → String} {old new : List α}

theorem Checks.comp {g : CompatReport → CompatReport} (hf : Checks f P) (hg : Checks g Q) :
    Checks (fun r => g (f r)) (P ∧ Q) := by
  intro r
  rw [hg, hf, and_assoc]

theorem Checks.congr (hf : Checks f P) (h : P ↔ Q) : Checks f Q := by
  intro r
  rw [hf, h]

theorem checks_breakIf (cond : Bool) (n : Note) : Checks (fun r => r.breakIf cond n) (cond = false) := by
  intro r
  simp

theorem checks_addSafe (n : Note) : Checks (fun r => r.addSafe n) True := by
  intro r
  simp

theorem checks_foldl {f : CompatReport → α → CompatReport} {P : α → Prop} (h : ∀ x, Checks (fun r => f r x) (P x))
    (xs : List α) : Checks (fun r => xs.foldl f r) (∀ x ∈ xs, P x) := by
  induction xs with
  | nil => intro r; simp
  | cons x xs ih => exact ((h x).comp ih).congr forall_mem_cons.symm

theorem checks_compareAll {R : α → α → Prop} (removed : String → Note)
    {compare : α → α → CompatReport → CompatReport} (h : ∀ x y, Checks (compare x y) (R x y)) :
    Checks (compareAll key old new removed compare) (Kept key R old new) := by
  refine Checks.congr (checks_foldl (P := fun x => ∃ y, index key new (key x) = some y ∧ R x y) ?_ (indexed key old)) ?_
  · intro x r
    cases hx : index key new (key x) with
    | none => simp
    | some y => simpa using h x y r
  · constructor
    -- the loop visits the entries, and an entry is found under its own name
    · intro hall name x hx
      have hkey := key_of_index key hx
      subst hkey
      exact hall x ((mem_indexed_iff key).2 hx)
    · intro hkept x hx
      exact hkept (key x) x ((mem_indexed_iff key).1 hx)

theorem checks_addAll {P : α → Prop} {added : α → CompatReport → CompatReport}
    (h : ∀ y, Checks (added y) (P y)) : Checks (addAll key old new added) (Added key P old new) := by
  refine Checks.congr (checks_foldl (P := fun y => index key old (key y) = none → P y) ?_ (indexed key new)) ?_
  · intro y r
    cases hy : index key old (key y) with
    | none => simpa using h y r
    | some x => simp
  · constructor
    · intro hall name y hy hnone
      have hkey := key_of_index key hy
      subst hkey
      exact hall y ((mem_indexed_iff key).2 hy) hnone
    · intro hadded y hy hnone
      exact hadded (key y) y ((mem_indexed_iff key).1 hy) hnone

theorem checks_compareFields (name : String) (old new : FieldNode) :
    Checks (compareFields name old new) (FieldExtends old new) := by
  refine (((checks_breakIf _ _).comp (checks_breakIf _ _)).comp (checks_breakIf _ _)).congr ?_
  simp only [decide_eq_false_iff_not, not_not, Bool.not_eq_false', typesEqual_iff]
  constructor
  · rintro ⟨⟨hid, htype⟩, hopt⟩
    refine ⟨hid, htype, ?_⟩
    intro h
    simpa [h] using hopt
  · rintro ⟨hid, htype, hopt⟩
    refine ⟨⟨hid, htype⟩, ?_⟩
    cases h : old.optional with
    | false => rfl
    | true => simp [hopt h]

theorem checks_addField (name : String) (new : FieldNode) : Checks (addField name new) (new.optional = true) := by
  intro r
  cases h : new.optional <;> simp [addField, h]

theorem checks_compareStructs (old new : StructNode) : Checks (compareStructs old new) (StructExtends old new) := by
  refine ((checks_compareAll _ (checks_compareFields old.name)).comp
    (checks_addAll (checks_addField old.name))).congr ?_
  constructor
  · rintro ⟨hkept, hadded⟩
    exact ⟨hkept, hadded⟩
  · rintro ⟨hkept, hadded⟩
    exact ⟨hkept, hadded⟩

theorem Checks.addAll_safe (hf : Checks f P) (key : α → String) (old new : List α) (note : α → Note) :
    Checks (fun r => addAll key old new (fun y r => r.addSafe (note y)) (f r)) P := by
  refine (hf.comp (checks_addAll fun y => checks_addSafe (note y))).congr ?_
  constructor
  · exact And.left
  · intro h
    exact ⟨h, fun _ _ _ _ => trivial⟩

theorem checks_compareEnums (old new : EnumNode) : Checks (compareEnums old new) (EnumExtends old new) := by
  refine (checks_compareAll _ ?_).addAll_safe Prod.fst old.values new.values _
  intro v v'
  exact (checks_breakIf _ _).congr (by simp)

theorem checks_compareMethods (name : String) (old new : MethodNode) :
    Checks (compareMethods name old new) (MethodExtends old new) := by
  refine ((((checks_breakIf _ _).comp (checks_breakIf _ _)).comp (checks_breakIf _ _)).comp
    (checks_breakIf _ _)).congr ?_
  simp only [decide_eq_false_iff_not, not_not]
  constructor
  · rintro ⟨⟨⟨hin, hout⟩, hclient⟩, hserver⟩
    exact ⟨hin, hout, hclient, hserver⟩
  · rintro ⟨hin, hout, hclient, hserver⟩
    exact ⟨⟨⟨hin, hout⟩, hclient⟩, hserver⟩

theorem checks_compareServices (old new : ServiceNode) : Checks (compareServices old new) (ServiceExtends old new) :=
  (checks_compareAll _ (checks_compareMethods old.name)).addAll_safe MethodNode.name old.methods
    new.methods _

theorem diffASTs_hasBreaking_iff (old new : AST) : (diffASTs old new).hasBreaking = false ↔ Extends old new := by
  have hstructs : Checks _ (Kept StructNode.name StructExtends old.structs new.structs) :=
    (checks_compareAll .removedStruct checks_compareStructs).addAll_safe
      StructNode.name old.structs new.structs fun s => .addedStruct s.name
  have henums : Checks _ (Kept EnumNode.name EnumExtends old.enums new.enums) :=
    (checks_compareAll .removedEnum checks_compareEnums).addAll_safe
      EnumNode.name old.enums new.enums fun e => .addedEnum e.name
  have hservices : Checks _ (Kept ServiceNode.name ServiceExtends old.services new.services) :=
    (checks_compareAll .removedService checks_compareServices).addAll_safe
      ServiceNode.name old.services new.services fun s => .addedService s.name
  refine (((hstructs.comp henums).comp hservices) {}).trans ?_
  constructor
  · rintro ⟨-, ⟨hs, he⟩, hv⟩
    exact ⟨hs, he, hv⟩
  · rintro ⟨hs, he, hv⟩
    exact ⟨rfl, ⟨hs, he⟩, hv⟩

end HelixRpc.Compiler
