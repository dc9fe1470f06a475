import HelixRpc.Compiler.ProtoGrammar
import HelixRpc.Compiler.ThriftGrammar

/-!
# The two front ends

A schema that both languages can express: structs with plain and optional fields of base types, lists and maps.
-/

set_option autoImplicit false
set_option maxRecDepth 2000

namespace HelixRpc.Compiler

open Foundation List

inductive Scalar where
  | int32
  | int64
  | string
  | binary
  | bool
  | double
  deriving DecidableEq

namespace Scalar

def proto : Scalar → TypeWord Proto.keywords
  | int32 => ⟨⟨"int32", by decide⟩, by decide⟩
  | int64 => ⟨⟨"int64", by decide⟩, by decide⟩
  | string => ⟨⟨"string", by decide⟩, by decide⟩
  | binary => ⟨⟨"bytes", by decide⟩, by decide⟩
  | bool => ⟨⟨"bool", by decide⟩, by decide⟩
  | double => ⟨⟨"double", by decide⟩, by decide⟩

def thrift : Scalar → TypeWord Thrift.keywords
  | int32 => ⟨⟨"i32", by decide⟩, by decide⟩
  | int64 => ⟨⟨"i64", by decide⟩, by decide⟩
  | string => ⟨⟨"string", by decide⟩, by decide⟩
  | binary => ⟨⟨"binary", by decide⟩, by decide⟩
  | bool => ⟨⟨"bool", by decide⟩, by decide⟩
  | double => ⟨⟨"double", by decide⟩, by decide⟩

theorem wordType_eq (t : Scalar) : wordType t.proto.val = wordType t.thrift.val := by
  cases t with
  | _ => rfl

end Scalar

inductive BaseType where
  | scalar (type : Scalar)
  | named (name : TypeWord (Proto.keywords ++ Thrift.keywords))

namespace BaseType

def proto : BaseType → TypeWord Proto.keywords
  | scalar type => type.proto
  | named name => ⟨name.toIdent, fun h => name.notKeyword (mem_append_left _ h)⟩

def thrift : BaseType → TypeWord Thrift.keywords
  | scalar type => type.thrift
  | named name => ⟨name.toIdent, fun h => name.notKeyword (mem_append_right _ h)⟩

theorem wordType_eq (t : BaseType) : wordType t.proto.val = wordType t.thrift.val := by
  cases t with
  | scalar type => exact type.wordType_eq
  | named name => rfl

end BaseType

inductive SchemaType where
  | plain (type : BaseType)
  | optional (type : BaseType)
  | list (type : BaseType)
  | map (key value : BaseType)

namespace SchemaType

def proto : SchemaType → Proto.FieldType
  | plain type => .plain type.proto
  | optional type => .optional type.proto
  | list type => .repeated type.proto
  | map key value => .map key.proto value.proto

def thrift : SchemaType → Thrift.FieldType
  | plain type => .word type.thrift
  | optional type => .word type.thrift
  | list type => .list type.thrift
  | map key value => .map key.thrift value.thrift

def isOptional : SchemaType → Bool
  | optional _ => true
  | _ => false

def isMap : SchemaType → Bool
  | map _ _ => true
  | _ => false

end SchemaType

structure SchemaField where
  name : Ident
  id : Digits
  type : SchemaType
  required : Bool
  separator : Thrift.Separator

namespace SchemaField

def proto (f : SchemaField) : Proto.Field := ⟨f.type.proto, f.name, f.id⟩

def requiredness (f : SchemaField) : Thrift.Requiredness :=
  if f.type.isOptional then .optional else if f.required then .required else .plain

def thrift (f : SchemaField) : Thrift.Field := ⟨⟨false, f.id⟩, f.requiredness, f.type.thrift, f.name, f.separator⟩

end SchemaField

structure SchemaStruct where
  name : Ident
  fields : List SchemaField

namespace SchemaStruct

def proto (s : SchemaStruct) : Proto.Message := ⟨s.name, s.fields.map SchemaField.proto⟩

def thrift (s : SchemaStruct) : Thrift.Struct := ⟨s.name, s.fields.map SchemaField.thrift⟩

end SchemaStruct

/-- Both texts parse, and their structs are the same: names, field names, ids, types and optionality
in order, and the fallback flags. -/
def SameStructs (protoText thriftText : List Char) : Prop :=
  ∃ p t, Proto.parseProto protoText = .ok p ∧ Thrift.parseThrift thriftText = .ok t ∧ p.structs = t.structs

theorem SchemaType.isOptional_proto (t : SchemaType) : t.proto.isOptional = t.isOptional := by
  cases t with
  | _ => rfl

theorem SchemaType.isMap_proto (t : SchemaType) : t.proto.isMap = t.isMap := by
  cases t with
  | _ => rfl

theorem SchemaField.isOptional_thrift (f : SchemaField) : decide (f.requiredness = .optional) = f.type.isOptional := by
  unfold requiredness
  cases f.type.isOptional with
  | true => rfl
  | false =>
    cases f.required <;> rfl

theorem SchemaType.node_eq_iff (t : SchemaType) : t.proto.node = t.thrift.read ↔ t.isMap = false := by
  cases t with
  | plain type => exact iff_of_true type.wordType_eq rfl
  | optional type => exact iff_of_true type.wordType_eq rfl
  | list type =>
    refine iff_of_true ?_ rfl
    rw [proto, thrift, Proto.FieldType.node, Thrift.FieldType.read, type.wordType_eq]
  | map key value =>
    refine iff_of_false ?_ nofun
    -- a map on one side and a struct type on the other
    intro h
    cases congrArg TypeNode.kind h

theorem SchemaField.read_eq_iff (f : SchemaField) : f.proto.read = f.thrift.read ↔ f.type.isMap = false := by
  rw [← f.type.node_eq_iff]
  constructor
  · intro h
    exact congrArg FieldNode.type h
  · intro h
    have hopt : f.type.proto.isOptional = decide (f.requiredness = .optional) :=
      f.type.isOptional_proto.trans f.isOptional_thrift.symm
    rw [Proto.Field.read, proto, h, hopt]
    rfl

theorem SchemaStruct.read_eq_iff (s : SchemaStruct) :
    s.proto.read = s.thrift.read ↔ ∀ f ∈ s.fields, f.type.isMap = false := by
  have hfields : s.proto.fields.map Proto.Field.read = s.thrift.fields.map Thrift.Field.read ↔
      ∀ f ∈ s.fields, f.type.isMap = false := by
    rw [proto, thrift, map_map, map_map, map_inj_left]
    exact forall₂_congr fun f _ => f.read_eq_iff
  constructor
  · intro h
    exact hfields.1 (congrArg StructNode.fields h)
  · intro h
    have hfallback : s.proto.fields.any (·.type.isMap) = false := by
      rw [proto, any_map, any_eq_false]
      intro f hf
      show ¬ f.type.proto.isMap = true
      rw [f.type.isMap_proto, h f hf]
      decide
    rw [Proto.Message.read, Thrift.Struct.read, hfields.2 h, hfallback]
    rfl

theorem sameStructs_reads {headers : List Proto.Header} {namespaces : List Thrift.Namespace}
    {schema : List SchemaStruct} {protoText thriftText : List Char}
    (hproto : Printed (Proto.fileTokens headers (schema.map SchemaStruct.proto)) protoText)
    (hthrift : Printed (Thrift.fileTokens namespaces (schema.map SchemaStruct.thrift)) thriftText) :
    SameStructs protoText thriftText ↔ ∀ s ∈ schema, s.proto.read = s.thrift.read := by
  rw [← map_inj_left, SameStructs, Proto.parseProto_file hproto, Thrift.parseThrift_file hthrift]
  constructor
  · rintro ⟨p, t, hp, ht, h⟩
    cases hp
    cases ht
    exact map_map.symm.trans (h.trans map_map)
  · intro h
    refine ⟨_, _, rfl, rfl, ?_⟩
    dsimp only
    rw [map_map, map_map]
    exact h

/-- The two parsers build the same structs for a schema, in every layout of its two
texts, if and only if no field of the schema is a map. -/
theorem sameStructs_iff (headers : List Proto.Header) (namespaces : List Thrift.Namespace)
    (schema : List SchemaStruct) {protoText thriftText : List Char}
    (hproto : Printed (Proto.fileTokens headers (schema.map SchemaStruct.proto)) protoText)
    (hthrift : Printed (Thrift.fileTokens namespaces (schema.map SchemaStruct.thrift)) thriftText) :
    SameStructs protoText thriftText ↔ ∀ s ∈ schema, ∀ f ∈ s.fields, f.type.isMap = false := by
  rw [sameStructs_reads hproto hthrift]
  exact forall₂_congr fun s _ => s.read_eq_iff

def order : SchemaStruct :=
  ⟨⟨"Order", by decide⟩, [⟨⟨"serial", by decide⟩, ⟨"1", by decide, by decide⟩, .plain (.scalar .int64), true, .comma⟩,
      ⟨⟨"note", by decide⟩, ⟨"2", by decide, by decide⟩, .optional (.scalar .string), false, .semicolon⟩,
      ⟨⟨"prices", by decide⟩, ⟨"3", by decide, by decide⟩, .list (.scalar .double), false, .nothing⟩,
      ⟨⟨"buyer", by decide⟩, ⟨"4", by decide, by decide⟩,
        .plain (.named ⟨⟨"Person", by decide⟩, by decide⟩), false, .nothing⟩]⟩

def orderProto : List Char :=
  "message Order \x7b
  int64 serial = 1; optional string note = 2;
  repeated double prices = 3; Person buyer = 4;
\x7d
".toList

def orderThrift : List Char :=
  "namespace go shop
struct Order \x7b
  1: required i64 serial, 2: optional string note;
  3: list<double> prices 4: Person buyer
\x7d
".toList

def stock : SchemaStruct :=
  ⟨⟨"Stock", by decide⟩,
    [⟨⟨"counts", by decide⟩, ⟨"1", by decide, by decide⟩, .map (.scalar .string) (.scalar .int32), false, .nothing⟩]⟩

def stockProto : List Char := "message Stock \x7b map<string, int32> counts = 1; \x7d".toList

def stockThrift : List Char := "struct Stock \x7b 1: map<string, i32> counts \x7d".toList

theorem printed_orderProto : Printed (Proto.fileTokens [] ([order].map SchemaStruct.proto)) orderProto :=
  printed_literal rfl (by decide +kernel) (by decide +kernel)

theorem printed_orderThrift :
    Printed (Thrift.fileTokens [⟨⟨"go", by decide⟩, ⟨"shop", by decide⟩⟩]
      ([order].map SchemaStruct.thrift)) orderThrift :=
  printed_literal rfl (by decide +kernel) (by decide +kernel)

theorem printed_stockProto : Printed (Proto.fileTokens [] ([stock].map SchemaStruct.proto)) stockProto :=
  printed_literal rfl (by decide +kernel) (by decide +kernel)

theorem printed_stockThrift : Printed (Thrift.fileTokens [] ([stock].map SchemaStruct.thrift)) stockThrift :=
  printed_literal rfl (by decide +kernel) (by decide +kernel)

theorem sameStructs_iff_order : SameStructs orderProto orderThrift :=
  (sameStructs_iff [] [⟨⟨"go", by decide⟩, ⟨"shop", by decide⟩⟩] [order] printed_orderProto
    printed_orderThrift).2 (by decide)

theorem stock_differs : Proto.parseProto stockProto = .ok { structs := [⟨"Stock", [⟨"counts", 1#32,
      ⟨.map, "", some ⟨.string, "", none, none⟩, some ⟨.int32, "", none, none⟩⟩, false⟩], true⟩] } ∧
      Thrift.parseThrift stockThrift = .ok { structs := [⟨"Stock", [⟨"counts", 1#32,
        ⟨.struct, "map", none, none⟩, false⟩], false⟩] } ∧ ¬ SameStructs stockProto stockThrift := by
  refine ⟨Proto.parseProto_file printed_stockProto, Thrift.parseThrift_file printed_stockThrift, ?_⟩
  intro h
  have hread := (sameStructs_reads printed_stockProto printed_stockThrift).1 h stock mem_cons_self
  cases congrArg StructNode.hasFallback hread

end HelixRpc.Compiler
