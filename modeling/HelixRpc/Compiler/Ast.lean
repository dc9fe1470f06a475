import HelixRpc.Foundation.Slice

/-!
# The unified AST

Data model of `compiler/ast/ast.go`: the two parsers produce it, the linter, the compatibility checker and the code
generators read it.
-/

namespace HelixRpc.Compiler

inductive Kind where
  | int32
  | int64
  | string
  | binary
  | bool
  | double
  | void
  | map
  | list
  | struct
  | enum
  deriving DecidableEq, Repr

structure TypeNode where
  kind : Kind
  name : String := ""
  keyType : Option TypeNode := none
  valueType : Option TypeNode := none

structure FieldNode where
  name : String
  id : BitVec 32
  type : TypeNode
  optional : Bool := false

structure StructNode where
  name : String
  fields : List FieldNode
  hasFallback : Bool := false

structure EnumNode where
  name : String
  values : List (String × BitVec 32)
  nodup : (values.map Prod.fst).Nodup

structure MethodNode where
  name : String
  inputType : String
  outputType : String
  clientStreaming : Bool := false
  serverStreaming : Bool := false
  restMethod : String := ""
  restPath : String := ""

structure ServiceNode where
  name : String
  methods : List MethodNode

structure AST where
  ns : String := ""
  enums : List EnumNode := []
  structs : List StructNode := []
  services : List ServiceNode := []

abbrev FieldNode.kind (f : FieldNode) : Kind := f.type.kind

end HelixRpc.Compiler
