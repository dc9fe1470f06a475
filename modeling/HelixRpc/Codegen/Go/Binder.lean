import HelixRpc.Codegen.Go.Struct
import HelixRpc.Runtime.Go.Router

/-!
# The generated binder

Model of the function that `generateBinderString` (`compiler/codegen/go_generator.go`) writes for a method.
-/

namespace HelixRpc.Codegen.Go

open Foundation Compiler Runtime.Go

structure Scanner where
  int32 : Text → Option (BitVec 32)
  int64 : Text → Option (BitVec 64)
  bool : Text → Option Bool
  string : Text → Slice

def Scanner.scan (sc : Scanner) : (k : Kind) → Text → Option (GoVal k)
  | .int32, val => sc.int32 val
  | .int64, val => sc.int64 val
  | .string, val => some (sc.string val)
  | .bool, val => sc.bool val
  | .binary, _ | .double, _ | .void, _ | .map, _ | .list, _ | .struct, _ | .enum, _ => none

variable {s : StructNode}

def fieldName (s : StructNode) (i : Fin s.fields.length) : Text := (s.fields.get i).name.toList

def bindField (sc : Scanner) (params : Params) (p : GoStruct s) (i : Fin s.fields.length) : GoVal (kindAt s i) :=
  match paramValue params (fieldName s i) with
  | some val => (sc.scan (kindAt s i) val).getD (p i)
  | none => p i

def binder (sc : Scanner) (p : GoStruct s) (params : Params) : Except Text (GoStruct s) :=
  .ok fun i => bindField sc params p i

end HelixRpc.Codegen.Go
