import HelixRpc.Compiler.ParserBase

/-!
# `TranspileThriftToProto`

Model of `compiler/compat/thrift_transpiler.go`, which rewrites a Thrift file line by line.
-/

namespace HelixRpc.Compiler.Migration

def isBlank (ch : Char) : Bool := ch = ' ' || ch = '\t' || ch = '\n' || ch = '\r' || ch = Char.ofNat 12

def isWordChar (ch : Char) : Bool :=
  let n := ch.toNat
  (65 ≤ n && n ≤ 90) || (97 ≤ n && n ≤ 122) || isDigit ch || ch = '_'

def run (p : Char → Bool) (t : List Char) : Option (List Char × List Char) :=
  if t.takeWhile p = [] then none else some (t.takeWhile p, t.dropWhile p)

def literal (ch : Char) (t : List Char) : Option (List Char) :=
  if t.head? = some ch then some t.tail else none

def keyword (word : String) (t : List Char) : Option (List Char) :=
  if (t.take word.length).map Char.toLower = word.toList then some (t.drop word.length) else none

variable (line : List Char)

def structStart : Option (List Char) := do
  let rest ← keyword "struct" (line.dropWhile isBlank)
  let (_, rest) ← run isBlank rest
  let (structName, rest) ← run isWordChar rest
  let _ ← literal '{' (rest.dropWhile isBlank)
  pure structName

def structEnd : Bool := (line.dropWhile isBlank).head? = some '}'

structure FieldMatch where
  fieldID : List Char
  fieldType : List Char
  fieldName : List Char

def fieldMatch : Option FieldMatch := do
  let (fieldID, rest) ← run isDigit (line.dropWhile isBlank)
  let rest ← literal ':' (rest.dropWhile isBlank)
  let (fieldType, rest) ← run isWordChar (rest.dropWhile isBlank)
  let (_, rest) ← run isBlank rest
  let (fieldName, _) ← run isWordChar rest
  pure ⟨fieldID, fieldType, fieldName⟩

def mapThriftTypeToProto (t : List Char) : String :=
  let lower := String.ofList (t.map Char.toLower)
  if lower = "i16" ∨ lower = "i32" then "int32"
  else if lower = "i64" then "int64"
  else if lower = "string" then "string"
  else if lower = "double" then "double"
  else if lower = "bool" then "bool"
  else if lower = "binary" then "bytes"
  else "string"

def isSkipped : Bool :=
  let trimmed := trimSpace line
  trimmed = [] || ['#'].isPrefixOf trimmed || ['/', '/'].isPrefixOf trimmed

def messageStart (structName : List Char) : List Char :=
  "message ".toList ++ (structName ++ " \x7b\n".toList)

def messageEnd : List Char := "\x7d\n\n".toList

def fieldText (protoType fieldName fieldID : List Char) : List Char :=
  "    ".toList ++ (protoType ++ (" ".toList ++ (fieldName ++ (" = ".toList ++ (fieldID ++ ";\n".toList)))))

/-- One iteration of the loop over the lines: whether it is inside a struct, and what was written. -/
def transpileLine (st : Bool × List Char) (line : List Char) : Bool × List Char :=
  let (inStruct, out) := st
  if isSkipped line then (inStruct, out)
  -- outside of a struct every line that starts none is dropped
  else if inStruct = false then
    match structStart line with
    | some structName => (true, out ++ messageStart structName)
    | none => (false, out)
  else if structEnd line then (false, out ++ messageEnd)
  -- inside of a struct every line that is no field is dropped
  else
    match fieldMatch line with
    | some m => (true, out ++ fieldText (mapThriftTypeToProto m.fieldType).toList m.fieldName m.fieldID)
    | none => (true, out)

def fileStart : List Char :=
  "// Automatically transpiled from Thrift by Helix RPC. DO NOT EDIT.
syntax = \"proto3\";

package helix.migrated;

".toList

def transpileThriftToProto (thriftContent : List Char) : List Char :=
  ((thriftContent.splitOn '\n').foldl transpileLine (false, fileStart)).2

end HelixRpc.Compiler.Migration
