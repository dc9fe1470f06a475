import HelixRpc.Compiler.ParserBase

/-!
# `ParseThrift`

Model of the Thrift parser of `compiler/parser/thrift_parser.go`, on the tokens of the text.
-/

namespace HelixRpc.Compiler.Thrift

open Foundation List Outcome
variable (toks : List Token)

def parseNamespace : ParseOutcome (String × List Token) := do
  let (_, toks) ← expectIdent "expected language target or '*' after namespace" toks
  expectIdent "expected namespace identifier" toks

def requiredness : List Token → Bool × List Token
  | .ident word :: rest =>
    if word = "optional" then (true, rest)
    else if word = "required" then (false, rest)
    else (false, .ident word :: rest)
  | toks => (false, toks)

def mapParameters : List Token := skipPunct ['>'] (skipPunct [','] toks.tail).tail

def fieldType (word : String) (toks : List Token) : ParseOutcome (String × List Token) :=
  if word = "list" ∧ atPunct '<' toks then do
    let (subType, toks) ← expectIdent "expected list item type" toks.tail
    let toks ← expectPunct '>' "expected '>' to close list type" toks
    pure ("list<" ++ subType ++ ">", toks)
  -- the types of the key and the value are lost
  else if word = "map" ∧ atPunct '<' toks then .ok ("map", mapParameters toks.tail)
  else .ok (word, toks)

def structItem (name : String) : Item StructNode
  | .int fieldId, rest, str => do
      let toks ← expectPunct ':'
        ("expected ':' after field ID " ++ toString (atoi fieldId) ++ " in struct " ++ name) rest
      let (word, toks') ← expectIdent ("expected type name for field in struct " ++ name)
        (requiredness toks).2
      let (typeName, toks') ← fieldType word toks'
      let (fieldName, toks') ← expectIdent ("expected field name identifier in struct " ++ name) toks'
      let fType := parseTypeNode typeName
      pure (skipPunct [';', ','] toks', { str with
        fields := str.fields ++ [⟨fieldName, readID fieldId, fType, (requiredness toks).1⟩]
        hasFallback := str.hasFallback || fType.kind = .map })
  | _, rest, str => .ok (rest, str)

def parseStruct : ParseOutcome (StructNode × List Token) :=
  parseDecl "struct" structItem (fun name => ⟨name, [], false⟩) toks

def enumValue (enumKey : String) (currentVal : BitVec 32) (toks : List Token) : ParseOutcome (BitVec 32 × List Token) :=
  if atPunct '=' toks then do
    let (val, toks) ← expectInt ("expected integer value for enum key " ++ enumKey) toks.tail
    pure (readID val, toks)
  else .ok (currentVal, toks)

def enumItem : Item (EnumNode × BitVec 32)
  | .ident enumKey, rest, (en, currentVal) => do
      -- `currentVal++` wraps around like an `int32`
      let (val, toks) ← enumValue enumKey currentVal rest
      pure (skipPunct [';', ','] toks, (setEnumValue en enumKey val, val + 1))
  | _, rest, st => .ok (rest, st)

def parseEnum : ParseOutcome (EnumNode × List Token) := do
  let (st, toks) ← parseDecl "enum" (fun _ => enumItem)
    (fun name => (⟨name, [], nodup_nil⟩, 0)) toks
  pure (st.1, toks)

def skipParamID : List Token → List Token
  | .int _ :: rest => skipPunct [':'] rest
  | toks => toks

def skipIdent : List Token → List Token
  | .ident _ :: rest => rest
  | toks => toks

def serviceItem (name : String) : Item ServiceNode
  | .ident outputType, rest, srv => do
      let (methodName, toks) ←
        expectIdent ("expected method name identifier in service " ++ name) rest
      let toks ← expectPunct '(' ("expected '(' after method name " ++ methodName) toks
      let (inputType, toks) ←
        expectIdent ("expected input type in method " ++ methodName ++ " arguments")
          (skipParamID toks)
      let toks ← expectPunct ')' ("expected ')' after arguments of method " ++ methodName)
        (skipIdent toks)
      pure (skipPunct [';', ','] toks, { srv with
        methods := srv.methods ++ [⟨methodName, inputType, outputType, false, false, "", ""⟩] })
  | _, rest, srv => .ok (rest, srv)

def parseService : ParseOutcome (ServiceNode × List Token) :=
  parseDecl "service" serviceItem (fun name => ⟨name, []⟩) toks

/-- An item of a file (`parseAST`): the first namespace that is not empty is kept, and the structs of
unions and exceptions have the fallback flag. -/
def astItem : Item AST
  | .ident word, rest, res =>
    if word = "namespace" then do
      let (ns, toks) ← parseNamespace rest
      pure (toks, { res with ns := if res.ns = "" then ns else res.ns })
    else if word = "struct" ∨ word = "union" ∨ word = "exception" then do
      let (str, toks) ← parseStruct rest
      let hasFallback := str.hasFallback || word = "union" || word = "exception"
      pure (toks, { res with structs := res.structs ++ [{ str with hasFallback }] })
    else if word = "enum" then do
      let (en, toks) ← parseEnum rest
      pure (toks, { res with enums := res.enums ++ [en] })
    else if word = "service" then do
      let (srv, toks) ← parseService rest
      pure (toks, { res with services := res.services ++ [srv] })
    else .ok (rest, res)
  | _, rest, res => .ok (rest, res)

def parseThrift (content : List Char) : ParseOutcome AST := parseFile astItem (tokens content) {}

theorem length_requiredness : (requiredness toks).2.length ≤ toks.length := by
  unfold requiredness
  split
  · split
    · exact Nat.le_succ _
    · split
      · exact Nat.le_succ _
      · exact Nat.le_refl _
  · exact Nat.le_refl _

theorem length_mapParameters : (mapParameters toks).length ≤ toks.length := by
  have hvalue := length_skipPunct ['>'] (skipPunct [','] toks.tail).tail
  have hkey := length_skipPunct [','] toks.tail
  rw [length_tail] at hvalue hkey
  exact Nat.le_trans hvalue (by omega)

theorem leaves_fieldType (word : String) (toks : List Token) :
    Leaves toks.length Prod.snd (fieldType word toks) := by
  have htail : toks.tail.length ≤ toks.length := by
    rw [length_tail]
    exact Nat.sub_le _ _
  refine .ite ?_ (.ite (.ok (Nat.le_trans (length_mapParameters _) htail)) (.ok (Nat.le_refl _)))
  refine ((leaves_expectIdent _ _).mono htail).bind fun subType => ?_
  exact (leaves_expectPunct _ _ _).bind fun toks => .ok (Nat.le_refl _)

theorem shrinks_structItem (name : String) : Shrinks (structItem name) := by
  intro tok rest str
  cases tok with
  | int fieldId =>
    refine (leaves_expectPunct _ _ _).bind fun toks => ?_
    refine ((leaves_expectIdent _ _).mono (length_requiredness toks)).bind fun word => ?_
    refine (leaves_fieldType _ _).bind fun typeName => ?_
    exact (leaves_expectIdent _ _).bind fun fieldName => .ok (length_skipPunct _ _)
  | _ => exact .ok (Nat.le_refl _)

theorem leaves_enumValue (enumKey : String) (currentVal : BitVec 32) (toks : List Token) :
    Leaves toks.length Prod.snd (enumValue enumKey currentVal toks) := by
  have htail : toks.tail.length ≤ toks.length := by
    rw [length_tail]
    exact Nat.sub_le _ _
  exact .ite (((leaves_expectInt _ _).mono htail).bind fun val => .ok (Nat.le_refl _)) (.ok (Nat.le_refl _))

theorem shrinks_enumItem : Shrinks enumItem := by
  intro tok rest st
  cases tok with
  | ident enumKey => exact (leaves_enumValue _ _ _).bind fun val => .ok (length_skipPunct _ _)
  | _ => exact .ok (Nat.le_refl _)

theorem length_skipParamID (toks : List Token) : (skipParamID toks).length ≤ toks.length := by
  unfold skipParamID
  split
  · exact Nat.le_trans (length_skipPunct _ _) (Nat.le_succ _)
  · exact Nat.le_refl _

theorem length_skipIdent (toks : List Token) : (skipIdent toks).length ≤ toks.length := by
  unfold skipIdent
  split
  · exact Nat.le_succ _
  · exact Nat.le_refl _

theorem shrinks_serviceItem (name : String) : Shrinks (serviceItem name) := by
  intro tok rest srv
  cases tok with
  | ident outputType =>
    refine (leaves_expectIdent _ _).bind fun methodName => ?_
    refine (leaves_expectPunct _ _ _).bind fun toks => ?_
    refine ((leaves_expectIdent _ _).mono (length_skipParamID toks)).bind fun inputType => ?_
    exact ((leaves_expectPunct _ _ _).mono (length_skipIdent _)).bind fun toks => .ok (length_skipPunct _ _)
  | _ => exact .ok (Nat.le_refl _)

theorem leaves_parseNamespace (toks : List Token) : Leaves toks.length Prod.snd (parseNamespace toks) :=
  (leaves_expectIdent _ _).bind fun _ => leaves_expectIdent _ _

theorem leaves_parseEnum (toks : List Token) : Leaves toks.length Prod.snd (parseEnum toks) :=
  (leaves_parseDecl (fun _ => shrinks_enumItem) _).bind fun _ => .ok (Nat.le_refl _)

theorem shrinks_astItem : Shrinks astItem := by
  intro tok rest res
  cases tok with
  | ident word =>
    refine .ite ((leaves_parseNamespace _).bind fun ns => .ok (Nat.le_refl _)) ?_
    refine .ite ((leaves_parseDecl shrinks_structItem _).bind fun str => .ok (Nat.le_refl _)) ?_
    refine .ite ((leaves_parseEnum _).bind fun en => .ok (Nat.le_refl _)) ?_
    refine .ite ((leaves_parseDecl shrinks_serviceItem _).bind fun srv => .ok (Nat.le_refl _)) ?_
    exact .ok (Nat.le_refl _)
  | _ => exact .ok (Nat.le_refl _)

end HelixRpc.Compiler.Thrift
