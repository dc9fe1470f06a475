import HelixRpc.Compiler.ParserBase

/-!
# `ParseProto`

Model of the proto parser of `compiler/parser/proto_parser.go`, on the tokens of the text.
-/

namespace HelixRpc.Compiler.Proto

open Foundation List Outcome

def parseSyntax (toks : List Token) : ParseOutcome (List Token) := do
  let toks ← expectPunct '=' "expected '=' after syntax" toks
  let (_, toks) ← expectString "expected string after syntax =" toks
  expectPunct ';' "expected ';' after syntax definition" toks

def parsePackage (toks : List Token) : ParseOutcome (String × List Token) := do
  let (pkg, toks) ← expectIdent "expected identifier after package" toks
  let toks ← expectPunct ';' "expected ';' after package definition" toks
  pure (pkg, toks)

def skipOneof (toks : List Token) : List Token :=
  let toks := match toks with
    | .ident _ :: rest => rest
    | toks => toks
  match toks with
  | .punct ch :: rest => if ch = '{' then (toBrace rest).tail else .punct ch :: rest
  | toks => toks

/-- The type text of a map, and the tokens behind it; `toks` are those behind the word `map`. -/
def mapParameters (toks : List Token) : String × List Token :=
  if atPunct '<' toks then
    let keyType := tokVal toks.tail
    let toks := toks.tail.tail
    if atPunct ',' toks then
      let valueType := tokVal toks.tail
      let toks := toks.tail.tail
      if atPunct '>' toks then ("map<" ++ keyType ++ "," ++ valueType ++ ">", toks.tail)
      else ("map", toks)
    else ("map", toks)
  else ("map", toks)

structure FieldHead where
  optional : Bool
  typeName : String
  isMap : Bool
  rest : List Token

def fieldType (optional : Bool) (typeName : String) (toks : List Token) : FieldHead :=
  if typeName = "map" then
    ⟨optional, (mapParameters toks.tail).1, true, (mapParameters toks.tail).2⟩
  else ⟨optional, typeName, false, toks.tail⟩

def fieldHead (word : String) (toks : List Token) : FieldHead :=
  -- whatever token comes next is taken for the type
  if word = "optional" then fieldType true (tokVal toks) toks
  else if word = "repeated" then fieldType false ("list<" ++ tokVal toks ++ ">") toks
  else fieldType false word (.ident word :: toks)

def fieldTail (typeName : String) (toks : List Token) : ParseOutcome ((String × BitVec 32) × List Token) := do
  let (fieldName, toks) ←
    expectIdent ("expected field name identifier after type " ++ typeName) toks
  let toks ← expectPunct '=' ("expected '=' after field name " ++ fieldName) toks
  let (tagVal, toks) ← expectInt ("expected integer tag for field " ++ fieldName) toks
  let toks ← expectPunct ';' ("expected ';' after field " ++ fieldName ++ " definition") toks
  pure ((fieldName, readID tagVal), toks)

def messageItem : Item StructNode
  | .ident word, rest, str =>
    -- the members of a `oneof` are not read, but the message loses its fast paths
    if word = "oneof" then .ok (skipOneof rest, { str with hasFallback := true })
    else do
      let head := fieldHead word rest
      let ((fieldName, id), toks) ← fieldTail head.typeName head.rest
      let fType := parseTypeNode head.typeName
      pure (toks, { str with
        fields := str.fields ++ [⟨fieldName, id, fType, head.optional⟩]
        hasFallback := str.hasFallback || head.isMap || fType.kind = .map })
  | _, rest, str => .ok (rest, str)

def parseMessage (toks : List Token) : ParseOutcome (StructNode × List Token) :=
  parseDecl "message" (fun _ => messageItem) (fun name => ⟨name, [], false⟩) toks

def enumItem : Item EnumNode
  | .ident enumKey, rest, en => do
      let toks ← expectPunct '=' ("expected '=' after enum key " ++ enumKey) rest
      let (val, toks) ← expectInt ("expected integer value for enum key " ++ enumKey) toks
      let toks ← expectPunct ';' ("expected ';' after enum key " ++ enumKey) toks
      pure (toks, setEnumValue en enumKey (readID val))
  | _, rest, en => .ok (rest, en)

def parseEnum (toks : List Token) : ParseOutcome (EnumNode × List Token) :=
  parseDecl "enum" (fun _ => enumItem) (fun name => ⟨name, [], nodup_nil⟩) toks

structure Rest where
  restMethod : String := ""
  restPath : String := ""

/-- The loop over the body of a `google.api.http` option, up to the closing brace: every
`verb: "path"` replaces what was read before. -/
def httpRule : List Token → Rest → Rest × List Token
  | [], r => (r, [])
  | .ident verb :: .punct ':' :: .str path :: rest, _ => httpRule rest ⟨verb.toUpper, path⟩
  | .ident _ :: rest, r => httpRule rest r
  | .punct ch :: rest, r => if ch = '}' then (r, .punct ch :: rest) else httpRule rest r
  | _ :: rest, r => httpRule rest r

/-- The tokens behind the word `option`: an option other than `google.api.http` is left to the loop
that calls, from the first token that does not fit. -/
def httpOption (toks : List Token) (r : Rest) : Rest × List Token :=
  match toks with
  | .punct '(' :: .ident "google.api.http" :: .punct ')' :: .punct '=' :: .punct '{' :: rest =>
    let (r, toks) := httpRule rest r
    (r, skipPunct ['}'] toks)
  | .punct '(' :: .ident "google.api.http" :: .punct ')' :: .punct '=' :: rest => (r, rest)
  | .punct '(' :: .ident "google.api.http" :: .punct ')' :: rest => (r, rest)
  | .punct '(' :: .ident "google.api.http" :: rest => (r, rest)
  | .punct '(' :: rest => (r, rest)
  | toks => (r, toks)

def optionItem : Item Rest
  | .ident word, rest, r =>
    if word = "option" then .ok (skipPunct [';'] (httpOption rest r).2, (httpOption rest r).1)
    else .ok (rest, r)
  | _, rest, r => .ok (rest, r)

def methodOptions (methodName : String) (toks : List Token) : ParseOutcome (Rest × List Token) :=
  match toks with
  | .punct ';' :: rest => .ok ({}, rest)
  | .punct '{' :: rest =>
    parseBlock ("expected closing brace '\x7d' for method " ++ methodName) optionItem rest {}
  | toks => .ok ({}, toks)

def streamWord : List Token → Bool × List Token
  | .ident "stream" :: rest => (true, rest)
  | toks => (false, toks)

def parseMethod (toks : List Token) : ParseOutcome (MethodNode × List Token) := do
  let (methodName, toks) ← expectIdent "expected method name identifier" toks
  let toks ← expectPunct '(' ("expected '(' after method " ++ methodName) toks
  let (clientStreaming, toks) := streamWord toks
  let (inputType, toks) ← expectIdent ("expected input type for method " ++ methodName) toks
  let toks ← expectPunct ')' ("expected ')' after input type of method " ++ methodName) toks
  let (returns, toks) ← expectIdent ("expected 'returns' keyword for method " ++ methodName) toks
  if returns ≠ "returns" then .error ("expected 'returns' keyword for method " ++ methodName)
  else do
    let toks ← expectPunct '(' ("expected '(' before output type of method " ++ methodName) toks
    let (serverStreaming, toks) := streamWord toks
    let (outputType, toks) ← expectIdent ("expected output type for method " ++ methodName) toks
    let toks ← expectPunct ')' ("expected ')' after output type of method " ++ methodName) toks
    let (r, toks) ← methodOptions methodName toks
    pure (⟨methodName, inputType, outputType, clientStreaming, serverStreaming, r.restMethod, r.restPath⟩, toks)

def serviceItem : Item ServiceNode
  | .ident word, rest, srv =>
    if word = "rpc" then do
      let (method, toks) ← parseMethod rest
      pure (toks, { srv with methods := srv.methods ++ [method] })
    else .ok (rest, srv)
  | _, rest, srv => .ok (rest, srv)

def parseService (toks : List Token) : ParseOutcome (ServiceNode × List Token) :=
  parseDecl "service" (fun _ => serviceItem) (fun name => ⟨name, []⟩) toks

def astItem : Item AST
  | .ident word, rest, res =>
    -- the version is not kept
    if word = "syntax" then do
      let toks ← parseSyntax rest
      pure (toks, res)
    else if word = "package" then do
      let (pkg, toks) ← parsePackage rest
      pure (toks, { res with ns := pkg })
    else if word = "message" then do
      let (str, toks) ← parseMessage rest
      pure (toks, { res with structs := res.structs ++ [str] })
    else if word = "enum" then do
      let (en, toks) ← parseEnum rest
      pure (toks, { res with enums := res.enums ++ [en] })
    else if word = "service" then do
      let (srv, toks) ← parseService rest
      pure (toks, { res with services := res.services ++ [srv] })
    else .ok (rest, res)
  | _, rest, res => .ok (rest, res)

def parseProto (content : List Char) : ParseOutcome AST := parseFile astItem (tokens content) {}

theorem length_skipOneof (toks : List Token) : (skipOneof toks).length ≤ toks.length := by
  have hblock : ∀ toks : List Token, (match toks with
        | .punct ch :: rest => if ch = '{' then (toBrace rest).tail else .punct ch :: rest
        | toks => toks).length ≤ toks.length := by
    intro toks
    split
    · split
      · have hbrace := length_toBrace ‹_›
        rw [length_tail, length_cons]
        omega
      · exact Nat.le_refl _
    · exact Nat.le_refl _
  unfold skipOneof
  split
  · exact Nat.le_trans (hblock _) (Nat.le_succ _)
  · exact hblock _

theorem length_mapParameters (toks : List Token) : (mapParameters toks).2.length ≤ toks.length := by
  unfold mapParameters
  split
  · dsimp only
    split
    · split
      · simp only [length_tail]
        omega
      · simp only [length_tail]
        omega
    · simp only [length_tail]
      omega
  · exact Nat.le_refl _

theorem length_fieldType (optional : Bool) (typeName : String) (toks : List Token) :
    (fieldType optional typeName toks).rest.length ≤ toks.length - 1 := by
  unfold fieldType
  split
  · exact Nat.le_trans (length_mapParameters _) (by rw [length_tail])
  · exact Nat.le_of_eq length_tail

theorem length_fieldHead (word : String) (toks : List Token) : (fieldHead word toks).rest.length ≤ toks.length := by
  unfold fieldHead
  split
  · exact Nat.le_trans (length_fieldType _ _ _) (Nat.sub_le _ _)
  · split
    · exact Nat.le_trans (length_fieldType _ _ _) (Nat.sub_le _ _)
    · exact length_fieldType _ _ _

theorem leaves_fieldTail (typeName : String) (toks : List Token) :
    Leaves toks.length Prod.snd (fieldTail typeName toks) := by
  refine (leaves_expectIdent _ _).bind fun name => ?_
  refine (leaves_expectPunct _ _ _).bind fun toks => ?_
  refine (leaves_expectInt _ _).bind fun tag => ?_
  exact (leaves_expectPunct _ _ _).bind fun toks => .ok (Nat.le_refl _)

theorem shrinks_messageItem : Shrinks messageItem := by
  intro tok rest str
  cases tok with
  | ident word =>
    refine .ite (.ok (length_skipOneof rest)) ?_
    exact ((leaves_fieldTail _ _).mono (length_fieldHead word rest)).bind fun field => .ok (Nat.le_refl _)
  | _ => exact .ok (Nat.le_refl _)

theorem shrinks_enumItem : Shrinks enumItem := by
  intro tok rest en
  cases tok with
  | ident enumKey =>
    refine (leaves_expectPunct _ _ _).bind fun toks => ?_
    refine (leaves_expectInt _ _).bind fun val => ?_
    exact (leaves_expectPunct _ _ _).bind fun toks => .ok (Nat.le_refl _)
  | _ => exact .ok (Nat.le_refl _)

theorem length_httpRule (toks : List Token) (r : Rest) : (httpRule toks r).2.length ≤ toks.length := by
  fun_induction httpRule toks r with
  | case1 => exact Nat.le_refl _
  | case2 verb path rest _ ih =>
    simp only [length_cons]
    omega
  | case4 => exact Nat.le_refl _
  | _ =>
    rename_i ih
    exact Nat.le_trans ih (Nat.le_succ _)

theorem length_httpOption (toks : List Token) (r : Rest) : (httpOption toks r).2.length ≤ toks.length := by
  unfold httpOption
  split
  · rename_i rest
    have hrule := length_httpRule rest r
    have hskip := length_skipPunct ['}'] (httpRule rest r).2
    simp only [length_cons]
    omega
  all_goals
    simp only [length_cons]
    omega

theorem shrinks_optionItem : Shrinks optionItem := by
  intro tok rest r
  cases tok with
  | ident word =>
    exact .ite (.ok (Nat.le_trans (length_skipPunct _ _) (length_httpOption rest r))) (.ok (Nat.le_refl _))
  | _ => exact .ok (Nat.le_refl _)

theorem leaves_methodOptions (methodName : String) (toks : List Token) :
    Leaves toks.length Prod.snd (methodOptions methodName toks) := by
  unfold methodOptions
  split
  · exact .ok (Nat.le_succ _)
  · exact (leaves_parseBlock shrinks_optionItem _ _).mono (Nat.le_succ _)
  · exact .ok (Nat.le_refl _)

theorem length_streamWord (toks : List Token) : (streamWord toks).2.length ≤ toks.length := by
  unfold streamWord
  split
  · exact Nat.le_succ _
  · exact Nat.le_refl _

theorem leaves_parseMethod (toks : List Token) : Leaves toks.length Prod.snd (parseMethod toks) := by
  refine (leaves_expectIdent _ _).bind fun name => ?_
  refine (leaves_expectPunct _ _ _).bind fun toks => ?_
  refine ((leaves_expectIdent _ _).mono (length_streamWord toks)).bind fun inputType => ?_
  refine (leaves_expectPunct _ _ _).bind fun toks => ?_
  refine (leaves_expectIdent _ _).bind fun returns => .ite (.error _) ?_
  refine (leaves_expectPunct _ _ _).bind fun toks => ?_
  refine ((leaves_expectIdent _ _).mono (length_streamWord toks)).bind fun outputType => ?_
  refine (leaves_expectPunct _ _ _).bind fun toks => ?_
  exact (leaves_methodOptions _ _).bind fun r => .ok (Nat.le_refl _)

theorem shrinks_serviceItem : Shrinks serviceItem := by
  intro tok rest srv
  cases tok with
  | ident word =>
    exact .ite ((leaves_parseMethod _).bind fun method => .ok (Nat.le_refl _)) (.ok (Nat.le_refl _))
  | _ => exact .ok (Nat.le_refl _)

theorem leaves_parseSyntax (toks : List Token) : Leaves toks.length id (parseSyntax toks) := by
  refine (leaves_expectPunct _ _ _).bind fun toks => ?_
  exact (leaves_expectString _ _).bind fun version => leaves_expectPunct _ _ _

theorem leaves_parsePackage (toks : List Token) : Leaves toks.length Prod.snd (parsePackage toks) := by
  refine (leaves_expectIdent _ _).bind fun pkg => ?_
  exact (leaves_expectPunct _ _ _).bind fun toks => .ok (Nat.le_refl _)

theorem shrinks_astItem : Shrinks astItem := by
  intro tok rest res
  cases tok with
  | ident word =>
    refine .ite ((leaves_parseSyntax _).bind fun toks => .ok (Nat.le_refl _)) ?_
    refine .ite ((leaves_parsePackage _).bind fun pkg => .ok (Nat.le_refl _)) ?_
    refine .ite ((leaves_parseDecl (fun _ => shrinks_messageItem) _).bind fun str => .ok (Nat.le_refl _)) ?_
    refine .ite ((leaves_parseDecl (fun _ => shrinks_enumItem) _).bind fun en => .ok (Nat.le_refl _)) ?_
    refine .ite ((leaves_parseDecl (fun _ => shrinks_serviceItem) _).bind fun srv => .ok (Nat.le_refl _)) ?_
    exact .ok (Nat.le_refl _)
  | _ => exact .ok (Nat.le_refl _)

end HelixRpc.Compiler.Proto
