import HelixRpc.Compiler.ThriftParser
import HelixRpc.Compiler.Words

/-!
# The struct grammar of Thrift files

Files made of namespace statements and of structs, as data.
-/

namespace HelixRpc.Compiler.Thrift

open Foundation List

def keywords : List String := ["optional", "required"]

inductive FieldType where
  | word (type : TypeWord keywords)
  | list (type : TypeWord keywords)
  | map (key value : TypeWord keywords)

namespace FieldType

def first : FieldType → String
  | word type => type.val
  | list _ => "list"
  | map _ _ => "map"

def rest : FieldType → List Token
  | word _ => []
  | list type => [.punct '<', .ident type.val, .punct '>']
  | map key value => [.punct '<', .ident key.val, .punct ',', .ident value.val, .punct '>']

def text : FieldType → String
  | word type => type.val
  | list type => "list<" ++ type.val ++ ">"
  | map _ _ => "map"

def read : FieldType → TypeNode
  | word type => wordType type.val
  | list type => ⟨.list, "", none, some (wordType type.val)⟩
  | map _ _ => ⟨.struct, "map", none, none⟩

end FieldType

inductive Requiredness where
  | plain
  | required
  | optional
  deriving DecidableEq

def Requiredness.tokens : Requiredness → List Token
  | plain => []
  | required => [.ident "required"]
  | optional => [.ident "optional"]

inductive Separator where
  | comma
  | semicolon
  | nothing

def Separator.tokens : Separator → List Token
  | comma => [.punct ',']
  | semicolon => [.punct ';']
  | nothing => []

structure Field where
  id : Number
  requiredness : Requiredness
  type : FieldType
  name : Ident
  separator : Separator

def Field.rest (f : Field) : List Token := .punct ':' :: (f.requiredness.tokens ++ .ident f.type.first ::
    (f.type.rest ++ .ident f.name.val :: f.separator.tokens))

def Field.tokens (f : Field) : List Token := .int f.id.val :: f.rest

def Field.read (f : Field) : FieldNode := ⟨f.name.val, readID f.id.val, f.type.read, f.requiredness = .optional⟩

structure Struct where
  name : Ident
  fields : List Field

variable (s : Struct)

def Struct.tokens : List Token :=
  .ident "struct" :: .ident s.name.val :: .punct '{' :: (s.fields.flatMap Field.tokens ++ [.punct '}'])

def Struct.read : StructNode := ⟨s.name.val, s.fields.map Field.read, false⟩

structure Namespace where
  scope : Ident
  name : Ident

def Namespace.tokens (n : Namespace) : List Token :=
  [.ident "namespace", .ident n.scope.val, .ident n.name.val]

def Namespace.ns (ns : String) (n : Namespace) : String := if ns = "" then n.name.val else ns

def fileTokens (namespaces : List Namespace) (structs : List Struct) : List Token :=
  namespaces.flatMap Namespace.tokens ++ structs.flatMap Struct.tokens

variable (t : FieldType)

theorem FieldType.parseTypeNode_text : parseTypeNode t.text = t.read := by
  cases t with
  | word type => exact parseTypeNode_word type.toIdent
  | list type => exact parseTypeNode_list type.toIdent
  | map key value => exact parseTypeNode_word ⟨"map", by decide⟩

theorem FieldType.kind_ne_map : t.read.kind ≠ .map := by
  cases t with
  | word type => exact wordType_ne_map type.val
  | list type => nofun
  | map key value => nofun

theorem fieldType_eq (name : String) (toks : List Token) :
    fieldType t.first (t.rest ++ .ident name :: toks) = .ok (t.text, .ident name :: toks) := by
  cases t with
  | word type =>
    -- a name stands where the parameters would begin
    have hangle : ∀ word : String, ¬ (type.val = word ∧ atPunct '<' (.ident name :: toks)) := by
      rintro word ⟨-, h⟩
      cases h
    exact (if_neg (hangle "list")).trans (if_neg (hangle "map"))
  | list type => rfl
  | map key value => rfl

theorem FieldType.first_not_keyword : t.first ∉ keywords := by
  cases t with
  | word type => exact type.notKeyword
  | list type => exact (by decide : "list" ∉ keywords)
  | map key value => exact (by decide : "map" ∉ keywords)

theorem requiredness_eq (r : Requiredness) {word : String} (h : word ∉ keywords) (toks : List Token) :
    requiredness (r.tokens ++ .ident word :: toks) = (decide (r = .optional), .ident word :: toks) := by
  cases r with
  | plain =>
    have hopt : word ≠ "optional" := fun heq => h (by rw [heq]; decide)
    have hreq : word ≠ "required" := fun heq => h (by rw [heq]; decide)
    exact (if_neg hopt).trans (if_neg hreq)
  | required => rfl
  | optional => rfl

variable (toks : List Token)

def NoSeparator : Prop := skipPunct [';', ','] toks = toks

theorem skipPunct_separator (s : Separator) {toks : List Token} (h : NoSeparator toks) :
    skipPunct [';', ','] (s.tokens ++ toks) = toks := by
  cases s with
  | comma => rfl
  | semicolon => rfl
  | nothing => exact h

theorem structItem_field (name : String) (f : Field) {toks : List Token} (h : NoSeparator toks) (str : StructNode) :
    structItem name (.int f.id.val) (f.rest ++ toks) str =
      .ok (toks, { str with fields := str.fields ++ [f.read] }) := by
  have hrest : f.rest ++ toks = .punct ':' :: (f.requiredness.tokens ++ .ident f.type.first ::
      (f.type.rest ++ .ident f.name.val :: (f.separator.tokens ++ toks))) := by
    rw [Field.rest]
    simp
  -- no type text of this parser is a map, so the flag is never set
  have hkind : decide (f.type.read.kind = .map) = false := decide_eq_false f.type.kind_ne_map
  rw [hrest, structItem]
  simp only [expectPunct, if_true, Outcome.ok_bind, requiredness_eq f.requiredness f.type.first_not_keyword,
    expectIdent, fieldType_eq, FieldType.parseTypeNode_text, hkind, Bool.or_false, skipPunct_separator f.separator h]
  rfl

theorem noSeparator_fields (fields : List Field) (toks : List Token) :
    NoSeparator (fields.flatMap Field.tokens ++ .punct '}' :: toks) := by
  cases fields <;> rfl

theorem parseBlock_fields (err name : String) (fields : List Field) (toks : List Token) (str : StructNode) :
    parseBlock err (structItem name) (fields.flatMap Field.tokens ++ .punct '}' :: toks) str =
      .ok ({ str with fields := str.fields ++ fields.map Field.read }, toks) := by
  induction fields generalizing str with
  | nil =>
    rw [map_nil, append_nil]
    exact parseBlock_brace (shrinks_structItem name) toks str
  | cons f fields ih =>
    have hbrace : Token.int f.id.val ≠ .punct '}' := nofun
    have hitem := structItem_field name f (noSeparator_fields fields toks) str
    rw [flatMap_cons, append_assoc, Field.tokens, cons_append,
      parseBlock_item (shrinks_structItem name) hbrace hitem, ih]
    simp

theorem parseStruct_tokens : parseStruct (.ident s.name.val :: .punct '{' ::
      (s.fields.flatMap Field.tokens ++ .punct '}' :: toks)) = .ok (s.read, toks) :=
  parseBlock_fields _ s.name.val s.fields toks ⟨s.name.val, [], false⟩

theorem parseFile_struct (res : AST) :
    parseFile astItem (s.tokens ++ toks) res = parseFile astItem toks (res.addStruct s.read) := by
  have htokens : s.tokens ++ toks = .ident "struct" :: (.ident s.name.val :: .punct '{' ::
      (s.fields.flatMap Field.tokens ++ .punct '}' :: toks)) := by
    rw [Struct.tokens]
    simp
  rw [htokens]
  apply parseFile_item shrinks_astItem
  rw [astItem, if_neg (by decide), if_pos (.inl rfl), parseStruct_tokens]
  rfl

theorem parseFile_namespace (n : Namespace) (toks : List Token) (res : AST) : parseFile astItem (n.tokens ++ toks) res =
      parseFile astItem toks { res with ns := n.ns res.ns } :=
  parseFile_item shrinks_astItem rfl

theorem parseThrift_file {namespaces : List Namespace} {structs : List Struct} {text : List Char}
    (h : Printed (fileTokens namespaces structs) text) :
    parseThrift text = .ok { ns := namespaces.foldl Namespace.ns "", structs := structs.map Struct.read } := by
  rw [parseThrift, tokens_of_printed h, fileTokens, parseFile_items parseFile_namespace,
    ← append_nil (structs.flatMap _), parseFile_items parseFile_struct,
    parseFile_end shrinks_astItem, foldl_ns, foldl_addStruct]
  rfl

end HelixRpc.Compiler.Thrift
