import HelixRpc.Compiler.ProtoParser
import HelixRpc.Compiler.Words

/-!
# The message grammar of proto files

Files made of `syntax` and `package` statements and of messages, as data: a field is `[optional|repeated] T name =
tag;` or `map<K, V> name = tag;`.
-/

set_option autoImplicit false
set_option maxRecDepth 2000

namespace HelixRpc.Compiler.Proto

open Foundation List

def keywords : List String := ["optional", "repeated", "oneof", "map"]

inductive FieldType where
  | plain (type : TypeWord keywords)
  | optional (type : TypeWord keywords)
  | repeated (type : TypeWord keywords)
  | map (key value : TypeWord keywords)

namespace FieldType

def word : FieldType → String
  | plain type => type.val
  | optional _ => "optional"
  | repeated _ => "repeated"
  | map _ _ => "map"

def rest : FieldType → List Token
  | plain _ => []
  | optional type => [.ident type.val]
  | repeated type => [.ident type.val]
  | map key value => [.punct '<', .ident key.val, .punct ',', .ident value.val, .punct '>']

def text : FieldType → String
  | plain type => type.val
  | optional type => type.val
  | repeated type => "list<" ++ type.val ++ ">"
  | map key value => "map<" ++ key.val ++ "," ++ value.val ++ ">"

def node : FieldType → TypeNode
  | plain type => wordType type.val
  | optional type => wordType type.val
  | repeated type => ⟨.list, "", none, some (wordType type.val)⟩
  | map key value => ⟨.map, "", some (wordType key.val), some (wordType value.val)⟩

def isOptional : FieldType → Bool
  | optional _ => true
  | _ => false

def isMap : FieldType → Bool
  | map _ _ => true
  | _ => false

end FieldType

structure Field where
  type : FieldType
  name : Ident
  tag : Digits

variable (f : Field)

def Field.tail : List Token := [.ident f.name.val, .punct '=', .int f.tag.val, .punct ';']

def Field.tokens : List Token := .ident f.type.word :: (f.type.rest ++ f.tail)

def Field.read : FieldNode := ⟨f.name.val, readID f.tag.val, f.type.node, f.type.isOptional⟩

structure Message where
  name : Ident
  fields : List Field

variable (m : Message)

def Message.tokens : List Token :=
  .ident "message" :: .ident m.name.val :: .punct '{' :: (m.fields.flatMap Field.tokens ++ [.punct '}'])

def Message.read : StructNode := ⟨m.name.val, m.fields.map Field.read, m.fields.any (·.type.isMap)⟩

inductive Header where
  | syntaxVersion (text : String)
  | package (name : Ident)

def Header.tokens : Header → List Token
  | .syntaxVersion text => [.ident "syntax", .punct '=', .str text, .punct ';']
  | .package name => [.ident "package", .ident name.val, .punct ';']

def Header.ns (ns : String) : Header → String
  | .syntaxVersion _ => ns
  | .package name => name.val

def fileTokens (headers : List Header) (messages : List Message) : List Token :=
  headers.flatMap Header.tokens ++ messages.flatMap Message.tokens

variable (t : FieldType)

theorem FieldType.parseTypeNode_text : parseTypeNode t.text = t.node := by
  cases t with
  | plain type => exact parseTypeNode_word type.toIdent
  | optional type => exact parseTypeNode_word type.toIdent
  | repeated type => exact parseTypeNode_list type.toIdent
  | map key value => exact parseTypeNode_map key.toIdent value.toIdent

theorem FieldType.kind_eq_map : decide (t.node.kind = .map) = t.isMap := by
  cases t with
  | plain type => exact decide_eq_false (wordType_ne_map type.val)
  | optional type => exact decide_eq_false (wordType_ne_map type.val)
  | repeated type => rfl
  | map key value => rfl

theorem FieldType.word_ne_oneof : t.word ≠ "oneof" := by
  cases t with
  | plain type => exact TypeWord.ne (by decide)
  | optional type => exact (by decide : "optional" ≠ "oneof")
  | repeated type => exact (by decide : "repeated" ≠ "oneof")
  | map key value => exact (by decide : "map" ≠ "oneof")

theorem list_ne_map (w : String) : "list<" ++ w ++ ">" ≠ "map" := by
  intro h
  have hhead := congrArg (fun s : String => s.toList.head?) h
  rw [String.toList_append, String.toList_append, append_assoc, head?_append] at hhead
  cases hhead

variable (toks : List Token)

theorem fieldHead_eq : fieldHead t.word (t.rest ++ toks) = ⟨t.isOptional, t.text, t.isMap, toks⟩ := by
  cases t with
  | plain type =>
    -- the type is the first word, so it must not look like a modifier
    have hopt : type.val ≠ "optional" := TypeWord.ne (by decide)
    have hrep : type.val ≠ "repeated" := TypeWord.ne (by decide)
    have hmap : type.val ≠ "map" := TypeWord.ne (by decide)
    exact (if_neg hopt).trans ((if_neg hrep).trans (if_neg hmap))
  | optional type =>
    have hmap : type.val ≠ "map" := TypeWord.ne (by decide)
    exact (if_pos rfl).trans (if_neg hmap)
  | repeated type =>
    have hopt : "repeated" ≠ "optional" := by decide
    exact (if_neg hopt).trans ((if_pos rfl).trans (if_neg (list_ne_map type.val)))
  | map key value => rfl

theorem messageItem_field (str : StructNode) : messageItem (.ident f.type.word) (f.type.rest ++ f.tail ++ toks) str =
    .ok (toks, { str with
        fields := str.fields ++ [f.read]
        hasFallback := str.hasFallback || f.type.isMap }) := by
  rw [messageItem, if_neg f.type.word_ne_oneof, append_assoc, fieldHead_eq]
  dsimp only
  rw [FieldType.parseTypeNode_text, FieldType.kind_eq_map, Bool.or_assoc, Bool.or_self]
  rfl

theorem parseBlock_fields (err : String) (fields : List Field) (toks : List Token) (str : StructNode) :
    parseBlock err messageItem (fields.flatMap Field.tokens ++ .punct '}' :: toks) str = .ok ({ str with
        fields := str.fields ++ fields.map Field.read
        hasFallback := str.hasFallback || fields.any (·.type.isMap) }, toks) := by
  induction fields generalizing str with
  | nil =>
    rw [map_nil, append_nil, any_nil, Bool.or_false]
    exact parseBlock_brace shrinks_messageItem toks str
  | cons f fields ih =>
    have hbrace : Token.ident f.type.word ≠ .punct '}' := nofun
    rw [flatMap_cons, append_assoc, Field.tokens, cons_append,
      parseBlock_item shrinks_messageItem hbrace (messageItem_field f _ str), ih]
    simp [Bool.or_assoc]

theorem parseMessage_tokens : parseMessage (.ident m.name.val :: .punct '{' ::
      (m.fields.flatMap Field.tokens ++ .punct '}' :: toks)) = .ok (m.read, toks) :=
  parseBlock_fields _ m.fields toks ⟨m.name.val, [], false⟩

theorem parseFile_message (res : AST) :
    parseFile astItem (m.tokens ++ toks) res = parseFile astItem toks (res.addStruct m.read) := by
  have htokens : m.tokens ++ toks = .ident "message" :: (.ident m.name.val :: .punct '{' ::
      (m.fields.flatMap Field.tokens ++ .punct '}' :: toks)) := by
    rw [Message.tokens]
    simp
  rw [htokens]
  apply parseFile_item shrinks_astItem
  rw [astItem, if_neg (by decide), if_neg (by decide), if_pos rfl, parseMessage_tokens]
  rfl

theorem parseFile_header (header : Header) (toks : List Token) (res : AST) :
    parseFile astItem (header.tokens ++ toks) res = parseFile astItem toks { res with ns := header.ns res.ns } := by
  cases header <;> exact parseFile_item shrinks_astItem rfl

theorem parseProto_file {headers : List Header} {messages : List Message} {text : List Char}
    (h : Printed (fileTokens headers messages) text) :
    parseProto text = .ok { ns := headers.foldl Header.ns "", structs := messages.map Message.read } := by
  rw [parseProto, tokens_of_printed h, fileTokens, parseFile_items parseFile_header, ← append_nil (messages.flatMap _),
    parseFile_items parseFile_message, parseFile_end shrinks_astItem, foldl_ns, foldl_addStruct]
  rfl

def Field.node : FieldNode := ⟨f.name.val, BitVec.ofNat 32 f.tag.value, f.type.node, f.type.isOptional⟩

def Message.node : StructNode := ⟨m.name.val, m.fields.map Field.node, m.fields.any (·.type.isMap)⟩

theorem Field.read_eq_node {f : Field} (h : f.tag.value ≤ 2 ^ 31 - 1) : f.read = f.node := by
  rw [read, node, readID_digits h]

theorem Message.read_eq_node {m : Message} (h : ∀ f ∈ m.fields, f.tag.value ≤ 2 ^ 31 - 1) : m.read = m.node := by
  rw [read, node, map_congr_left fun f hf => Field.read_eq_node (h f hf)]

/-- `ParseProto` reads every layout of a file of messages as those messages: names,
fields, tags, types and optionality, in order, and nothing else. -/
theorem parseProto_messages (headers : List Header) (messages : List Message) {text : List Char}
    (htags : ∀ m ∈ messages, ∀ f ∈ m.fields, f.tag.value ≤ 2 ^ 31 - 1)
    (htext : Printed (fileTokens headers messages) text) :
    parseProto text = .ok ⟨headers.foldl Header.ns "", [], messages.map Message.node, []⟩ := by
  rw [parseProto_file htext, map_congr_left fun m hm => Message.read_eq_node (htags m hm)]

def word (val : String) (isIdent : isIdent val.toList = true) (notKeyword : val ∉ keywords) :
    TypeWord keywords := ⟨⟨val, isIdent⟩, notKeyword⟩

theorem isIdent_int32 : isIdent "int32".toList = true := by decide

def userMessages : List Message :=
  [⟨⟨"User", by decide⟩,
      [⟨.optional (word "int32" isIdent_int32 (by decide)), ⟨"id", by decide⟩, ⟨"01", by decide, by decide⟩⟩,
        ⟨.repeated (word "Tag" (by decide) (by decide)), ⟨"tags", by decide⟩, ⟨"2147483647", by decide, by decide⟩⟩]⟩,
    ⟨⟨"Tag", by decide⟩, []⟩]

def userHeaders : List Header := [.syntaxVersion "proto3", .package ⟨"demo.v1", by decide⟩]

def userFile : List Char :=
  "syntax = \"proto3\";package demo.v1; // users
message User\t\x7b optional int32 id=01;\r
repeated Tag tags = 2147483647 ;\x7dmessage Tag\x7b\x7d//".toList

theorem printed_userFile : Printed (fileTokens userHeaders userMessages) userFile :=
  printed_literal rfl (by decide +kernel) (by decide +kernel)

theorem parseProto_messages_users : parseProto userFile = .ok ⟨"demo.v1", [], userMessages.map Message.node, []⟩ :=
  parseProto_messages userHeaders userMessages (by decide) printed_userFile

end HelixRpc.Compiler.Proto
