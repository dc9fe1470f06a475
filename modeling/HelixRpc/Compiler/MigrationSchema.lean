import HelixRpc.Compiler.FrontEnds
import HelixRpc.Compiler.MigrationLines

/-!
# What the migration keeps

Thrift files with one item on each line: the beginning of a struct, a field `id: [required|optional] T name` with a
scalar type, or the closing brace.
-/


namespace HelixRpc.Compiler.Migration

open Foundation List

structure LegacyField where
  id : Number
  requiredness : Thrift.Requiredness
  type : Scalar
  name : Ident
  separator : Thrift.Separator

def LegacyField.thrift (f : LegacyField) : Thrift.Field :=
  ⟨f.id, f.requiredness, .word f.type.thrift, f.name, f.separator⟩

structure LegacyStruct where
  name : Ident
  fields : List LegacyField

def LegacyStruct.thrift (s : LegacyStruct) : Thrift.Struct := ⟨s.name, s.fields.map LegacyField.thrift⟩

inductive Item where
  | start (name : Ident)
  | field (f : LegacyField)
  | stop

def Item.tokens : Item → List Token
  | start name => [.ident structWord.val, .ident name.val, .punct '{']
  | field f => f.thrift.tokens
  | stop => [.punct '}']

def LegacyStruct.items (s : LegacyStruct) : List Item := .start s.name :: (s.fields.map .field ++ [.stop])

theorem LegacyStruct.flatten_items (s : LegacyStruct) : (s.items.map Item.tokens).flatten = s.thrift.tokens := by
  have hfields : ((s.fields.map Item.field).map Item.tokens).flatten = s.thrift.fields.flatMap Thrift.Field.tokens := by
    rw [LegacyStruct.thrift, map_map, flatMap_map, flatMap_def]
    rfl
  rw [items, map_cons, map_append, flatten_cons, flatten_append, hfields]
  rfl

theorem flatten_fileItems (structs : List LegacyStruct) :
    ((structs.flatMap LegacyStruct.items).map Item.tokens).flatten =
      Thrift.fileTokens [] (structs.map LegacyStruct.thrift) := by
  rw [Thrift.fileTokens, flatMap_nil, nil_append]
  induction structs with
  | nil => rfl
  | cons s structs ih =>
    rw [flatMap_cons, map_append, flatten_append, s.flatten_items, ih]
    rfl

def LegacyField.migrated (f : LegacyField) : Proto.Field :=
  match f.requiredness with
  | .plain => ⟨.plain f.type.proto, f.name.cut, f.id.digits⟩
  | _ => ⟨.plain Scalar.string.proto, f.type.thrift.toIdent, f.id.digits⟩

def LegacyStruct.migrated (s : LegacyStruct) : Proto.Message :=
  ⟨s.name, (s.fields.filter (!·.id.negative)).map LegacyField.migrated⟩

def migratedFile (structs : List LegacyStruct) : List Proto.Message :=
  (structs.filter (·.name.isPlain)).map LegacyStruct.migrated

def protoLine (f : Proto.Field) : List Char := fieldText f.type.text.toList f.name.val.toList f.tag.val.toList

def protoLines (m : Proto.Message) : List Char :=
  messageStart m.name.val.toList ++ (m.fields.flatMap protoLine ++ messageEnd)

def Item.step : Bool × List Char → Item → Bool × List Char
  | (false, out), start name =>
    if name.isPlain then (true, out ++ messageStart name.val.toList) else (false, out)
  | (true, out), field f => (true, out ++ if f.id.negative then [] else protoLine f.migrated)
  | (true, out), stop => (false, out ++ messageEnd)
  | st, _ => st

variable {line text : List Char} {toks : List Token} {lines : List (List Char)} {structs : List LegacyStruct}

theorem transpileLine_blank (h : Line [] line) (st : Bool × List Char) :
    transpileLine st line = st := if_pos (isSkipped_blank h)

theorem transpileLine_start {name : Ident} (h : Line (Item.start name).tokens line) (st : Bool × List Char) :
    transpileLine st line = (Item.start name).step st := by
  have hstart := structStart_line h
  obtain ⟨g, rest, rfl, hg, -, -⟩ := line_ident h
  obtain ⟨inStruct, out⟩ := st
  have hskip : isSkipped (g ++ (structWord.val.toList ++ rest)) = false :=
    isSkipped_eq_false hg (show isTrimmed 's' = false from rfl) (by decide) (by decide) _
  rw [transpileLine, hskip, if_neg Bool.false_ne_true]
  cases inStruct with
  | false =>
    -- the name decides whether the line is matched
    rw [if_pos rfl, hstart, Item.step]
    split
    · rename_i heq
      split at heq
      · rename_i hplain
        cases heq
        rw [if_pos hplain]
      · cases heq
    · rename_i heq
      split at heq
      · cases heq
      · rename_i hplain
        rw [if_neg hplain]
  | true =>
    have hend : structEnd (g ++ (structWord.val.toList ++ rest)) = false :=
      structEnd_eq hg (show isBlank 's' = false from rfl) _
    have hfield : fieldMatch (g ++ (structWord.val.toList ++ rest)) = none :=
      fieldMatch_eq_none hg (show isBlank 's' = false from rfl) rfl _
    rw [if_neg (by decide), hend, if_neg Bool.false_ne_true, hfield]
    rfl

theorem transpileLine_stop (h : Line Item.stop.tokens line) (st : Bool × List Char) :
    transpileLine st line = Item.stop.step st := by
  obtain ⟨g, rest, rfl, hg, -⟩ := line_punct h
  obtain ⟨inStruct, out⟩ := st
  rw [transpileLine, isSkipped_eq_false hg rfl (by decide) (by decide), if_neg Bool.false_ne_true]
  cases inStruct with
  | false =>
    rw [if_pos rfl, structStart_eq_none hg rfl (by decide)]
    rfl
  | true =>
    rw [if_neg (by decide), structEnd_eq hg rfl, if_pos (by decide)]
    rfl

theorem isPlain_thrift (t : Scalar) : t.thrift.toIdent.isPlain = true := by
  cases t with
  | _ => decide

theorem mapThriftTypeToProto_eq (t : Scalar) : mapThriftTypeToProto t.thrift.val.toList = t.proto.val := by
  cases t with
  | _ => rfl

theorem fieldMatch_legacy {f : LegacyField} (h : Line f.thrift.tokens line) : (fieldMatch line).map (fun m =>
      fieldText (mapThriftTypeToProto m.fieldType).toList m.fieldName m.fieldID) =
      if f.id.negative then none else some (protoLine f.migrated) := by
  obtain ⟨id, requiredness, type, name, separator⟩ := f
  -- a word in front of the type moves the type to the place of the name
  cases requiredness with
  | plain =>
    rw [fieldMatch_line type.thrift.toIdent name (isPlain_thrift type) h, apply_ite (Option.map _)]
    show (if id.negative = true then none else some (fieldText
      (mapThriftTypeToProto type.thrift.val.toList).toList _ _)) = _
    rw [mapThriftTypeToProto_eq]
    rfl
  | required =>
    rw [fieldMatch_line ⟨"required", by decide⟩ type.thrift.toIdent (by decide) h,
      (Ident.cut_eq_iff _).2 (isPlain_thrift type), apply_ite (Option.map _)]
    rfl
  | optional =>
    rw [fieldMatch_line ⟨"optional", by decide⟩ type.thrift.toIdent (by decide) h,
      (Ident.cut_eq_iff _).2 (isPlain_thrift type), apply_ite (Option.map _)]
    rfl

theorem toLower_ne_s {ch : Char} (h : (isDigit ch || ch = '-') = true) : ch.toLower ≠ 's' := by
  have hle : ch.toNat ≤ 57 := by
    simp only [isDigit, Bool.or_eq_true, Bool.and_eq_true, decide_eq_true_eq] at h
    rcases h with h | rfl
    · exact h.2
    · decide
  unfold Char.toLower
  split
  · rename_i hupper
    have hge : 65 ≤ ch.toNat := hupper.1
    omega
  · rintro rfl
    exact absurd hle (by decide)

theorem transpileLine_field {f : LegacyField} (h : Line (Item.field f).tokens line) (st : Bool × List Char) :
    transpileLine st line = (Item.field f).step st := by
  have hfield := fieldMatch_legacy h
  obtain ⟨g, rest, rfl, hg, -, -⟩ := h.token rfl
  obtain ⟨ch, cs, hval, hch⟩ := f.id.exists_cons
  have hline : g ++ ((Token.int f.id.val).spelling ++ rest) = g ++ ch :: (cs ++ rest) := by
    rw [Token.spelling, hval, cons_append]
  have hne : ∀ c, (isDigit c || c = '-') = false → ch ≠ c := by
    rintro c hc rfl
    rw [hc] at hch
    cases hch
  have hblank : isBlank ch = false := by
    rw [isBlank, decide_eq_false (hne _ rfl), decide_eq_false (hne _ rfl),
      decide_eq_false (hne _ rfl), decide_eq_false (hne _ rfl), decide_eq_false (hne _ rfl)]
    rfl
  have htrim : isTrimmed ch = false := by
    rw [isTrimmed, isSpace, decide_eq_false (hne _ rfl), decide_eq_false (hne _ rfl), decide_eq_false (hne _ rfl),
      decide_eq_false (hne _ rfl), decide_eq_false (hne _ rfl), decide_eq_false (hne _ rfl)]
    rfl
  obtain ⟨inStruct, out⟩ := st
  change (fieldMatch (g ++ ((Token.int f.id.val).spelling ++ rest))).map _ = _ at hfield
  change transpileLine _ (g ++ ((Token.int f.id.val).spelling ++ rest)) = _
  rw [hline] at hfield ⊢
  rw [transpileLine, isSkipped_eq_false hg htrim (hne _ rfl) (hne _ rfl), if_neg Bool.false_ne_true]
  cases inStruct with
  | false =>
    rw [if_pos rfl, structStart_eq_none hg hblank (toLower_ne_s hch)]
    rfl
  | true =>
    rw [if_neg (by decide), structEnd_eq hg hblank, decide_eq_false (hne _ rfl), if_neg Bool.false_ne_true, Item.step]
    -- a field is matched if and only if its number is not negative
    cases hmatch : fieldMatch (g ++ ch :: (cs ++ rest)) with
    | none =>
      rw [hmatch, Option.map_none] at hfield
      by_cases hneg : f.id.negative = true
      · rw [if_pos hneg, append_nil]
      · rw [if_neg hneg] at hfield
        cases hfield
    | some m =>
      rw [hmatch, Option.map_some] at hfield
      by_cases hneg : f.id.negative = true
      · rw [if_pos hneg] at hfield
        cases hfield
      · rw [if_neg hneg] at hfield ⊢
        rw [← Option.some.inj hfield]

theorem transpileLine_item {item : Item} (h : Line item.tokens line) (st : Bool × List Char) :
    transpileLine st line = item.step st := by
  cases item with
  | start name => exact transpileLine_start h st
  | field f => exact transpileLine_field h st
  | stop => exact transpileLine_stop h st

theorem foldl_lines {items : List Item} (h : Lines (items.map Item.tokens) lines) (st : Bool × List Char) :
    lines.foldl transpileLine st = items.foldl Item.step st := by
  -- the induction is on the lines; blank ones leave the items as they are
  generalize htoks : items.map Item.tokens = toks at h
  induction h generalizing items st with
  | done =>
    rw [map_eq_nil_iff.1 htoks]
    rfl
  | blank hline _ ih =>
    rw [foldl_cons, transpileLine_blank hline]
    exact ih st htoks
  | item hline _ ih =>
    obtain ⟨item, items', rfl, rfl, htoks'⟩ := map_eq_cons_iff.1 htoks
    rw [foldl_cons, foldl_cons, transpileLine_item hline]
    exact ih _ htoks'

theorem foldl_fields (fields : List LegacyField) (out : List Char) : (fields.map Item.field).foldl Item.step (true,
    out) = (true, out ++ ((fields.filter (!·.id.negative)).map LegacyField.migrated).flatMap protoLine) := by
  induction fields generalizing out with
  | nil => exact congrArg (Prod.mk true) (append_nil out).symm
  | cons f fields ih =>
    rw [map_cons, foldl_cons, Item.step, ih, append_assoc, filter_cons]
    cases f.id.negative <;> rfl

theorem foldl_struct (s : LegacyStruct) (out : List Char) : s.items.foldl Item.step (false, out) =
      (false, if s.name.isPlain then out ++ protoLines s.migrated else out) := by
  rw [LegacyStruct.items, foldl_cons, foldl_append, Item.step]
  by_cases hplain : s.name.isPlain = true
  · rw [if_pos hplain, if_pos hplain, foldl_fields]
    simp only [foldl_cons, foldl_nil, Item.step, protoLines, append_assoc]
    rfl
  · -- outside of a struct, fields and braces are skipped
    have hskip : (s.fields.map Item.field).foldl Item.step (false, out) = (false, out) := by
      induction s.fields with
      | nil => rfl
      | cons f fields ih => exact ih
    rw [if_neg hplain, if_neg hplain, hskip]
    rfl

theorem foldl_structs (structs : List LegacyStruct) (out : List Char) :
    (structs.flatMap LegacyStruct.items).foldl Item.step (false, out) =
      (false, out ++ (migratedFile structs).flatMap protoLines) := by
  induction structs generalizing out with
  | nil => exact congrArg (Prod.mk false) (append_nil out).symm
  | cons s structs ih =>
    rw [flatMap_cons, foldl_append, foldl_struct, ih, migratedFile, migratedFile, filter_cons]
    cases s.name.isPlain with
    | true =>
      rw [if_pos rfl, if_pos rfl, map_cons, flatMap_cons, append_assoc]
    | false => rfl

theorem transpileThriftToProto_eq (h : Lines ((structs.flatMap LegacyStruct.items).map Item.tokens) lines)
    (hne : lines ≠ []) : transpileThriftToProto (['\n'].intercalate lines) =
      fileStart ++ (migratedFile structs).flatMap protoLines := by
  rw [transpileThriftToProto, splitOn_intercalate '\n' h.oneLine hne, foldl_lines h, foldl_structs]

theorem endsWord_cons {ch : Char} (h : isIdentChar ch = false) (rest : List Char) : EndsWord (ch :: rest) := by
  intro c hc
  cases hc
  exact h

theorem fieldText_eq (protoType fieldName fieldID : List Char) : fieldText protoType fieldName fieldID =
      [' ', ' ', ' ', ' '] ++ (protoType ++ ([' '] ++ (fieldName ++ ([' '] ++ (['='] ++ ([' '] ++
        (fieldID ++ ([';'] ++ ['\n'])))))))) := by
  -- the literals are kept out of the rewriting, which would compare them byte by byte
  have hregroup : ∀ indent space equals semicolon, indent = [' ', ' ', ' ', ' '] → space = [' '] →
      equals = [' '] ++ (['='] ++ [' ']) → semicolon = [';'] ++ ['\n'] →
      indent ++ (protoType ++ (space ++ (fieldName ++ (equals ++ (fieldID ++ semicolon))))) =
        [' ', ' ', ' ', ' '] ++ (protoType ++ ([' '] ++ (fieldName ++ ([' '] ++ (['='] ++ ([' '] ++
          (fieldID ++ ([';'] ++ ['\n'])))))))) := by
    rintro _ _ _ _ rfl rfl rfl rfl
    rw [append_assoc [' '], append_assoc ['=']]
  exact hregroup _ _ _ _ (by decide) (by decide) (by decide) (by decide)

theorem printed_protoLine (type : TypeWord Proto.keywords) (name : Ident) (tag : Digits) (h : Printed toks text) :
    Printed (Proto.Field.tokens ⟨.plain type, name, tag⟩ ++ toks) (protoLine ⟨.plain type, name, tag⟩ ++ text) := by
  have hspace : Gap [' '] := .space rfl .nil
  -- the tokens from the last one on, each with the gap in front of it
  have hsemi := Printed.token .nil (.punct (show isPunct ';' = true from rfl)) nofun
    (h.gap (.space (show isSpace '\n' = true from rfl) .nil))
  have htag := Printed.token hspace tag.spells (fun _ => endsWord_cons rfl _) hsemi
  have heq := Printed.token hspace (.punct (show isPunct '=' = true from rfl)) nofun htag
  have hname := Printed.token hspace name.spells (fun _ => endsWord_cons rfl _) heq
  have hindent : Gap [' ', ' ', ' ', ' '] := hspace.append (hspace.append (hspace.append hspace))
  have htype := Printed.token hindent type.toIdent.spells (fun _ => endsWord_cons rfl _) hname
  rw [protoLine, fieldText_eq]
  simp only [append_assoc]
  exact htype

theorem printed_migrated (f : LegacyField) (h : Printed toks text) :
    Printed (f.migrated.tokens ++ toks) (protoLine f.migrated ++ text) := by
  unfold LegacyField.migrated
  split
  all_goals exact printed_protoLine _ _ _ h

theorem printed_fields (fields : List LegacyField) (h : Printed toks text) :
    Printed ((fields.map LegacyField.migrated).flatMap Proto.Field.tokens ++ toks)
      ((fields.map LegacyField.migrated).flatMap protoLine ++ text) := by
  induction fields with
  | nil => exact h
  | cons f fields ih =>
    rw [map_cons, flatMap_cons, flatMap_cons, append_assoc, append_assoc]
    exact printed_migrated f ih

theorem messageStart_eq (structName : List Char) : messageStart structName =
      "message".toList ++ ([' '] ++ (structName ++ ([' '] ++ (['{'] ++ ['\n'])))) := by
  -- the literals are kept out of the rewriting, which would compare them byte by byte
  have hregroup : ∀ start brace, start = "message".toList ++ [' '] →
      brace = [' '] ++ (['{'] ++ ['\n']) → start ++ (structName ++ brace) =
        "message".toList ++ ([' '] ++ (structName ++ ([' '] ++ (['{'] ++ ['\n'])))) := by
    rintro _ _ rfl rfl
    rw [append_assoc]
  exact hregroup _ _ (by decide) (by decide)

theorem protoLines_append (m : Proto.Message) (text : List Char) : protoLines m ++ text =
      "message".toList ++ ([' '] ++ (m.name.val.toList ++ ([' '] ++ (['{'] ++ (['\n'] ++
        (m.fields.flatMap protoLine ++ (['}'] ++ (['\n', '\n'] ++ text)))))))) := by
  have hclose : messageEnd = ['}'] ++ ['\n', '\n'] := by decide
  rw [protoLines, messageStart_eq, hclose]
  simp

theorem printed_message (s : LegacyStruct) (h : Printed toks text) :
    Printed (s.migrated.tokens ++ toks) (protoLines s.migrated ++ text) := by
  have hend := Printed.token .nil (.punct (show isPunct '}' = true from rfl)) nofun
    (h.gap (.space (show isSpace '\n' = true from rfl) (.space (show isSpace '\n' = true from rfl) .nil)))
  have hfields := printed_fields (s.fields.filter (!·.id.negative)) hend
  have hstart := Printed.token (.space (show isSpace ' ' = true from rfl) .nil)
    (.punct (show isPunct '{' = true from rfl)) nofun (hfields.gap (.space (show isSpace '\n' = true from rfl) .nil))
  have hname := Printed.token (.space (show isSpace ' ' = true from rfl) .nil) s.name.spells
    (fun _ => endsWord_cons rfl _) hstart
  have hword := Printed.token .nil (Ident.spells ⟨"message", by decide⟩) (fun _ => endsWord_cons rfl _) hname
  have htokens : s.migrated.tokens ++ toks = .ident "message" :: .ident s.name.val :: .punct '{' ::
        (s.migrated.fields.flatMap Proto.Field.tokens ++ .punct '}' :: toks) := by
    rw [Proto.Message.tokens]
    simp only [cons_append, append_assoc, nil_append]
    rfl
  rw [protoLines_append, htokens]
  exact hword

theorem printed_messages (structs : List LegacyStruct) :
    Printed ((structs.map LegacyStruct.migrated).flatMap Proto.Message.tokens)
      ((structs.map LegacyStruct.migrated).flatMap protoLines) := by
  induction structs with
  | nil => exact .done (.gap .nil)
  | cons s structs ih =>
    rw [map_cons, flatMap_cons, flatMap_cons]
    exact printed_message s ih

def migratedHeaders : List Proto.Header :=
  [.syntaxVersion "proto3", .package ⟨"helix.migrated", by decide⟩]

theorem printed_fileStart (h : Printed toks text) :
    Printed (migratedHeaders.flatMap Proto.Header.tokens ++ toks) (fileStart ++ text) :=
  printed_literal_append rfl (by decide +kernel) (by decide +kernel) (by decide +kernel) h

theorem printed_migratedFile (structs : List LegacyStruct) :
    Printed (Proto.fileTokens migratedHeaders (migratedFile structs))
      (fileStart ++ (migratedFile structs).flatMap protoLines) :=
  printed_fileStart (printed_messages _)

def fieldShape (f : FieldNode) : String × BitVec 32 × TypeNode := (f.name, f.id, f.type)

def shape (s : StructNode) : String × List (String × BitVec 32 × TypeNode) := (s.name, s.fields.map fieldShape)

/-- The migrated text parses, and has the struct names, field names, ids and types, in order, that the
Thrift text has. -/
def KeepsSchema (thriftText : List Char) : Prop := ∃ p t, Proto.parseProto (transpileThriftToProto thriftText) = .ok p ∧
    Thrift.parseThrift thriftText = .ok t ∧ p.structs.map shape = t.structs.map shape

def LegacyField.Kept (f : LegacyField) : Prop :=
  f.id.negative = false ∧ (f.requiredness = .plain ∧ f.name.isPlain = true ∨
      f.requiredness ≠ .plain ∧ f.type = .string ∧ f.name.val = "string")

theorem map_filter_eq_iff {α β : Type} {p : α → Bool} {f g : α → β} (xs : List α) :
    (xs.filter p).map f = xs.map g ↔ ∀ x ∈ xs, p x = true ∧ f x = g x := by
  constructor
  · intro h
    have hlength := congrArg List.length h
    rw [length_map, length_map] at hlength
    have hall : ∀ x ∈ xs, p x = true := length_filter_eq_length_iff.1 hlength
    rw [filter_eq_self.2 hall, map_inj_left] at h
    exact fun x hx => ⟨hall x hx, h x hx⟩
  · intro h
    rw [filter_eq_self.2 fun x hx => (h x hx).1]
    exact map_congr_left fun x hx => (h x hx).2

theorem wordType_string_iff (t : Scalar) : wordType Scalar.string.proto.val = wordType t.thrift.val ↔ t = .string := by
  constructor
  · intro h
    cases t with
    | string => rfl
    | _ => cases congrArg TypeNode.kind h
  · rintro rfl
    rfl

theorem fieldShape_marked_iff (t : Scalar) (name : Ident) (id : BitVec 32) : (t.thrift.val, id,
    wordType Scalar.string.proto.val) = (name.val, id, wordType t.thrift.val) ↔ t = .string ∧ name.val = "string" := by
  rw [Prod.mk.injEq, Prod.mk.injEq, wordType_string_iff]
  constructor
  · rintro ⟨hname, -, rfl⟩
    exact ⟨rfl, hname.symm⟩
  · rintro ⟨rfl, hname⟩
    exact ⟨hname.symm, rfl, rfl⟩

theorem LegacyField.kept_iff (f : LegacyField) :
    (!f.id.negative) = true ∧ fieldShape f.migrated.read = fieldShape f.thrift.read ↔ f.Kept := by
  obtain ⟨⟨negative, digits⟩, requiredness, type, name, separator⟩ := f
  cases negative with
  | true => exact iff_of_false (fun h => nomatch h.1) (fun h => nomatch h.1)
  | false =>
    refine and_congr (iff_of_true rfl rfl) ?_
    cases requiredness with
    | plain =>
      have hshape : (name.cut.val, readID digits.val, wordType type.proto.val) =
          (name.val, readID digits.val, wordType type.thrift.val) ↔ name.isPlain = true := by
        rw [type.wordType_eq, ← name.cut_eq_iff, Prod.mk.injEq]
        exact and_iff_left rfl
      refine hshape.trans ⟨fun h => .inl ⟨rfl, h⟩, ?_⟩
      rintro (⟨-, h⟩ | ⟨h, -⟩)
      · exact h
      · exact absurd rfl h
    | required =>
      refine (fieldShape_marked_iff type name _).trans ⟨fun h => .inr ⟨nofun, h⟩, ?_⟩
      rintro (⟨h, -⟩ | ⟨-, h⟩)
      · cases h
      · exact h
    | optional =>
      refine (fieldShape_marked_iff type name _).trans ⟨fun h => .inr ⟨nofun, h⟩, ?_⟩
      rintro (⟨h, -⟩ | ⟨-, h⟩)
      · cases h
      · exact h

theorem LegacyStruct.shape_eq_iff (s : LegacyStruct) :
    shape s.migrated.read = shape s.thrift.read ↔ ∀ f ∈ s.fields, f.Kept := by
  have hfields : ((s.fields.filter (!·.id.negative)).map LegacyField.migrated).map (fun f => fieldShape f.read) =
    (s.fields.map LegacyField.thrift).map (fun f => fieldShape f.read) ↔ ∀ f ∈ s.fields, f.Kept := by
    rw [map_map, map_map, map_filter_eq_iff]
    exact forall₂_congr fun f _ => f.kept_iff
  rw [← hfields, shape, shape, Prod.mk.injEq]
  simp only [Proto.Message.read, Thrift.Struct.read, migrated, thrift, map_map, true_and]
  rfl

theorem thrift_printed (hlines : Lines ((structs.flatMap LegacyStruct.items).map Item.tokens) lines) :
    Printed (Thrift.fileTokens [] (structs.map LegacyStruct.thrift)) (['\n'].intercalate lines) := by
  rw [← flatten_fileItems]
  exact hlines.printed

theorem keepsSchema_shapes (hlines : Lines ((structs.flatMap LegacyStruct.items).map Item.tokens) lines)
    (hne : lines ≠ []) : KeepsSchema (['\n'].intercalate lines) ↔
      ((migratedFile structs).map Proto.Message.read).map shape =
        ((structs.map LegacyStruct.thrift).map Thrift.Struct.read).map shape := by
  rw [KeepsSchema, transpileThriftToProto_eq hlines hne, Proto.parseProto_file (printed_migratedFile structs),
    Thrift.parseThrift_file (thrift_printed hlines)]
  constructor
  · rintro ⟨p, t, hp, ht, h⟩
    cases hp
    cases ht
    exact h
  · intro h
    exact ⟨_, _, rfl, rfl, h⟩

/-- The migration keeps the schema of a legacy file, in every layout, exactly if no struct has a name with a dot, no
id is negative, no name of an unmarked field has a dot, and every marked field is a string with the name `string`. -/
theorem keepsSchema_iff (structs : List LegacyStruct) {lines : List (List Char)}
    (hlines : Lines ((structs.flatMap LegacyStruct.items).map Item.tokens) lines) (hne : lines ≠ []) : KeepsSchema
    (['\n'].intercalate lines) ↔ ∀ s ∈ structs, s.name.isPlain = true ∧ ∀ f ∈ s.fields, f.Kept := by
  rw [keepsSchema_shapes hlines hne, migratedFile, map_map, map_map, map_map, map_map, map_filter_eq_iff]
  exact forall₂_congr fun s _ => and_congr_right fun _ => s.shape_eq_iff

def label : LegacyStruct :=
  ⟨⟨"Label", by decide⟩, [⟨⟨false, ⟨"5", by decide, by decide⟩⟩, .plain, .int64, ⟨"owner", by decide⟩, .comma⟩,
      ⟨⟨false, ⟨"07", by decide, by decide⟩⟩, .plain, .binary, ⟨"raw_data", by decide⟩, .semicolon⟩,
      ⟨⟨false, ⟨"6", by decide, by decide⟩⟩, .required, .string, Scalar.string.thrift.toIdent, .nothing⟩]⟩

def labelLines : List (List Char) :=
  ["// legacy".toList, "struct Label \x7b".toList, "  5: i64 owner,".toList,
    "\t07 :binary  raw_data ;".toList, "".toList, "  6: required string string".toList, "\x7d".toList, "".toList]

theorem lines_labelLines : Lines (([label].flatMap LegacyStruct.items).map Item.tokens) labelLines := by
  refine .blank ?_ <| .item ?_ <| .item ?_ <| .item ?_ <| .blank ?_ <| .item ?_ <| .item ?_ <| .blank ?_ .done
  all_goals exact line_literal rfl (by decide +kernel) (by decide +kernel) (by decide +kernel)

theorem keepsSchema_iff_label : KeepsSchema (['\n'].intercalate labelLines) := by
  refine (keepsSchema_iff [label] lines_labelLines (by decide)).2 ?_
  intro s hs
  obtain rfl := mem_singleton.1 hs
  refine ⟨by decide, ?_⟩
  intro f hf
  simp only [label, mem_cons, not_mem_nil, or_false] at hf
  rcases hf with rfl | rfl | rfl
  · exact ⟨rfl, .inl ⟨rfl, by decide⟩⟩
  · exact ⟨rfl, .inl ⟨rfl, by decide⟩⟩
  · exact ⟨rfl, .inr ⟨nofun, rfl, rfl⟩⟩

def wallet : LegacyStruct :=
  ⟨⟨"Wallet", by decide⟩, [⟨⟨false, ⟨"8", by decide, by decide⟩⟩, .required, .int64, ⟨"balance", by decide⟩, .nothing⟩]⟩

def walletLines : List (List Char) :=
  ["struct Wallet \x7b".toList, "  8: required i64 balance".toList, "\x7d".toList]

theorem lines_walletLines : Lines (([wallet].flatMap LegacyStruct.items).map Item.tokens) walletLines := by
  refine .item ?_ <| .item ?_ <| .item ?_ .done
  all_goals exact line_literal rfl (by decide +kernel) (by decide +kernel) (by decide +kernel)

theorem wallet_not_kept : Proto.parseProto (transpileThriftToProto (['\n'].intercalate walletLines)) =
        .ok { ns := "helix.migrated", structs := [⟨"Wallet", [⟨"i64", 8#32,
          ⟨.string, "", none, none⟩, false⟩], false⟩] } ∧ Thrift.parseThrift (['\n'].intercalate walletLines) =
        .ok { structs := [⟨"Wallet", [⟨"balance", 8#32, ⟨.int64, "", none, none⟩, false⟩], false⟩] } ∧
      ¬ KeepsSchema (['\n'].intercalate walletLines) := by
  have hne : walletLines ≠ [] := nofun
  refine ⟨?_, Thrift.parseThrift_file (thrift_printed lines_walletLines), ?_⟩
  · rw [transpileThriftToProto_eq lines_walletLines hne]
    exact Proto.parseProto_file (printed_migratedFile [wallet])
  · rw [keepsSchema_shapes lines_walletLines hne]
    intro h
    have hfields := (cons.inj h).1
    cases congrArg (fun s : String × List (String × BitVec 32 × TypeNode) =>
      s.2.map fun f => f.2.2.kind) hfields

end HelixRpc.Compiler.Migration
