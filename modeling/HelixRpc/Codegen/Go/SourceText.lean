import HelixRpc.Codegen.Go.Processor
import HelixRpc.Compiler.Linter
import HelixRpc.Foundation.Labels
import Mathlib.Algebra.BigOperators.Group.List.Basic

/-!
# The text of the generated Go source

Braces and function names of the declarations that `GenerateGo` (`compiler/codegen/go_generator.go`) writes for a
struct.
-/

namespace HelixRpc.Codegen.Go.SourceText

open Foundation Compiler Compiler.Linter List

abbrev Text := List Char

def nesting (depth : Nat) : Text → Option Nat
  | [] => some depth
  | ch :: chs =>
    if ch = '{' then nesting (depth + 1) chs
    else if ch = '}' then if depth = 0 then none else nesting (depth - 1) chs
    else nesting depth chs

def Balanced (t : Text) : Prop := nesting 0 t = some 0

structure Decl where
  func : Option String
  text : Text

def WellFormed (decls : List Decl) : Prop := (∀ d ∈ decls, Balanced d.text) ∧ (decls.filterMap (·.func)).Nodup

def braceSum (t : Text) : Int := t.count '{' - t.count '}'

def NoBrace (t : Text) : Prop := '{' ∉ t ∧ '}' ∉ t

section
variable {t : Text}

theorem braceSum_append (t u : Text) : braceSum (t ++ u) = braceSum t + braceSum u := by
  rw [braceSum, count_append, count_append, braceSum, braceSum]
  omega

theorem nesting_eq_some {depth depth' : Nat} (h : nesting depth t = some depth') :
    (depth' : Int) = depth + braceSum t := by
  induction t generalizing depth with
  | nil =>
    cases h
    simp [braceSum]
  | cons ch chs ih =>
    rw [nesting] at h
    have hcons : braceSum (ch :: chs) = braceSum [ch] + braceSum chs := braceSum_append [ch] chs
    split at h
    · rename_i hopen
      have hone : braceSum [ch] = 1 := by rw [hopen]; rfl
      have := ih h
      omega
    split at h
    · rename_i hclose
      have hone : braceSum [ch] = -1 := by rw [hclose]; rfl
      split at h
      · cases h
      · have := ih h
        omega
    · rename_i hopen hclose
      have hzero : braceSum [ch] = 0 := by
        simp only [braceSum, count_singleton, beq_iff_eq, hopen, hclose, if_false]
        rfl
      have := ih h
      omega

theorem not_balanced (h : braceSum t ≠ 0) : ¬ Balanced t := by
  intro hbalanced
  have := nesting_eq_some hbalanced
  omega

theorem NoBrace.braceSum_eq (h : NoBrace t) : braceSum t = 0 := by
  rw [braceSum, count_eq_zero_of_not_mem h.1, count_eq_zero_of_not_mem h.2]
  rfl
end

inductive Lit where
  | func
  | writeHead
  | structBegin
  | beginDone
  | returnErr
  | fieldBegin
  | thriftType
  | comma
  | errOpen
  | write
  | value
  | fieldEnd
  | fieldStop
  | writeEnd
  | readHead
  | readBegin
  | readLoop
  | loopErr
  | readSwitch
  | caseID
  | ifType
  | blockOpen
  | read
  | assign
  | assigned
  | skip
  | switchEnd
  | readFieldEnd
  | readEnd

def Lit.text : Lit → String
  | func => "func (x *"
  | writeHead => ") Write(ctx context.Context, oprot thrift.TProtocol) error \x7b\n"
  | structBegin => "\tif err := oprot.WriteStructBegin(ctx, \""
  | beginDone => "\"); err != nil \x7b\n"
  | returnErr => "\t\treturn err\n\t\x7d\n"
  | fieldBegin => "\tif err := oprot.WriteFieldBegin(ctx, \""
  | thriftType => "\", thrift."
  | comma => ", "
  | errOpen => "); err != nil \x7b\n"
  | write => "\tif err := oprot.Write"
  | value => "(ctx, x."
  | fieldEnd => "\tif err := oprot.WriteFieldEnd(ctx); err != nil \x7b\n"
  | fieldStop => "\tif err := oprot.WriteFieldStop(ctx); err != nil \x7b\n"
  | writeEnd => "\treturn oprot.WriteStructEnd(ctx)\n\x7d\n\n"
  | readHead => ") Read(ctx context.Context, iprot thrift.TProtocol) error \x7b\n"
  | readBegin => "\tif _, err := iprot.ReadStructBegin(ctx); err != nil \x7b\n"
  | readLoop => "\tfor \x7b\n\t\t_, fieldTypeId, fieldId, err := iprot.ReadFieldBegin(ctx)\n\t\tif err != nil \x7b\n"
  | loopErr => "\t\t\treturn err\n\t\t\x7d\n"
  | readSwitch => "\t\tif fieldTypeId == thrift.STOP \x7b\n\t\t\tbreak\n\t\t\x7d\n\t\tswitch fieldId \x7b\n"
  | caseID => "\t\tcase "
  | ifType => ":\n\t\t\tif fieldTypeId == thrift."
  | blockOpen => " \x7b\n"
  | read => "\t\t\t\tif v, err := iprot.Read"
  | assign => "(ctx); err != nil \x7b\n\t\t\t\t\treturn err\n\t\t\t\t\x7d else \x7b\n\t\t\t\t\tx."
  | assigned => " = v\n\t\t\t\t\x7d\n"
  | skip => "\t\t\t\x7d else \x7b\n\t\t\t\tiprot.Skip(ctx, fieldTypeId)\n\t\t\t\x7d\n"
  -- the switch is closed twice
  | switchEnd => "\t\tdefault:\n\t\t\tiprot.Skip(ctx, fieldTypeId)\n\t\t\x7d\n\t\t\x7d\n"
  | readFieldEnd => "\t\tif err := iprot.ReadFieldEnd(ctx); err != nil \x7b\n"
  | readEnd => "\t\x7d\n\treturn iprot.ReadStructEnd(ctx)\n\x7d\n\n"

def Lit.sum : Lit → Int
  | readLoop => 2
  | writeHead | beginDone | errOpen | fieldEnd | fieldStop | readHead | readBegin | readSwitch | blockOpen | assign
  | readFieldEnd => 1
  | returnErr | writeEnd | loopErr | assigned | skip => -1
  | switchEnd | readEnd => -2
  | _ => 0

theorem braceSum_lit (l : Lit) : braceSum l.text.toList = l.sum := by
  cases l with
  | _ => decide +kernel

inductive Frag where
  | lit (l : Lit)
  | arg (t : Text)

def Frag.chars : Frag → Text
  | .lit l => l.text.toList
  | .arg t => t

variable (frags : List Frag)

def render : Text := frags.flatMap Frag.chars

def decimalText (i : Int) : Text := (if i < 0 then ['-'] else []) ++ Nat.toDigits 10 i.natAbs

def typeConst : TType → String
  | .i32 => "I32"
  | .i64 => "I64"
  | .string => "STRING"
  | .bool => "BOOL"
  | .struct => "STRUCT"
  | _ => "STOP"

/-- The kinds that have a case in `Write` and `Read`, with the name in the methods of the protocol. -/
def protocolName : Kind → Option String
  | .int32 => some "I32"
  | .int64 => some "I64"
  | .string => some "String"
  | _ => none

variable (f : FieldNode)

def capName : Text := toCamelCase f.name.toList

def writeValue : List Frag :=
  match protocolName f.kind with
  | some name => [.lit .write, .arg name.toList, .lit .value, .arg (capName f), .lit .errOpen]
  | none => []

def writeField : List Frag :=
  [.lit .fieldBegin, .arg f.name.toList, .lit .thriftType, .arg (typeConst (mapThriftTypeConst f.kind)).toList, .lit .comma,
    .arg (decimalText f.id.toInt), .lit .errOpen, .lit .returnErr] ++
    writeValue f ++ [.lit .returnErr, .lit .fieldEnd, .lit .returnErr]

def writeText (s : StructNode) : List Frag :=
  [.lit .func, .arg s.name.toList, .lit .writeHead, .lit .structBegin, .arg s.name.toList, .lit .beginDone,
    .lit .returnErr] ++ s.fields.flatMap writeField ++ [.lit .fieldStop, .lit .returnErr, .lit .writeEnd]

def readValue : List Frag :=
  match protocolName f.kind with
  | some name => [.lit .read, .arg name.toList, .lit .assign, .arg (capName f), .lit .assigned]
  | none => []

def readField : List Frag :=
  [.lit .caseID, .arg (decimalText f.id.toInt), .lit .ifType, .arg (typeConst (mapThriftTypeConst f.kind)).toList,
    .lit .blockOpen] ++ readValue f ++ [.lit .skip]

def readText (s : StructNode) : List Frag :=
  [.lit .func, .arg s.name.toList, .lit .readHead, .lit .readBegin, .lit .returnErr, .lit .readLoop, .lit .loopErr,
    .lit .readSwitch] ++ s.fields.flatMap readField ++
    [.lit .switchEnd, .lit .readFieldEnd, .lit .loopErr, .lit .readEnd]

def sizeOfVarint : Decl := ⟨some "sizeOfVarint",
  ("func sizeOfVarint(v uint64) int \x7b\n\tif v == 0 \x7b\n\t\treturn 1\n\t\x7d\n\tsize := 0\n\tfor v > 0 \x7b\n" ++
    "\t\tsize++\n\t\tv >>= 7\n\t\x7d\n\treturn size\n\x7d\n\n").toList⟩

/-- The other declarations of `GenerateGo`: in front of the structs, of a struct before and behind the
ones of this module, and of the services. -/
structure Rest where
  helpers : List Decl
  before : StructNode → List Decl
  between : StructNode → List Decl
  after : StructNode → List Decl
  services : List Decl

def structDecls (other : Rest) (s : StructNode) : List Decl := other.before s ++ sizeOfVarint :: (other.between s ++
    ⟨none, render (writeText s)⟩ :: ⟨none, render (readText s)⟩ :: other.after s)

def generateGo (other : Rest) (parsed : AST) : List Decl :=
  other.helpers ++ (parsed.structs.flatMap (structDecls other) ++ other.services)

def Frag.sum : Frag → Int
  | .lit l => l.sum
  | .arg t => braceSum t

def fragSum : Int := (frags.map Frag.sum).sum

theorem braceSum_render : braceSum (render frags) = fragSum frags := by
  induction frags with
  | nil => rfl
  | cons frag frags ih =>
    have hfrag : braceSum frag.chars = frag.sum := by
      cases frag with
      | lit l => exact braceSum_lit l
      | arg t => rfl
    rw [render, flatMap_cons, braceSum_append, hfrag, fragSum, map_cons, sum_cons, ← fragSum, ← ih]
    rfl

theorem fragSum_append (frags more : List Frag) : fragSum (frags ++ more) = fragSum frags + fragSum more := by
  rw [fragSum, map_append, sum_append, fragSum, fragSum]

theorem fragSum_cons (frag : Frag) (frags : List Frag) : fragSum (frag :: frags) = frag.sum + fragSum frags := rfl

theorem fragSum_nil : fragSum [] = 0 := rfl

theorem braceSum_decimalText (i : Int) : braceSum (decimalText i) = 0 := by
  have hdigits : NoBrace (Nat.toDigits 10 i.natAbs) := ⟨sep_notMem_toDigits rfl _, sep_notMem_toDigits rfl _⟩
  rw [decimalText, braceSum_append, hdigits.braceSum_eq]
  split
  all_goals rfl

theorem braceSum_mapThriftTypeConst (k : Kind) : braceSum (typeConst (mapThriftTypeConst k)).toList = 0 := by
  cases k with
  | _ => rfl

theorem braceSum_protocolName {k : Kind} {name : String} (h : protocolName k = some name) :
    braceSum name.toList = 0 := by
  cases k with
  | int32 | int64 | string =>
    cases h
    rfl
  | _ => cases h

def PlainNames (s : StructNode) : Prop :=
  NoBrace s.name.toList ∧ ∀ f ∈ s.fields, NoBrace f.name.toList ∧ NoBrace (capName f)

theorem fragSum_readField {f : FieldNode} (hcap : NoBrace (capName f)) : fragSum (readField f) = 0 := by
  have hvalue : fragSum (readValue f) = 0 := by
    unfold readValue
    split
    · simp only [fragSum_cons, fragSum_nil, Frag.sum, Lit.sum, braceSum_protocolName ‹_›, hcap.braceSum_eq]
      rfl
    · rfl
  simp only [readField, fragSum_append, fragSum_cons, fragSum_nil, Frag.sum, Lit.sum, braceSum_mapThriftTypeConst,
    braceSum_decimalText, hvalue]
  rfl

theorem fragSum_writeField {f : FieldNode} (hname : NoBrace f.name.toList) (hcap : NoBrace (capName f)) :
    fragSum (writeField f) = if protocolName f.kind = none then -1 else 0 := by
  have hvalue : fragSum (writeValue f) = if protocolName f.kind = none then 0 else 1 := by
    unfold writeValue
    split
    · rename_i name hkind
      simp only [fragSum_cons, fragSum_nil, Frag.sum, Lit.sum, braceSum_protocolName hkind, hcap.braceSum_eq, hkind,
        reduceCtorEq, if_false]
      rfl
    · rename_i hkind
      rw [if_pos hkind]
      rfl
  simp only [writeField, fragSum_append, fragSum_cons, fragSum_nil, Frag.sum, Lit.sum, braceSum_mapThriftTypeConst,
    braceSum_decimalText, hname.braceSum_eq, hvalue]
  split
  all_goals rfl

theorem fragSum_flatMap {write : FieldNode → List Frag} {sum : FieldNode → Int} {fields : List FieldNode}
    (h : ∀ f ∈ fields, fragSum (write f) = sum f) : fragSum (fields.flatMap write) = (fields.map sum).sum := by
  induction fields with
  | nil => rfl
  | cons f fields ih =>
    rw [flatMap_cons, fragSum_append, h f mem_cons_self, ih fun g hg => h g (mem_cons_of_mem _ hg), map_cons, sum_cons]

theorem fragSum_readText {s : StructNode} (h : PlainNames s) : fragSum (readText s) = -1 := by
  have hfields : fragSum (s.fields.flatMap readField) = 0 := by
    rw [fragSum_flatMap fun f hf => fragSum_readField (h.2 f hf).2, map_const', sum_replicate_int, Int.mul_zero]
  simp only [readText, fragSum_append, fragSum_cons, fragSum_nil, Frag.sum, Lit.sum, h.1.braceSum_eq, hfields]
  rfl

theorem fragSum_writeText {s : StructNode} (h : PlainNames s) :
    fragSum (writeText s) = -(s.fields.countP fun f => protocolName f.kind = none) := by
  have hcount : ∀ fields : List FieldNode,
      (fields.map fun f => if protocolName f.kind = none then (-1 : Int) else 0).sum =
        -(fields.countP fun f => protocolName f.kind = none) := by
    intro fields
    induction fields with
    | nil => rfl
    | cons f fields ih =>
      rw [map_cons, sum_cons, ih, countP_cons]
      by_cases hkind : protocolName f.kind = none
      · simp only [hkind, if_true, decide_true]
        omega
      · simp only [hkind, if_false, decide_false, Bool.false_eq_true]
        omega
  have hfields := fragSum_flatMap fun f hf => fragSum_writeField (h.2 f hf).1 (h.2 f hf).2
  simp only [writeText, fragSum_append, fragSum_cons, fragSum_nil, Frag.sum, Lit.sum, h.1.braceSum_eq, hfields, hcount]
  omega

/-- The source of a schema with a struct is never well formed: `Read` closes a block too
much. -/
theorem generateGo_illFormed (other : Rest) (parsed : AST) (hstructs : parsed.structs ≠ [])
    (hnames : ∀ s ∈ parsed.structs, PlainNames s) :
    ¬ WellFormed (generateGo other parsed) ∧ (∀ s ∈ parsed.structs, ¬ Balanced (render (readText s)) ∧
        ((∃ f ∈ s.fields, protocolName f.kind = none) → ¬ Balanced (render (writeText s)))) ∧
      (2 ≤ parsed.structs.length → ¬ ((generateGo other parsed).filterMap (·.func)).Nodup) := by
  have hread : ∀ s ∈ parsed.structs, ¬ Balanced (render (readText s)) := by
    intro s hs
    refine not_balanced ?_
    rw [braceSum_render, fragSum_readText (hnames s hs)]
    decide
  refine ⟨?_, fun s hs => ⟨hread s hs, ?_⟩, ?_⟩
  · rintro ⟨hbalanced, -⟩
    obtain ⟨s, hs⟩ := exists_mem_of_ne_nil _ hstructs
    refine hread s hs (hbalanced ⟨none, render (readText s)⟩ ?_)
    refine mem_append_right _ (mem_append_left _ (mem_flatMap.2 ⟨s, hs, ?_⟩))
    refine mem_append_right _ (mem_cons_of_mem _ (mem_append_right _ ?_))
    exact mem_cons_of_mem _ mem_cons_self
  · rintro ⟨f, hf, hkind⟩
    refine not_balanced ?_
    have hpos : 0 < s.fields.countP fun f => protocolName f.kind = none :=
      countP_pos_iff.2 ⟨f, hf, decide_eq_true hkind⟩
    rw [braceSum_render, fragSum_writeText (hnames s hs)]
    omega
  · intro hlength hnodup
    -- each struct declares the function once more
    have hcount : ∀ structs : List StructNode, structs.length ≤
        ((structs.flatMap (structDecls other)).filterMap (·.func)).count "sizeOfVarint" := by
      intro structs
      induction structs with
      | nil => exact Nat.le_refl 0
      | cons s structs ih =>
        have hone : 1 ≤ ((structDecls other s).filterMap (·.func)).count "sizeOfVarint" := by
          refine count_pos_iff.2 (mem_filterMap.2 ⟨sizeOfVarint, ?_, rfl⟩)
          exact mem_append_right _ mem_cons_self
        rw [flatMap_cons, filterMap_append, count_append, length_cons]
        omega
    have htwo := hcount parsed.structs
    have hle := nodup_iff_count_le_one.1 hnodup "sizeOfVarint"
    rw [generateGo, filterMap_append, filterMap_append, count_append, count_append] at hle
    omega

def noRest : Rest := ⟨[], fun _ => [], fun _ => [], fun _ => [], []⟩

def emptyStruct : StructNode := ⟨"Empty", [], false⟩

theorem generateGo_illFormed_empty : ¬ WellFormed (generateGo noRest { structs := [emptyStruct] }) := by
  refine (generateGo_illFormed noRest _ (cons_ne_nil _ _) fun s hs => ?_).1
  obtain rfl := mem_singleton.1 hs
  exact ⟨⟨by decide, by decide⟩, nofun⟩

theorem two_structs_illFormed :
    (generateGo noRest { structs := [emptyStruct, ⟨"Other", [], false⟩] }).filterMap (·.func) =
        ["sizeOfVarint", "sizeOfVarint"] ∧ ¬ Balanced (render (readText emptyStruct)) := by
  refine ⟨rfl, not_balanced ?_⟩
  have hnames : PlainNames emptyStruct := ⟨⟨by decide, by decide⟩, nofun⟩
  rw [braceSum_render, fragSum_readText hnames]
  decide

end HelixRpc.Codegen.Go.SourceText
