import HelixRpc.Compiler.Checker

/-!
# Chains of schema upgrades

The relation that the compatibility checker decides (`Extends`) is a preorder on ASTs.
-/

namespace HelixRpc.Compiler

section
variable {α : Type} {key : α → String}

theorem compareAll_self (xs : List α) (removed : String → Note) {compare : α → α → CompatReport → CompatReport}
    (hsame : ∀ x r, compare x x r = r) (r : CompatReport) : compareAll key xs xs removed compare r = r := by
  refine List.foldlRecOn (indexed key xs) _ (motive := fun r' => r' = r) rfl ?_
  rintro r' rfl x hx
  rw [(mem_indexed_iff key).1 hx]
  exact hsame x r'

theorem addAll_self (xs : List α) (added : α → CompatReport → CompatReport) (r : CompatReport) :
    addAll key xs xs added r = r := by
  refine List.foldlRecOn (indexed key xs) _ (motive := fun r' => r' = r) rfl ?_
  rintro r' rfl x hx
  rw [(mem_indexed_iff key).1 hx]
  rfl
end

theorem compareFields_self (name : String) (f : FieldNode) (r : CompatReport) : compareFields name f f r = r := by
  have htype : typesEqual f.type f.type = true := (typesEqual_iff f.type f.type).2 rfl
  simp [compareFields, CompatReport.breakIf, htype]

theorem compareStructs_self (s : StructNode) (r : CompatReport) : compareStructs s s r = r := by
  rw [compareStructs, compareAll_self _ _ (compareFields_self s.name), addAll_self]

theorem compareEnums_self (e : EnumNode) (r : CompatReport) : compareEnums e e r = r := by
  rw [compareEnums, compareAll_self, addAll_self]
  intro v r
  simp [CompatReport.breakIf]

theorem compareMethods_self (name : String) (m : MethodNode) (r : CompatReport) : compareMethods name m m r = r := by
  simp [compareMethods, CompatReport.breakIf]

theorem compareServices_self (s : ServiceNode) (r : CompatReport) : compareServices s s r = r := by
  rw [compareServices, compareAll_self _ _ (compareMethods_self s.name), addAll_self]

theorem diffASTs_self (a : AST) : diffASTs a a = {} := by
  simp [diffASTs, compareAll_self _ _ compareStructs_self, compareAll_self _ _ compareEnums_self, compareAll_self _ _ compareServices_self, addAll_self]

section
variable {α : Type} {key : α → String} {a b c : List α}

theorem Kept.trans {R : α → α → Prop} (hR : ∀ x y z, R x y → R y z → R x z)
    (hab : Kept key R a b) (hbc : Kept key R b c) : Kept key R a c := by
  intro name x hx
  obtain ⟨y, hy, hxy⟩ := hab name x hx
  obtain ⟨z, hz, hyz⟩ := hbc name y hy
  exact ⟨z, hz, hR x y z hxy hyz⟩

theorem Added.trans {R : α → α → Prop} {P : α → Prop} (hP : ∀ x y, R x y → P x → P y) (hkept : Kept key R b c)
    (hab : Added key P a b) (hbc : Added key P b c) : Added key P a c := by
  intro name z hz hnone
  cases hb : index key b name with
  | none => exact hbc name z hz hb
  | some y =>
    obtain ⟨z', hz', hyz⟩ := hkept name y hb
    have hsame : z' = z := Option.some.inj (hz'.symm.trans hz)
    subst hsame
    exact hP y z' hyz (hab name y hb hnone)
end

theorem FieldExtends.trans {f g h : FieldNode} (hfg : FieldExtends f g) (hgh : FieldExtends g h) :
    FieldExtends f h := by
  refine ⟨hfg.id.trans hgh.id, hfg.type.trans hgh.type, ?_⟩
  intro hf
  exact hgh.optional (hfg.optional hf)

theorem StructExtends.trans {s t u : StructNode} (hst : StructExtends s t)
    (htu : StructExtends t u) : StructExtends s u := by
  constructor
  · apply Kept.trans _ hst.kept htu.kept
    intro f g h
    exact FieldExtends.trans
  · apply Added.trans _ htu.kept hst.added htu.added
    intro g h hgh
    exact hgh.optional

theorem EnumExtends.trans {d e f : EnumNode} (hde : EnumExtends d e) (hef : EnumExtends e f) : EnumExtends d f := by
  apply Kept.trans _ hde hef
  intro v w x
  exact Eq.trans

theorem MethodExtends.trans {l m n : MethodNode} (hlm : MethodExtends l m)
    (hmn : MethodExtends m n) : MethodExtends l n :=
  ⟨hlm.inputType.trans hmn.inputType, hlm.outputType.trans hmn.outputType,
    hlm.clientStreaming.trans hmn.clientStreaming, hlm.serverStreaming.trans hmn.serverStreaming⟩

theorem ServiceExtends.trans {s t u : ServiceNode} (hst : ServiceExtends s t)
    (htu : ServiceExtends t u) : ServiceExtends s u := by
  apply Kept.trans _ hst htu
  intro l m n
  exact MethodExtends.trans

theorem Extends.trans {a b c : AST} (hab : Extends a b) (hbc : Extends b c) : Extends a c := by
  refine ⟨?_, ?_, ?_⟩
  · apply Kept.trans _ hab.structs hbc.structs
    intro s t u
    exact StructExtends.trans
  · apply Kept.trans _ hab.enums hbc.enums
    intro d e f
    exact EnumExtends.trans
  · apply Kept.trans _ hab.services hbc.services
    intro s t u
    exact ServiceExtends.trans

def Accepts (old new : AST) : Prop := (diffASTs old new).hasBreaking = false

theorem accepts_refl (a : AST) : Accepts a a := by rw [Accepts, diffASTs_self]

theorem Accepts.trans {a b c : AST} (hab : Accepts a b) (hbc : Accepts b c) : Accepts a c := by
  have hab' : Extends a b := (diffASTs_hasBreaking_iff a b).1 hab
  have hbc' : Extends b c := (diffASTs_hasBreaking_iff b c).1 hbc
  exact (diffASTs_hasBreaking_iff a c).2 (hab'.trans hbc')

theorem accepts_of_chain {a b : AST} (h : Relation.ReflTransGen Accepts a b) : Accepts a b := by
  induction h with
  | refl => exact accepts_refl a
  | tail _ hstep ih => exact ih.trans hstep

/-- Compatibility is a preorder: an AST compared with itself gives no entry at all, accepted
upgrades compose, and so does any chain of them. -/
theorem compatibility_preorder : (∀ a : AST, (diffASTs a a).breaking = [] ∧ (diffASTs a a).safe = [] ∧
    (diffASTs a a).hasBreaking = false) ∧ (∀ a b c : AST, (diffASTs a b).hasBreaking = false →
    (diffASTs b c).hasBreaking = false → (diffASTs a c).hasBreaking = false) ∧ (∀ a b : AST,
    Relation.ReflTransGen Accepts a b → (diffASTs a b).hasBreaking = false) := by
  refine ⟨?_, ?_, ?_⟩
  · intro a
    rw [diffASTs_self]
    exact ⟨rfl, rfl, rfl⟩
  · intro a b c hab hbc
    exact Accepts.trans hab hbc
  · intro a b hchain
    exact accepts_of_chain hchain

def orderV1 : AST where
  structs := [⟨"Order", [⟨"id", 1, ⟨.int64, "", none, none⟩, false⟩], false⟩]

def orderV2 : AST where
  structs := [⟨"Order", [⟨"id", 1, ⟨.int64, "", none, none⟩, false⟩,
    ⟨"note", 2, ⟨.string, "", none, none⟩, true⟩], false⟩]

def orderV3 : AST where
  structs := [⟨"Order", [⟨"id", 1, ⟨.int64, "", none, none⟩, true⟩,
    ⟨"note", 2, ⟨.string, "", none, none⟩, true⟩], false⟩]
  enums := [⟨"Status", [("OPEN", 0)], List.nodup_singleton "OPEN"⟩]
  services := [⟨"Orders", [⟨"Get", "Order", "Order", false, false, "", ""⟩]⟩]

theorem compatibility_preorder_order : (diffASTs orderV3 orderV3).breaking = [] ∧ (diffASTs orderV3 orderV3).safe = [] ∧
      (diffASTs orderV1 orderV3).hasBreaking = false := by
  obtain ⟨hsame, hcompose, -⟩ := compatibility_preorder
  have hfirst : (diffASTs orderV1 orderV2).hasBreaking = false := by decide
  have hsecond : (diffASTs orderV2 orderV3).hasBreaking = false := by decide
  exact ⟨(hsame orderV3).1, (hsame orderV3).2.1, hcompose _ _ _ hfirst hsecond⟩

end HelixRpc.Compiler
