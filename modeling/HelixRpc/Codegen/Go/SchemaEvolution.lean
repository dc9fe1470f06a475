import HelixRpc.Codegen.Go.Marshal
import HelixRpc.Compiler.Upgrades

/-!
# Old messages under a new schema

The compatibility checker compares structs by name and fields by name; the generated decoder selects fields by id.
-/

namespace HelixRpc.Codegen.Go

open Foundation Compiler

structure WellNumbered (ast : AST) : Prop where
  names : ∀ s ∈ ast.structs, (s.fields.map FieldNode.name).Nodup
  ids : ∀ s ∈ ast.structs, DistinctIds s
  range : ∀ s ∈ ast.structs, IdsUpTo 15 s

theorem lastValue_congr {s s' : StructNode} (rs : List Record) {i : Fin s.fields.length} {j : Fin s'.fields.length}
    (hid : (s'.fields.get j).id = (s.fields.get i).id) (hkind : kindAt s' j = kindAt s i) : GoStruct.value
    (lastValue s' rs) j = GoStruct.value (lastValue s rs) i := by
  unfold GoStruct.value lastValue
  rw [hid]
  -- in both cases the value is a function of the kind alone
  cases lastRecord rs (s.fields.get i).id with
  | none => exact congrArg (fun k => (⟨k, GoVal.zero k⟩ : (k : Kind) × GoVal k)) hkind
  | some r => exact congrArg (fun k => (⟨k, bodyValue k r.body⟩ : (k : Kind) × GoVal k)) hkind

section
variable {s s' : StructNode} (hext : StructExtends s s')
  (hnames : (s.fields.map FieldNode.name).Nodup)
include hext hnames

theorem partner (i : Fin s.fields.length) : ∃ j : Fin s'.fields.length, (s'.fields.get j).name = (s.fields.get i).name ∧
      (s'.fields.get j).id = (s.fields.get i).id ∧ kindAt s' j = kindAt s i := by
  have hi := index_of_mem FieldNode.name hnames (List.get_mem s.fields i)
  obtain ⟨f, hf, hfield⟩ := hext.kept _ _ hi
  obtain ⟨j, hj⟩ := List.get_of_mem (mem_of_index FieldNode.name hf)
  refine ⟨j, ?_, ?_, ?_⟩
  · rw [hj, key_of_index FieldNode.name hf]
  · rw [hj, hfield.id]
  · show (s'.fields.get j).type.kind = (s.fields.get i).type.kind
    rw [hj, hfield.type]

variable (hdist : DistinctIds s')
include hdist

theorem readable_of_extends {x : GoStruct s} {r : Record} (hr : r ∈ structRecords s x) : Readable s' r := by
  obtain ⟨i, hi⟩ := mem_structRecords.1 hr
  obtain ⟨hnum, henc⟩ := fieldRecord_eq_some hi
  obtain ⟨j, -, hid, hkind⟩ := partner hext hnames i
  have hfield : fieldOf s' r = some j := (fieldOf_eq_some_iff hdist r j).2 (by rw [hnum, hid])
  constructor
  · simp only [Declared, hfield, hkind]
    exact wireType_of_encoded henc
  · intro j' hj'
    obtain rfl := Option.some.inj (hfield.symm.trans hj')
    rw [hkind]
    exact codable_of_encoded henc

theorem lastRecord_added (x : GoStruct s) {j : Fin s'.fields.length} (hnew : ∀ i,
    (s.fields.get i).name ≠ (s'.fields.get j).name) : lastRecord (structRecords s x) (s'.fields.get j).id = none := by
  apply lastRecord_eq_none
  intro r hr hnum
  obtain ⟨i, hi⟩ := mem_structRecords.1 hr
  obtain ⟨j', hname, hid, -⟩ := partner hext hnames i
  -- the record has the id of the partner of `i`, so the partner would be the added field
  have hsame : (s'.fields.get j').id = (s'.fields.get j).id := by
    apply BitVec.eq_of_toNat_eq
    rw [hid, ← (fieldRecord_eq_some hi).1, hnum]
  obtain rfl := eq_of_id_eq hdist hsame
  exact hnew i hname.symm
end

/-- A struct name stands for the last struct of that name
in the AST, as in the checker; a file with two structs of one name does not compile. -/
theorem compat_sound {old new : AST} (hold : WellNumbered old) (hnew : WellNumbered new)
    (hdiff : (diffASTs old new).hasBreaking = false) {name : String} {s : StructNode}
    (hs : index StructNode.name old.structs name = some s) (hcod : AllCodable s) (x : GoStruct s) :
    ∃ s', index StructNode.name new.structs name = some s' ∧
      ∃ buf, marshal s x = .ok buf ∧ ∀ dAtA : Slice, dAtA.bytes = buf → ∃ y : GoStruct s', Unmarshals s' dAtA (.ok y) ∧
          (∀ i, ∃ j, (s'.fields.get j).name = (s.fields.get i).name ∧ y.value j = x.value i) ∧
          ∀ j, (∀ i, (s.fields.get i).name ≠ (s'.fields.get j).name) → y j = GoVal.zero (kindAt s' j) := by
  obtain ⟨s', hs', hext⟩ := ((diffASTs_hasBreaking_iff old new).1 hdiff).structs name s hs
  have hmem := mem_of_index StructNode.name hs
  have hmem' := mem_of_index StructNode.name hs'
  have hnames := hold.names s hmem
  have hdist' := hnew.ids s' hmem'
  refine ⟨s', hs', encodeRecords (structRecords s x), ?_, ?_⟩
  · rw [marshal, marshalTo_eq hcod (hold.range s hmem) x]
    rfl
  · intro dAtA hbuf
    have hrun := unmarshal_records (fun r hr => readable_of_extends hext hnames hdist' hr) hbuf
    rw [foldl_applyRecord hdist'] at hrun
    refine ⟨_, hrun, ?_, ?_⟩
    -- an old field: its partner reads the same record with the same kind
    · intro i
      obtain ⟨j, hname, hid, hkind⟩ := partner hext hnames i
      refine ⟨j, hname, ?_⟩
      rw [lastValue_congr _ hid hkind, lastValue_structRecords hcod (hold.ids s hmem) (hold.range s hmem)]
    · intro j hj
      rw [lastValue, lastRecord_added hext hnames hdist' x hj]

def userV1 : StructNode where
  name := "User"
  fields := [⟨"id", 1, ⟨.int32, "", none, none⟩, false⟩]

def userV2 : StructNode where
  name := "User"
  fields := [⟨"id", 1, ⟨.int32, "", none, none⟩, false⟩, ⟨"email", 2, ⟨.string, "", none, none⟩, true⟩]

theorem wellNumbered_user : WellNumbered { structs := [userV1] } ∧ WellNumbered { structs := [userV2] } :=
  ⟨⟨by decide, by decide, by decide⟩, ⟨by decide, by decide, by decide⟩⟩

theorem compat_sound_user : (diffASTs { structs := [userV1] } { structs := [userV2] }).hasBreaking = false ∧
      ∃ s', index StructNode.name [userV2] "User" = some s' ∧
        ∃ buf, marshal userV1 (fun | ⟨0, _⟩ => (-7 : BitVec 32)) = .ok buf ∧
          ∀ dAtA : Slice, dAtA.bytes = buf → ∃ y : GoStruct s', Unmarshals s' dAtA (.ok y) ∧
            (∀ i, ∃ j, (s'.fields.get j).name = (userV1.fields.get i).name ∧
              y.value j = GoStruct.value (s := userV1) (fun | ⟨0, _⟩ => (-7 : BitVec 32)) i) ∧
            ∀ j, (∀ i, (userV1.fields.get i).name ≠ (s'.fields.get j).name) → y j = GoVal.zero (kindAt s' j) :=
  ⟨by decide, compat_sound wellNumbered_user.1 wellNumbered_user.2 (by decide) rfl (by decide) _⟩

theorem Encoded.skipped {k : Kind} {v : GoVal k} {body : Body} (h : Encoded k v body) :
    body.wireType = 0 ∨ body.wireType = 2 := by
  cases h
  exacts [.inl rfl, .inl rfl, .inr rfl]

theorem readable_by_old {s s' : StructNode} (hext : StructExtends s s') (hnames : (s.fields.map FieldNode.name).Nodup)
    (hdist : DistinctIds s') {x : GoStruct s'} {r : Record} (hr : r ∈ structRecords s' x) : Readable s r := by
  obtain ⟨c, hc⟩ := mem_structRecords.1 hr
  obtain ⟨hnum, henc⟩ := fieldRecord_eq_some hc
  cases hf : fieldOf s r with
  | none =>
    simp only [Readable, Declared, hf]
    refine ⟨henc.skipped, ?_⟩
    rintro i ⟨⟩
  | some i =>
    -- the partner of the field has its id, so the record is the partner's
    obtain ⟨j, -, hid, hkind⟩ := partner hext hnames i
    obtain rfl : c = j := eq_of_id_eq hdist (BitVec.eq_of_toNat_eq (by rw [hid, ← num_of_fieldOf hf, hnum]))
    simp only [Readable, Declared, hf, ← hkind, Option.some.injEq, forall_eq']
    exact ⟨wireType_of_encoded henc, codable_of_encoded henc⟩

/-- The old decoder reads what the new encoder writes, with the same values in its own fields. -/
def ReadByOld (s s' : StructNode) (x : GoStruct s') : Prop :=
  ∃ buf, marshal s' x = .ok buf ∧ ∀ dAtA : Slice, dAtA.bytes = buf → ∃ y : GoStruct s, Unmarshals s dAtA (.ok y) ∧
    ∀ i, ∃ j, (s'.fields.get j).name = (s.fields.get i).name ∧ y.value i = x.value j

/-- After any chain of accepted upgrades, the decoder of the first schema reads the messages of the last one. -/
theorem upgrades_read_by_old {old new : AST} (hold : WellNumbered old) (hnew : WellNumbered new)
    (hchain : Relation.ReflTransGen Accepts old new) {name : String} {s s' : StructNode}
    (hs : index StructNode.name old.structs name = some s) (hs' : index StructNode.name new.structs name = some s')
    (hcod : AllCodable s') (x : GoStruct s') : ReadByOld s s' x := by
  obtain ⟨t, ht, hext⟩ := ((diffASTs_hasBreaking_iff old new).1 (accepts_of_chain hchain)).structs name s hs
  obtain rfl := Option.some.inj (ht.symm.trans hs')
  have hmem := mem_of_index StructNode.name hs
  have hmem' := mem_of_index StructNode.name hs'
  refine ⟨_, marshal_eq hcod (hnew.range t hmem') x, fun dAtA hbuf => ?_⟩
  have hrun := unmarshal_records (fun r hr => readable_by_old hext (hold.names s hmem) (hnew.ids t hmem') hr) hbuf
  rw [foldl_applyRecord (hold.ids s hmem)] at hrun
  refine ⟨_, hrun, fun i => ?_⟩
  obtain ⟨j, hname, hid, hkind⟩ := partner hext (hold.names s hmem) i
  refine ⟨j, hname, ?_⟩
  rw [← lastValue_congr _ hid hkind, lastValue_structRecords hcod (hnew.ids t hmem') (hnew.range t hmem')]

theorem upgrades_read_by_old_user : ReadByOld userV1 userV2 fun
    | ⟨0, _⟩ => (-7 : BitVec 32)
    | ⟨1, _⟩ => (⟨[0x61], by decide⟩ : Slice) :=
  have haccepts : (diffASTs { structs := [userV1] } { structs := [userV2] }).hasBreaking = false := by decide
  have hnew : index StructNode.name [userV2] "User" = some userV2 := rfl
  upgrades_read_by_old wellNumbered_user.1 wellNumbered_user.2 (.single haccepts) rfl hnew (by decide) _

end HelixRpc.Codegen.Go
