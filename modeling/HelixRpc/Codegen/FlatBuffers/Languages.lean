import HelixRpc.Codegen.Go.FlatBuffers
import HelixRpc.Codegen.Node.FlatBuffers
import HelixRpc.Codegen.Python.FlatBuffers

/-!
# FlatBuffers across languages

The Go, Python and Node encoders are each shown to write `flatBytes`, under their own conditions.
-/

namespace HelixRpc.Codegen.FlatBuffers

open Foundation Compiler Codegen.Go

/-- The three encoders return the same bytes for a Go value, a Python object and a Node object, and
the Python decoder returns the object from them. -/
structure SameBuffers (s : StructNode) (x : GoStruct s) (y : Fin s.fields.length → Python.PyVal)
    (z : Node.JsStruct s) : Prop where
  compiles : Go.marshalFlatBuffersCompiles s = true
  agree : ∃ buf, Go.marshalFlatBuffers s x = .ok buf ∧ Python.marshalFlatbuffers s y = .ok buf ∧
    Node.marshalFlatBuffers s z = .ok buf ∧ Python.unmarshalFlatbuffers s buf = .ok y

/-- The encoders agree exactly for structs with a string field whose table has at most 255 bytes, and
values whose vtable starts less than `2 ^ 31` bytes behind the table. -/
theorem sameBuffers_iff {s : StructNode} (hflat : AllFlat s) (htable : tableSize s < 2 ^ 16) {x : GoStruct s}
    {y : Fin s.fields.length → Python.PyVal} {z : Node.JsStruct s} (hpython : ∀ c,
    Python.SameValue (kindAt s c) (x c) (y c)) (hnode : ∀ c, Node.SameValue (kindAt s c) (x c)
    (z c)) : SameBuffers s x y z ↔ (∃ f ∈ s.fields, f.kind = .string) ∧ tableSize s ≤ 255 ∧
    tableSize s + Go.dynamicSize s x < 2 ^ 31 := by
  rw [Go.dynamicSize_eq hflat x]
  constructor
  · rintro ⟨hcompiles, buf, hgo, hpy, -, -⟩
    have hsize := tableSize_lt_of_marshalFlatBuffers hflat hgo
    refine ⟨(marshalFlatBuffersCompiles_iff s).1 hcompiles, by omega, ?_⟩
    by_contra hlarge
    rw [Python.marshalFlatbuffers_large hpython (by omega)] at hpy
    cases hpy
  · rintro ⟨hstring, hsize, hsmall⟩
    exact ⟨(marshalFlatBuffersCompiles_iff s).2 hstring, flatBytes s x, Go.marshalFlatBuffers_eq hflat (by omega) x,
      Python.marshalFlatbuffers_eq hpython htable hsmall, Node.marshalFlatBuffers_eq hnode,
      Python.unmarshalFlatbuffers_flatBytes hpython htable hsmall⟩

def pythonAccount : Fin account.fields.length → Python.PyVal
  | ⟨0, _⟩ => .bool true
  | ⟨1, _⟩ => .int (-5)
  | ⟨2, _⟩ => .text "ok"
  | ⟨3, _⟩ => .int 7
  | ⟨4, _⟩ => .text ""

def nodeAccount : Node.JsStruct account
  | ⟨0, _⟩ => some true
  | ⟨1, _⟩ => some (⟨-5, by decide⟩ : Node.Number)
  | ⟨2, _⟩ => some "ok"
  | ⟨3, _⟩ => some (⟨7, by decide⟩ : Node.Number)
  | ⟨4, _⟩ => some ""

theorem sameBuffers_iff_account : SameBuffers account openAccount pythonAccount nodeAccount := by
  refine (sameBuffers_iff (s := account) (by decide) (by decide) ?_ ?_).2 (by decide)
  · rintro ⟨_ | _ | _ | _ | _ | n, hn⟩
    · exact .bool true
    · exact .int64 (-5)
    · exact .string ⟨[0x6f, 0x6b], by decide⟩ "ok" rfl
    · exact .int32 7
    · exact .string Slice.empty "" rfl
    · exact absurd hn (by simp [account])
  · rintro ⟨_ | _ | _ | _ | _ | n, hn⟩
    · exact .bool true
    · exact .int64 (-5) _ rfl
    · exact .string ⟨[0x6f, 0x6b], by decide⟩ "ok" rfl
    · exact .int32 7 _ rfl
    · exact .string Slice.empty "" rfl
    · exact absurd hn (by simp [account])

def goPosition : GoStruct position
  | ⟨0, _⟩ => (1 : BitVec 32)
  | ⟨1, _⟩ => (-2 : BitVec 32)

def pythonPosition : Fin position.fields.length → Python.PyVal
  | ⟨0, _⟩ => .int 1
  | ⟨1, _⟩ => .int (-2)

def nodePosition : Node.JsStruct position
  | ⟨0, _⟩ => some (⟨1, by decide⟩ : Node.Number)
  | ⟨1, _⟩ => some (⟨-2, by decide⟩ : Node.Number)

def positionBytes : Bytes := [4, 0, 0, 0, 12, 0, 0, 0, 1, 0, 0, 0, 0xfe, 0xff, 0xff, 0xff, 8, 0, 12, 0, 4, 0, 8, 0]

theorem position_only_encoded_elsewhere : Python.marshalFlatbuffers position pythonPosition = .ok positionBytes ∧
    Node.marshalFlatBuffers position nodePosition = .ok positionBytes ∧ Go.marshalFlatBuffersCompiles position = false ∧
    ¬ SameBuffers position goPosition pythonPosition nodePosition := by
  refine ⟨by decide, by decide, by decide, ?_⟩
  intro h
  exact absurd h.compiles (by decide)

end HelixRpc.Codegen.FlatBuffers
