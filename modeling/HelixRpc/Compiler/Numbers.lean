import HelixRpc.Compiler.Words

/-!
# Numbers of fields and enum values

The literals that stand for a proto tag, a Thrift field id or an enum value.
-/

namespace HelixRpc.Compiler

open Foundation Outcome

def Number.value (n : Number) : Int := if n.negative then -n.digits.value else n.digits.value

def minusTwelve : Number := ⟨true, ⟨"12", by decide, by decide⟩⟩

end HelixRpc.Compiler
