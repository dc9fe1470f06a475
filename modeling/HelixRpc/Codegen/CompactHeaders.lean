import HelixRpc.Codegen.Go.Transpile

/-!
# Field headers of the generated transpilers

All six generators write a transpiler from protobuf to Thrift Compact, and all of them write field
headers in one way.
-/

namespace HelixRpc.Codegen

open Foundation Outcome Option BitVec

def compactHeader (delta : Int) (code : Nat) (long : Bytes) : Bytes :=
  if 0 < delta ∧ delta ≤ 15 then [UInt8.ofNat (delta.toNat <<< 4 ||| code)]
  else UInt8.ofNat code :: long

/-- An integer in two bytes, high byte first. -/
def i16Bytes {w : Nat} (v : BitVec w) : Bytes := [UInt8.ofNat (v.sshiftRight 8).toNat, UInt8.ofNat v.toNat]

namespace Rust

def writeThriftI16 (v : BitVec 16) : Bytes := i16Bytes v

def fieldHeader (code : Nat) (fieldNum lastField : BitVec 16) : Bytes :=
  compactHeader (fieldNum - lastField).toInt code (writeThriftI16 fieldNum)

end Rust

namespace Java

def writeThriftI16 (v : BitVec 32) : Bytes := i16Bytes v

def fieldHeader (code : Nat) (fieldNum lastField : BitVec 32) : Bytes :=
  compactHeader (fieldNum - lastField).toInt code (writeThriftI16 fieldNum)

end Java

namespace Cpp

def writeThriftI16 (v : BitVec 16) : Bytes := i16Bytes (v.setWidth 32)

def fieldHeader (code : Nat) (fieldNum lastField : BitVec 32) : Bytes :=
  compactHeader (fieldNum - lastField).toInt code (writeThriftI16 (fieldNum.setWidth 16))

end Cpp

namespace Node

def writeThriftI16 (v : Int) : Bytes := i16Bytes (BitVec.ofInt 32 v)

def fieldHeader (code : Nat) (fieldID lastField : Int) : Bytes :=
  compactHeader (fieldID - lastField) code (writeThriftI16 fieldID)

end Node

namespace Python

def writeThriftI16 (v : Nat) : Bytes := [UInt8.ofNat (v >>> 8), UInt8.ofNat v]

def fieldHeader (code : Nat) (thriftFieldNum prevField : Nat) : Bytes :=
  compactHeader ((thriftFieldNum : Int) - prevField) code (writeThriftI16 thriftFieldNum)

end Python

inductive Language where
  | go
  | rust
  | java
  | cpp
  | node
  | python
  deriving DecidableEq, Repr

/-- The header that the transpiler of a language writes for a field, for its number and the last one; none if the
generated code does not compile. -/
def Language.fieldHeader (lang : Language) (code num last : Nat) : Option Bytes :=
  match lang with
  | .go =>
    match Go.fieldHeader code (BitVec.ofNat 32 num) (BitVec.ofNat 16 last) with
    | .ok header => some header
    | _ => none
  | .rust => some (Rust.fieldHeader code (BitVec.ofNat 16 num) (BitVec.ofNat 16 last))
  | .java => some (Java.fieldHeader code (BitVec.ofNat 32 num) (BitVec.ofNat 32 last))
  | .cpp => some (Cpp.fieldHeader code (BitVec.ofNat 32 num) (BitVec.ofNat 32 last))
  | .node => some (Node.fieldHeader code num last)
  | .python => some (Python.fieldHeader code num last)

inductive HeaderForm (code num : Nat) : Bytes → Prop where
  | short (d : Nat) (hpos : 1 ≤ d) (hle : d ≤ 15) : HeaderForm code num [UInt8.ofNat (16 * d + code)]
  | long : HeaderForm code num [UInt8.ofNat code, UInt8.ofNat (num / 256), UInt8.ofNat num]

variable {code num last : Nat}

theorem compactHeader_form (hcode : code < 16) (delta : Int) {long : Bytes}
    (hlong : long = [UInt8.ofNat (num / 256), UInt8.ofNat num]) :
    HeaderForm code num (compactHeader delta code long) := by
  unfold compactHeader
  split
  · rename_i hdelta
    rw [shift_or_code _ hcode]
    exact .short delta.toNat (by omega) (by omega)
  · rw [hlong]
    exact .long

theorem i16Bytes_eq {w num : Nat} {v : BitVec w} (hv : v.toNat = num) (hmsb : 2 * num < 2 ^ w) :
    i16Bytes v = [UInt8.ofNat (num / 256), UInt8.ofNat num] := by
  have hneg : v.msb = false := msb_eq_false_iff_two_mul_lt.2 (by omega)
  rw [i16Bytes, sshiftRight_eq_of_msb_false hneg, toNat_ushiftRight, Nat.shiftRight_eq_div_pow, hv]

theorem byteLiteral_eq_ok {n : Nat} {b : UInt8} (h : Go.byteLiteral n = .ok b) : b = UInt8.ofNat n := by
  unfold Go.byteLiteral at h
  split at h
  · exact (ok.inj h).symm
  · cases h

theorem toNat_bounds {delta : BitVec 16} (h : 0 < delta.toInt ∧ delta.toInt ≤ 15) :
    1 ≤ delta.toNat ∧ delta.toNat ≤ 15 := by
  have hlt := delta.isLt
  have hint := toInt_eq_toNat_cond delta
  split at hint
  all_goals omega

theorem goHeader_form (hcode : code < 16) (hnum : num < 2 ^ 15) {header : Bytes}
    (h : Go.fieldHeader code (BitVec.ofNat 32 num) (BitVec.ofNat 16 last) = .ok header) :
    HeaderForm code num header := by
  have hid : (BitVec.ofNat 32 num).toNat = num := by
    rw [toNat_ofNat]
    omega
  have hint : (BitVec.ofNat 32 num).toInt = num := by rw [toInt_eq_toNat_of_lt (by omega), hid]
  have hhigh := Go.toInt_high (BitVec.ofNat 32 num) (by omega)
  rw [hid] at hhigh
  unfold Go.fieldHeader at h
  obtain ⟨high, hhighByte, h⟩ := bind_eq_ok.1 h
  obtain ⟨low, hlowByte, h⟩ := bind_eq_ok.1 h
  rw [hhigh] at hhighByte
  rw [hint] at hlowByte
  dsimp only at h
  split at h
  · rename_i hdelta
    have hle := toNat_bounds hdelta
    rw [Go.toNat_short hle.2 hcode] at h
    cases h
    exact .short _ hle.1 hle.2
  · cases h
    rw [byteLiteral_eq_ok hhighByte, byteLiteral_eq_ok hlowByte]
    exact .long

theorem fieldHeader_form {lang : Language} (hcode : code < 16) (hnum : num < 2 ^ 15) {header : Bytes}
    (h : lang.fieldHeader code num last = some header) : HeaderForm code num header := by
  cases lang with
  | go =>
    simp only [Language.fieldHeader] at h
    split at h
    · rename_i header' hgo
      cases h
      exact goHeader_form hcode hnum hgo
    · cases h
  | rust =>
    cases h
    refine compactHeader_form hcode _ (i16Bytes_eq ?_ (by omega))
    rw [toNat_ofNat]
    omega
  | java =>
    cases h
    refine compactHeader_form hcode _ (i16Bytes_eq ?_ (by omega))
    rw [toNat_ofNat]
    omega
  | cpp =>
    cases h
    refine compactHeader_form hcode _ (i16Bytes_eq ?_ (by omega))
    rw [toNat_setWidth, toNat_setWidth, toNat_ofNat]
    omega
  | node =>
    cases h
    refine compactHeader_form hcode _ (i16Bytes_eq ?_ (by omega))
    rw [ofInt_natCast, toNat_ofNat]
    omega
  | python =>
    cases h
    refine compactHeader_form hcode _ ?_
    rw [Python.writeThriftI16, Nat.shiftRight_eq_div_pow]

/-- The header of a field is read as it should be: a reader that has read the field `prev` before gets
the type and the id, and stops in front of the value. -/
def HeaderRead (lang : Language) (type : CompactType) (num last : Nat) (prev id : BitVec 16) (value : Bytes) : Prop :=
  ∃ header, lang.fieldHeader type.code num last = some header ∧
    readFieldHeader prev (header ++ value) = some (.field type id, value)

/-- No long header is read as it should be. -/
theorem long_header_unreadable (lang : Language) (type : CompactType) {num last : Nat} (hnum : num < 2 ^ 15)
    {prev id : BitVec 16} (hprev : prev.toNat < 2 ^ 15) (hgap : id.toNat ≤ prev.toNat ∨ prev.toNat + 15 < id.toNat)
    (value : Bytes) : ¬ HeaderRead lang type num last prev id value := by
  have hcode := type.code_bounds
  rintro ⟨header, hheader, hread⟩
  cases fieldHeader_form (by omega) hnum hheader with
  | short d hpos hle =>
    -- the reader adds a difference up to 15, and the id is not that close
    rw [List.singleton_append, readFieldHeader_short prev type hpos hle] at hread
    have hid : prev + BitVec.ofNat 16 d = id := by simpa using hread
    have hnat : (prev + BitVec.ofNat 16 d).toNat = prev.toNat + d := by
      rw [toNat_add, toNat_ofNat]
      omega
    rw [hid] at hnat
    omega
  | long =>
    -- the reader stops in front of the low byte
    have hhigh : (UInt8.ofNat (num / 256)).toNat < 128 := by
      rw [toNat_ofNat_of_lt (by omega)]
      omega
    have hbyte := readFieldHeader_byte prev type hhigh (UInt8.ofNat num :: value)
    obtain ⟨-, hrest⟩ := Prod.mk.inj (some.inj (hbyte.symm.trans hread))
    exact List.cons_ne_self _ _ hrest

example : HeaderRead .java .i64 2 1 1 2 [4, 0] := ⟨[0x16], rfl, rfl⟩

theorem long_header_unreadable_rust : ¬ HeaderRead .rust .i64 17 1 1 17 [4, 0] :=
  long_header_unreadable .rust .i64 (by decide) (by decide) (Or.inr (by decide)) [4, 0]

def wideStruct : Compiler.StructNode where
  name := "Wide"
  fields := [⟨"a", 1, ⟨.int64, "", none, none⟩, false⟩, ⟨"b", 17, ⟨.int64, "", none, none⟩, false⟩]

theorem wide_header_misread : Go.Transpiles wideStruct ⟨[0x08, 1, 0x88, 1, 2], by decide⟩ [] (List.replicate 7 0)
      (.ok ([0x16, 2, 0x06, 0, 17, 4, 0], 7)) ∧ readStruct [0x16, 2, 0x06, 0, 17, 4, 0] = none ∧
      readFieldHeader 1 [0x06, 0, 17, 4, 0] = some (.field .i64 0, [17, 4, 0]) ∧
      ∀ lang : Language, lang.fieldHeader 6 17 1 = some [0x06, 0, 17] ∧ ¬ HeaderRead lang .i64 17 1 1 17 [4, 0] := by
  refine ⟨⟨3, rfl⟩, by decide, by decide, ?_⟩
  intro lang
  have hheader : lang.fieldHeader 6 17 1 = some [0x06, 0, 17] := by
    cases lang with
    | _ => decide
  refine ⟨hheader, ?_⟩
  rintro ⟨header, h, hread⟩
  obtain rfl := some.inj (hheader.symm.trans h)
  exact absurd hread (by decide)

end HelixRpc.Codegen
