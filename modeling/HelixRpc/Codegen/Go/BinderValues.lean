import HelixRpc.Codegen.Go.Binder
import HelixRpc.Compiler.Numbers

/-!
# What the binder reads of a parameter

`fmt.Sscanf` with `%d` and `%t`, as the generated binder (`generateBinderString`) calls it.
-/

namespace HelixRpc.Codegen.Go

open Foundation Compiler Runtime.Go List

/-- White space of Unicode; a line break is an error to `Sscanf`. -/
def isSpace (ch : Char) : Bool :=
  (9 ≤ ch.toNat && ch.toNat ≤ 13 && ch != '\n') || (0x2000 ≤ ch.toNat && ch.toNat ≤ 0x200a) ||
    [0x20, 0x85, 0xa0, 0x1680, 0x2028, 0x2029, 0x202f, 0x205f, 0x3000].contains ch.toNat

def skipSpace (val : Text) : Text := val.dropWhile isSpace

def scanInt (bits : Nat) (val : Text) : Option Int :=
  let val := skipSpace val
  let unsigned := if val.head? = some '-' ∨ val.head? = some '+' then val.tail else val
  let digits := unsigned.takeWhile isDigit
  let i : Int := if val.head? = some '-' then -decimal digits else decimal digits
  if digits ≠ [] ∧ -2 ^ (bits - 1) ≤ i ∧ i < 2 ^ (bits - 1) then some i else none

def spelled (letters rest : Text) : Bool :=
  rest.head?.map Char.toLower ≠ letters.head? || (rest.take letters.length).map Char.toLower = letters

def scanBool (val : Text) : Option Bool :=
  match skipSpace val with
  | [] => none
  | ch :: rest =>
    if ch = '\n' then none
    else if ch = '1' then some true
    else if ch = 't' ∨ ch = 'T' then if spelled "rue".toList rest then some true else none
    else if ch = 'f' ∨ ch = 'F' then if spelled "alse".toList rest then some false else none
    else some false

def sscanf (string : Text → Slice) : Scanner where
  int32 val := (scanInt 32 val).map (BitVec.ofInt 32)
  int64 val := (scanInt 64 val).map (BitVec.ofInt 64)
  bool := scanBool
  string := string

def boolText (b : Bool) : Text := if b then "true".toList else "false".toList

def Denotes : (k : Kind) → Text → GoVal k → Prop
  | .int32, val, v => ∃ n : Number, val = n.val.toList ∧ BitVec.toInt v = n.value
  | .int64, val, v => ∃ n : Number, val = n.val.toList ∧ BitVec.toInt v = n.value
  | .bool, val, v => val = boolText v
  | _, _, _ => False

theorem ne_of_isDigit {ch other : Char} (h : isDigit ch = true) (hother : isDigit other = false) : ch ≠ other := by
  rintro rfl
  rw [h] at hother
  cases hother

theorem scanInt_digits (d : Digits) (bits : Nat) (h : (d.value : Int) < 2 ^ (bits - 1)) :
    scanInt bits d.val.toList = some d.value := by
  cases hval : d.val.toList with
  | nil => exact absurd hval d.nonempty
  | cons ch cs =>
    have hall : ∀ c ∈ ch :: cs, isDigit c = true := hval ▸ all_eq_true.1 d.isDigits
    have hch := hall ch mem_cons_self
    have hskip : skipSpace (ch :: cs) = ch :: cs := by
      have hrange : 48 ≤ ch.toNat ∧ ch.toNat ≤ 57 := by simpa [isDigit] using hch
      refine dropWhile_cons_of_neg ?_
      simp [isSpace]
      omega
    have hvalue : (decimal (ch :: cs) : Int) = d.value := by rw [Digits.value, hval]
    have hlow : -2 ^ (bits - 1) ≤ (d.value : Int) :=
      Int.le_trans (Int.neg_nonpos_of_nonneg (Int.le_of_lt (Int.pow_pos (by decide)))) (Int.natCast_nonneg _)
    unfold scanInt
    simp only [hskip, head?_cons, Option.some.injEq, ne_of_isDigit hch (by decide : isDigit '-' = false),
      ne_of_isDigit hch (by decide : isDigit '+' = false), or_self, if_false, takeWhile_eq_self_iff.2 hall, hvalue]
    exact if_pos ⟨cons_ne_nil _ _, hlow, h⟩

theorem scanInt_number (n : Number) (bits : Nat) (hlow : -2 ^ (bits - 1) ≤ n.value) (hhigh : n.value < 2 ^ (bits - 1)) :
    scanInt bits n.val.toList = some n.value := by
  unfold Number.value Number.val at *
  split
  · rename_i hneg
    rw [if_pos hneg] at hlow hhigh
    have htext : ("-" ++ n.digits.val).toList = '-' :: n.digits.val.toList := by
      rw [String.toList_append]
      rfl
    have hskip : skipSpace ('-' :: n.digits.val.toList) = '-' :: n.digits.val.toList := rfl
    unfold scanInt
    simp only [htext, hskip, head?_cons, if_true, true_or, tail_cons,
      takeWhile_eq_self_iff.2 (all_eq_true.1 n.digits.isDigits)]
    exact if_pos ⟨n.digits.nonempty, hlow, hhigh⟩
  · rename_i hneg
    rw [if_neg hneg] at hhigh
    exact scanInt_digits n.digits bits hhigh

theorem scanInt_toInt {w : Nat} (v : BitVec w) (n : Number) (h : v.toInt = n.value) :
    (scanInt w n.val.toList).map (BitVec.ofInt w) = some v := by
  have hlow := BitVec.le_toInt v
  have hhigh : v.toInt < 2 ^ (w - 1) := BitVec.toInt_lt
  rw [h] at hlow hhigh
  rw [scanInt_number n w hlow hhigh, Option.map_some, ← h, BitVec.ofInt_toInt]

theorem scan_of_denotes (string : Text → Slice) {k : Kind} {val : Text} {v : GoVal k} (h : Denotes k val v) :
    (sscanf string).scan k val = some v := by
  cases k with
  | int32 =>
    obtain ⟨n, rfl, hv⟩ := h
    exact scanInt_toInt (w := 32) v n hv
  | int64 =>
    obtain ⟨n, rfl, hv⟩ := h
    exact scanInt_toInt (w := 64) v n hv
  | bool =>
    cases v with
    | true =>
      obtain rfl : val = "true".toList := h
      rfl
    | false =>
      obtain rfl : val = "false".toList := h
      rfl
  | _ => cases h

/-- A parameter that represents a value of the type of its field is bound to it, any other is rejected. -/
structure BoundOrRejected {s : StructNode} (i : Fin s.fields.length) (val : Text) (r : Except Text (GoStruct s)) :
    Prop where
  bound : ∀ v, Denotes (kindAt s i) val v → ∃ q, r = .ok q ∧ q i = v
  rejected : (∀ v, ¬ Denotes (kindAt s i) val v) → ∃ err, r = .error err

/-- The binder never rejects, so a parameter is treated as it should be exactly if it is a complete
representation of a value. -/
theorem binder_exact_iff {s : StructNode} (string : Text → Slice) (p : GoStruct s) (params : Params)
    (i : Fin s.fields.length) (val : Text) (hparam : paramValue params (fieldName s i) = some val) :
    BoundOrRejected i val (binder (sscanf string) p params) ↔ ∃ v, Denotes (kindAt s i) val v := by
  constructor
  · intro h
    by_contra hnone
    obtain ⟨err, herr⟩ := h.rejected (not_exists.1 hnone)
    cases herr
  · rintro ⟨v₀, hv₀⟩
    refine ⟨fun v hv => ⟨_, rfl, ?_⟩, fun hnone => absurd hv₀ (hnone v₀)⟩
    rw [bindField, hparam]
    simp [scan_of_denotes string hv]

def accountStruct : StructNode := ⟨"Account", [⟨"id", 1, ⟨.int32, "", none, none⟩, false⟩], false⟩

def accountId : Fin accountStruct.fields.length := ⟨0, Nat.zero_lt_one⟩

def accountOf (id : BitVec 32) : GoStruct accountStruct := fun
  | ⟨0, _⟩ => id

theorem binder_exact_iff_minusTwelve : BoundOrRejected accountId "-12".toList
    (binder (sscanf fun _ => Slice.empty) (accountOf 7) [("id".toList, "-12".toList)]) :=
  (binder_exact_iff _ _ _ accountId _ rfl).2 ⟨(-12 : BitVec 32), minusTwelve, rfl, by decide⟩

theorem binder_binds_beginning :
    (∃ q, binder (sscanf fun _ => Slice.empty) (accountOf 7) [("id".toList, "12abc".toList)] = .ok q ∧
      q accountId = (12 : BitVec 32)) ∧
    ∃ q, binder (sscanf fun _ => Slice.empty) (accountOf 7) [("id".toList, "abc".toList)] = .ok q ∧
      q accountId = (7 : BitVec 32) :=
  ⟨⟨_, rfl, rfl⟩, ⟨_, rfl, rfl⟩⟩

end HelixRpc.Codegen.Go
