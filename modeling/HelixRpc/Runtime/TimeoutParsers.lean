import HelixRpc.Foundation.Double
import HelixRpc.Foundation.Numeral
import HelixRpc.Foundation.SignedWord
import HelixRpc.Runtime.Go.Router
import Mathlib.Data.List.DropRight

/-!
# The parsers of grpc-timeout

Models of `parseGRPCTimeout` (`runtimes/go/deadline.go`), `parse_grpc_timeout` (`runtimes/rust/src/deadline.rs`),
`ParseGRPCTimeout` (`runtimes/cpp/include/helix/deadline.h`), `Deadline.parseGRPCTimeout` (Java) and of the parsing in
`deadline_middleware` (`runtimes/python/helix_rt/server.py`).
-/

namespace HelixRpc.Runtime

open Foundation Foundation.Numeral Runtime.Go List

inductive TimeUnit where
  | nanosecond
  | microsecond
  | millisecond
  | second
  | minute
  | hour
  deriving DecidableEq

namespace TimeUnit

def letter : TimeUnit → Char
  | nanosecond => 'n'
  | microsecond => 'u'
  | millisecond => 'm'
  | second => 'S'
  | minute => 'M'
  | hour => 'H'

def ofChar (ch : Char) : Option TimeUnit :=
  if ch = 'n' then some nanosecond
  else if ch = 'u' then some microsecond
  else if ch = 'm' then some millisecond
  else if ch = 'S' then some second
  else if ch = 'M' then some minute
  else if ch = 'H' then some hour
  else none

def nanos : TimeUnit → Nat
  | nanosecond => 1
  | microsecond => 10 ^ 3
  | millisecond => 10 ^ 6
  | second => 10 ^ 9
  | minute => 60 * 10 ^ 9
  | hour => 3600 * 10 ^ 9

def factor : TimeUnit → Nat
  | minute => 60
  | hour => 3600
  | _ => 1

@[simp] theorem ofChar_letter (unit : TimeUnit) : ofChar unit.letter = some unit := by
  cases unit <;> decide

theorem ofChar_eq_some_iff {ch : Char} {unit : TimeUnit} : ofChar ch = some unit ↔ ch = unit.letter := by
  constructor
  · intro h
    unfold ofChar at h
    split_ifs at h with h₁ h₂ h₃ h₄ h₅ h₆ <;> cases h <;> assumption
  · rintro rfl
    exact ofChar_letter unit

theorem letter_ascii (unit : TimeUnit) : unit.letter.toNat < 128 := by
  cases unit <;> decide

theorem asciiDigit_letter (unit : TimeUnit) : asciiDigit unit.letter = none := by
  cases unit <;> decide

end TimeUnit

inductive TimeoutResult (δ : Type) where
  | accepted (duration : δ)
  | rejected
  | failed
  deriving DecidableEq

namespace Go

def parseInt (text : Text) : Option Int64 :=
  match signed asciiDigit ['+', '-'] text with
  | none => none
  | some (sign, n) =>
    if sign = ['-'] then if n ≤ 2 ^ 63 then some (Int64.ofInt (-n)) else none
    else if n < 2 ^ 63 then some (Int64.ofNat n) else none

/-- `parseGRPCTimeout`, in nanoseconds. -/
def parseGRPCTimeout (val : Text) : TimeoutResult Int64 :=
  if val.length < 2 then .rejected
  else
    match val.getLast? with
    | none => .rejected
    | some unit =>
      match parseInt val.dropLast with
      | none => .rejected
      | some num =>
        match TimeUnit.ofChar unit with
        | none => .rejected
        | some unit => .accepted (num * Int64.ofNat unit.nanos)

end Go

namespace Rust

def parseU64 (text : Text) : Option Nat :=
  match signed asciiDigit ['+'] text with
  | none => none
  | some (_, n) => if n < 2 ^ 64 then some n else none

def fromSecs (checks : Bool) (num factor : Nat) : TimeoutResult Nat :=
  if num * factor < 2 ^ 64 then .accepted (num * factor * 10 ^ 9)
  else if checks then .failed
  else .accepted (num * factor % 2 ^ 64 * 10 ^ 9)

def duration (checks : Bool) (num : Nat) : TimeUnit → TimeoutResult Nat
  | .nanosecond => .accepted num
  | .microsecond => .accepted (num * 10 ^ 3)
  | .millisecond => .accepted (num * 10 ^ 6)
  | .second => .accepted (num * 10 ^ 9)
  | .minute => fromSecs checks num 60
  | .hour => fromSecs checks num 3600

def parseGrpcTimeout (checks : Bool) (val : Text) : TimeoutResult Nat :=
  match val.getLast? with
  | none => .rejected
  | some unit =>
    if 128 ≤ unit.toNat then .failed
    else
      match parseU64 val.dropLast with
      | none => .rejected
      | some num =>
        match TimeUnit.ofChar unit with
        | none => .rejected
        | some unit => duration checks num unit

end Rust

namespace Cpp

def microseconds (value : Int64) : TimeUnit → Int64
  | .nanosecond => value / 1000
  | .microsecond => value
  | .millisecond => value * 1000
  | .second => value * 1000000
  | .minute => value * 60000000
  | .hour => value * 3600000000

def parseGRPCTimeout (timeoutStr : Text) : TimeoutResult Int64 :=
  match splitNumber asciiDigit timeoutStr with
  | none => .rejected
  | some (value, unit, _) =>
    if value < 2 ^ 63 then
      match TimeUnit.ofChar unit with
      | none => .rejected
      | some unit => .accepted (microseconds (Int64.ofNat value) unit)
    else .rejected

end Cpp

structure Unicode where
  decimal : Char → Option Nat
  isSpace : Char → Bool
  decimal_ascii : ∀ ch, ch.toNat < 128 → decimal ch = asciiDigit ch
  isSpace_ascii : ∀ ch, 33 ≤ ch.toNat → ch.toNat < 127 → isSpace ch = false

theorem Unicode.decimal_of_asciiDigit (u : Unicode) {ch : Char} {d : Nat} (h : asciiDigit ch = some d) :
    u.decimal ch = some d := by rw [u.decimal_ascii ch (by have := asciiDigit_eq_some h; omega), h]

namespace Java

def charDigit (u : Unicode) (ch : Char) : Option Nat :=
  if ch.toNat < 2 ^ 16 then u.decimal ch else none

def ofSeconds (value factor : Nat) : TimeoutResult Int :=
  if value * factor < 2 ^ 63 then .accepted (value * factor * 10 ^ 9) else .rejected

def duration (value : Nat) : TimeUnit → TimeoutResult Int
  | .nanosecond => .accepted value
  | .microsecond => .accepted (Int64.ofNat value * 1000).toInt
  | .millisecond => .accepted (value * 10 ^ 6)
  | .second => .accepted (value * 10 ^ 9)
  | .minute => ofSeconds value 60
  | .hour => ofSeconds value 3600

/-- `Deadline.parseGRPCTimeout`, in nanoseconds; `Long.parseLong` throws where the number is no `long`. -/
def parseGRPCTimeout (u : Unicode) (timeoutStr : Text) : TimeoutResult Int :=
  match splitNumber (charDigit u) timeoutStr with
  | none => .rejected
  | some (value, unit, _) =>
    if value < 2 ^ 63 then
      match TimeUnit.ofChar unit with
      | none => .rejected
      | some unit => duration value unit
    else .rejected

theorem charDigit_letter (u : Unicode) (unit : TimeUnit) : charDigit u unit.letter = none := by
  have h := unit.letter_ascii
  rw [charDigit, if_pos (by omega), u.decimal_ascii _ h, unit.asciiDigit_letter]

end Java

namespace Python

def readDigits (u : Unicode) : Bool → Text → Option (List Nat)
  | after, [] => if after then some [] else none
  | after, ch :: text =>
    match u.decimal ch with
    | some d => (readDigits u true text).map (d :: ·)
    | none => if after = true ∧ ch = '_' then readDigits u false text else none

def splitSign : Text → Bool × Text
  | '+' :: text => (false, text)
  | '-' :: text => (true, text)
  | text => (false, text)

/-- `int` of a text, with the limit on the number of digits that is set; `none` is a `ValueError`. -/
def int (u : Unicode) (limit : Option Nat) (text : Text) : Option Int :=
  let (negative, body) := splitSign ((text.dropWhile u.isSpace).rdropWhile u.isSpace)
  match readDigits u false body with
  | none => none
  | some digits =>
    if limit.any (· < digits.length) then none
    else some (if negative then -(value digits : Int) else value digits)

def unitSeconds (unit : Char) : ℚ :=
  match TimeUnit.ofChar unit with
  | some .nanosecond => Double.round (1 / 10 ^ 9)
  | some .microsecond => Double.round (1 / 10 ^ 6)
  | some .millisecond => Double.round (1 / 10 ^ 3)
  | some .second => 1
  | some .minute => 60
  | some .hour => 3600
  | none => Double.round (1 / 10 ^ 3)

def timeoutSecs (u : Unicode) (limit : Option Nat) (timeoutHeader : Text) : TimeoutResult ℚ :=
  match timeoutHeader.getLast? with
  | none => .rejected
  | some unit =>
    match int u limit timeoutHeader.dropLast with
    | none => .rejected
    | some val =>
      if Double.round |(val : ℚ)| < 2 ^ 1024 then
        .accepted (Double.round (Double.round val * unitSeconds unit))
      else .failed

end Python

section
variable {digits : Text} {n : Nat} (unit : TimeUnit)

theorem signed_of_numeral {signs : Text} (hsigns : ∀ ch ∈ signs, asciiDigit ch = none)
    (hn : numeral asciiDigit digits = some n) : signed asciiDigit signs digits = some ([], n) :=
  (signed_eq_some_iff hsigns).2 ⟨.inl rfl, digits, rfl, hn⟩

theorem asciiDigit_sign : ∀ ch ∈ ['+', '-'], asciiDigit ch = none := by
  simp only [forall_mem_cons, not_mem_nil, false_implies, implies_true, and_true]
  exact ⟨rfl, rfl⟩

theorem asciiDigit_plus : ∀ ch ∈ ['+'], asciiDigit ch = none := fun ch h =>
  asciiDigit_sign ch (mem_of_mem_head? (by rw [mem_singleton.1 h]; rfl))

theorem Go.parseGRPCTimeout_numeral (hn : numeral asciiDigit digits = some n) :
    Go.parseGRPCTimeout (digits ++ [unit.letter]) =
      if n < 2 ^ 63 then .accepted (Int64.ofNat n * Int64.ofNat unit.nanos) else .rejected := by
  have hint : Go.parseInt digits = if n < 2 ^ 63 then some (Int64.ofNat n) else none := by
    rw [Go.parseInt, signed_of_numeral asciiDigit_sign hn]
    rfl
  obtain ⟨a, d, rest, rfl, -⟩ := exists_cons_of_numeral hn
  have hlength : ¬ ((a :: rest) ++ [unit.letter]).length < 2 := by simp
  rw [Go.parseGRPCTimeout, if_neg hlength, getLast?_concat, dropLast_concat, hint]
  by_cases hfits : n < 2 ^ 63
  · simp only [if_pos hfits, TimeUnit.ofChar_letter]
  · simp only [if_neg hfits]

theorem Rust.parseGrpcTimeout_numeral (checks : Bool) (hn : numeral asciiDigit digits = some n) :
    Rust.parseGrpcTimeout checks (digits ++ [unit.letter]) =
      if n < 2 ^ 64 then Rust.duration checks n unit else .rejected := by
  have hascii := unit.letter_ascii
  rw [Rust.parseGrpcTimeout, getLast?_concat, dropLast_concat, Rust.parseU64, signed_of_numeral asciiDigit_plus hn]
  by_cases hfits : n < 2 ^ 64
  · simp only [if_pos hfits, if_neg (show ¬ 128 ≤ unit.letter.toNat by omega), TimeUnit.ofChar_letter]
  · simp only [if_neg hfits, if_neg (show ¬ 128 ≤ unit.letter.toNat by omega)]

theorem Cpp.parseGRPCTimeout_numeral (hn : numeral asciiDigit digits = some n) :
    Cpp.parseGRPCTimeout (digits ++ [unit.letter]) =
      if n < 2 ^ 63 then .accepted (Cpp.microseconds (Int64.ofNat n) unit) else .rejected := by
  have hsplit : splitNumber asciiDigit (digits ++ [unit.letter]) = some (n, unit.letter, []) :=
    splitNumber_eq_some_iff.2 ⟨unit.asciiDigit_letter, digits, rfl, hn⟩
  rw [Cpp.parseGRPCTimeout, hsplit]
  simp

theorem numeral_of_ascii {digit : Char → Option Nat} (hdigit : ∀ ch d, asciiDigit ch = some d → digit ch = some d)
    (hn : numeral asciiDigit digits = some n) : numeral digit digits = some n := by
  obtain ⟨ds, hne, hspells, rfl⟩ := numeral_eq_some_iff.1 hn
  exact numeral_eq_some_iff.2 ⟨ds, hne, hspells.imp fun ch d => hdigit ch d, rfl⟩

variable (u : Unicode)

theorem Java.parseGRPCTimeout_numeral (hn : numeral asciiDigit digits = some n) :
    Java.parseGRPCTimeout u (digits ++ [unit.letter]) = if n < 2 ^ 63 then Java.duration n unit else .rejected := by
  have hn' : numeral (Java.charDigit u) digits = some n := by
    refine numeral_of_ascii (fun ch d h => ?_) hn
    have hrange := asciiDigit_eq_some h
    rw [Java.charDigit, if_pos (by omega), u.decimal_of_asciiDigit h]
  have hsplit : splitNumber (Java.charDigit u) (digits ++ [unit.letter]) = some (n, unit.letter, []) :=
    splitNumber_eq_some_iff.2 ⟨Java.charDigit_letter u unit, digits, rfl, hn'⟩
  rw [Java.parseGRPCTimeout, hsplit]
  simp

theorem Python.readDigits_spells (after : Bool) {ds : List Nat} (hne : ds ≠ [])
    (h : Spells u.decimal digits ds) : Python.readDigits u after digits = some ds := by
  induction h generalizing after with
  | nil => exact absurd rfl hne
  | @cons ch d rest ds hch hrest ih =>
    cases hrest with
    | nil => simp [Python.readDigits, hch]
    | cons hnext hrest =>
      have hread := ih true (cons_ne_nil _ _)
      rw [Python.readDigits, hch, hread]
      rfl

theorem Python.strip_numeral (hn : numeral asciiDigit digits = some n) :
    (digits.dropWhile u.isSpace).rdropWhile u.isSpace = digits := by
  obtain ⟨ds, -, hspells, -⟩ := numeral_eq_some_iff.1 hn
  have hspace : ∀ ch ∈ digits, ¬ u.isSpace ch = true := by
    intro ch hmem
    obtain ⟨d, hd⟩ := exists_digit_of_mem hspells hmem
    have hrange := asciiDigit_eq_some hd
    rw [u.isSpace_ascii ch (by omega) (by omega)]
    exact Bool.false_ne_true
  rw [dropWhile_eq_self_iff.2 fun hl => hspace _ (getElem_mem hl),
    rdropWhile_eq_self_iff.2 fun hl => hspace _ (getLast_mem hl)]

theorem Python.splitSign_numeral (hn : numeral asciiDigit digits = some n) :
    Python.splitSign digits = (false, digits) := by
  obtain ⟨ch, d, rest, rfl, hch⟩ := exists_cons_of_numeral hn
  unfold Python.splitSign
  split
  · rename_i heq
    cases heq
    cases hch
  · rename_i heq
    cases heq
    cases hch
  · rfl

theorem Python.int_numeral (limit : Option Nat) (hn : numeral asciiDigit digits = some n) :
    Python.int u limit digits = if limit.any (· < digits.length) then none else some (n : Int) := by
  obtain ⟨ds, hne, hspells, rfl⟩ := numeral_eq_some_iff.1 hn
  have hdigits : Spells u.decimal digits ds := hspells.imp fun _ _ => u.decimal_of_asciiDigit
  rw [Python.int, Python.strip_numeral u hn, Python.splitSign_numeral hn]
  simp [Python.readDigits_spells u false hne hdigits, hspells.length_eq]

theorem Python.fits_of_lt (hn : n < 2 ^ 63) : Double.round |((n : Int) : ℚ)| < 2 ^ 1024 := by
  have hbound : (n : ℚ) < 2 ^ 63 := by exact_mod_cast hn
  rw [Int.cast_natCast, Nat.abs_cast]
  calc Double.round n ≤ 2 * n := Double.round_natCast_le n
    _ ≤ 2 ^ 64 := by linarith
    _ < 2 ^ 1024 := pow_lt_pow_right₀ one_lt_two (by omega)

theorem Python.timeoutSecs_numeral (limit : Option Nat) (hn : numeral asciiDigit digits = some n) :
    Python.timeoutSecs u limit (digits ++ [unit.letter]) = if limit.any (· < digits.length) then .rejected
      else if Double.round |((n : Int) : ℚ)| < 2 ^ 1024 then
        .accepted (Double.round (Double.round n * Python.unitSeconds unit.letter))
      else .failed := by
  rw [Python.timeoutSecs, getLast?_concat, dropLast_concat, Python.int_numeral u limit hn]
  by_cases hlimit : limit.any (· < digits.length) = true
  · simp only [if_pos hlimit]
  · simp [if_neg hlimit]
end

def EndsInUnit (Form : Text → Prop) (header : Text) : Prop :=
  ∃ text unit, header = text ++ [TimeUnit.letter unit] ∧ Form text

def BeginsWithUnit (digit : Char → Option Nat) (InRange : Nat → TimeUnit → Prop) (header : Text) : Prop :=
  ∃ digits unit n rest, header = digits ++ TimeUnit.letter unit :: rest ∧ numeral digit digits = some n ∧ InRange n unit

def SignedNumber (signs : Text) (InRange : Text → Nat → Prop) (text : Text) : Prop :=
  ∃ sign digits n, text = sign ++ digits ∧ (sign = [] ∨ ∃ ch ∈ signs, sign = [ch]) ∧
    numeral asciiDigit digits = some n ∧ InRange sign n

def Go.IsInt : Text → Prop := SignedNumber ['+', '-'] fun sign n => if sign = ['-'] then n ≤ 2 ^ 63 else n < 2 ^ 63

def Rust.IsU64 : Text → Prop := SignedNumber ['+'] fun _ n => n < 2 ^ 64

def Python.Form (u : Unicode) (limit : Option Nat) (header : Text) : Prop :=
  ∃ text last, header = text ++ [last] ∧ Python.int u limit text ≠ none

theorem not_endsInUnit_nil {Form : Text → Prop} : ¬ EndsInUnit Form [] := by
  rintro ⟨text, unit, heq, -⟩
  exact append_ne_nil_of_right_ne_nil text (cons_ne_nil _ _) heq.symm

variable {header text : Text}

theorem endsInUnit_concat {Form : Text → Prop} {ch : Char} :
    EndsInUnit Form (text ++ [ch]) ↔ TimeUnit.ofChar ch ≠ none ∧ Form text := by
  constructor
  · rintro ⟨text', unit, heq, hform⟩
    obtain ⟨rfl, hch⟩ := append_inj' heq rfl
    cases hch
    rw [TimeUnit.ofChar_letter]
    exact ⟨nofun, hform⟩
  · rintro ⟨hch, hform⟩
    obtain ⟨unit, hunit⟩ := Option.ne_none_iff_exists'.1 hch
    rw [TimeUnit.ofChar_eq_some_iff.1 hunit]
    exact ⟨text, unit, rfl, hform⟩

section
variable {digit : Char → Option Nat} {InRange : Nat → TimeUnit → Prop} {header : Text}

theorem not_beginsWithUnit (hdigit : ∀ unit, digit (TimeUnit.letter unit) = none)
    (hsplit : splitNumber digit header = none) : ¬ BeginsWithUnit digit InRange header := by
  rintro ⟨digits, unit, n, rest, rfl, hn, -⟩
  rw [splitNumber_eq_some_iff.2 ⟨hdigit unit, digits, rfl, hn⟩] at hsplit
  cases hsplit

theorem beginsWithUnit_iff (hdigit : ∀ unit, digit (TimeUnit.letter unit) = none) {n : Nat} {ch : Char}
    {rest : Text} (hsplit : splitNumber digit header = some (n, ch, rest)) :
    BeginsWithUnit digit InRange header ↔ ∃ unit, TimeUnit.ofChar ch = some unit ∧ InRange n unit := by
  constructor
  · rintro ⟨digits, unit, m, rest', rfl, hm, hrange⟩
    rw [splitNumber_eq_some_iff.2 ⟨hdigit unit, digits, rfl, hm⟩] at hsplit
    cases hsplit
    exact ⟨unit, TimeUnit.ofChar_letter unit, hrange⟩
  · rintro ⟨unit, hunit, hrange⟩
    obtain ⟨-, digits, rfl, hn⟩ := splitNumber_eq_some_iff.1 hsplit
    rw [TimeUnit.ofChar_eq_some_iff] at hunit
    subst hunit
    exact ⟨digits, unit, n, rest, rfl, hn, hrange⟩
end

theorem signedNumber_iff {signs : Text} (hsigns : ∀ ch ∈ signs, asciiDigit ch = none) {InRange : Text → Nat → Prop} :
    SignedNumber signs InRange text ↔ ∃ sign n, signed asciiDigit signs text = some (sign, n) ∧ InRange sign n := by
  constructor
  · rintro ⟨sign, digits, n, rfl, hsign, hn, hrange⟩
    exact ⟨sign, n, (signed_eq_some_iff hsigns).2 ⟨hsign, digits, rfl, hn⟩, hrange⟩
  · rintro ⟨sign, n, hsigned, hrange⟩
    obtain ⟨hsign, digits, rfl, hn⟩ := (signed_eq_some_iff hsigns).1 hsigned
    exact ⟨sign, digits, n, rfl, hsign, hn, hrange⟩

theorem Go.parseInt_ne_none_iff : Go.parseInt text ≠ none ↔ Go.IsInt text := by
  rw [Go.IsInt, signedNumber_iff asciiDigit_sign, Go.parseInt]
  cases signed asciiDigit ['+', '-'] text with
  | none => simp
  | some found =>
    obtain ⟨sign, n⟩ := found
    by_cases hsign : sign = ['-'] <;> simp [hsign]

theorem Rust.parseU64_ne_none_iff : Rust.parseU64 text ≠ none ↔ Rust.IsU64 text := by
  rw [Rust.IsU64, signedNumber_iff asciiDigit_plus, Rust.parseU64]
  cases signed asciiDigit ['+'] text with
  | none => simp
  | some found =>
    obtain ⟨sign, n⟩ := found
    simp

theorem Go.rejected_iff : Go.parseGRPCTimeout header = .rejected ↔ ¬ EndsInUnit Go.IsInt header := by
  rcases eq_nil_or_concat' header with rfl | ⟨text, ch, rfl⟩
  · exact iff_of_true rfl not_endsInUnit_nil
  · rw [endsInUnit_concat, ← Go.parseInt_ne_none_iff, Go.parseGRPCTimeout, getLast?_concat, dropLast_concat]
    cases text with
    | nil =>
      -- a unit alone is too short, and there is no number before it
      exact iff_of_true rfl fun h => h.2 rfl
    | cons first text =>
      rw [if_neg (by simp)]
      cases Go.parseInt (first :: text) with
      | none => simp
      | some num =>
        cases hunit : TimeUnit.ofChar ch <;> simp [hunit]

theorem Rust.duration_ne_rejected (checks : Bool) (num : Nat) (unit : TimeUnit) :
    Rust.duration checks num unit ≠ .rejected := by
  have hsecs : ∀ factor, Rust.fromSecs checks num factor ≠ .rejected := by
    intro factor
    rw [Rust.fromSecs]
    split_ifs <;> nofun
  cases unit with
  | minute => exact hsecs 60
  | hour => exact hsecs 3600
  | _ => nofun

theorem Rust.rejected_iff {checks : Bool} : Rust.parseGrpcTimeout checks header = .rejected ↔
      (∀ ch ∈ header.getLast?, ch.toNat < 128) ∧ ¬ EndsInUnit Rust.IsU64 header := by
  rcases eq_nil_or_concat' header with rfl | ⟨text, ch, rfl⟩
  · exact iff_of_true rfl ⟨nofun, not_endsInUnit_nil⟩
  · rw [endsInUnit_concat, ← Rust.parseU64_ne_none_iff, Rust.parseGrpcTimeout, getLast?_concat, dropLast_concat]
    by_cases hascii : 128 ≤ ch.toNat
    · have hlast : ¬ ∀ last ∈ some ch, last.toNat < 128 := fun h => by
        have := h ch rfl
        omega
      simp only [if_pos hascii]
      exact iff_of_false nofun fun h => hlast h.1
    · have hlast : ∀ last ∈ some ch, last.toNat < 128 := by
        rintro last hmem
        cases hmem
        omega
      rw [and_iff_right hlast]
      simp only [if_neg hascii]
      cases Rust.parseU64 text with
      | none => simp
      | some num =>
        cases TimeUnit.ofChar ch with
        | none => simp
        | some unit => simp [Rust.duration_ne_rejected]

theorem Cpp.rejected_iff : Cpp.parseGRPCTimeout header = .rejected ↔
      ¬ BeginsWithUnit asciiDigit (fun n _ => n < 2 ^ 63) header := by
  cases hsplit : splitNumber asciiDigit header with
  | none =>
    refine iff_of_true ?_ (not_beginsWithUnit TimeUnit.asciiDigit_letter hsplit)
    rw [Cpp.parseGRPCTimeout, hsplit]
  | some found =>
    obtain ⟨n, ch, rest⟩ := found
    rw [beginsWithUnit_iff TimeUnit.asciiDigit_letter hsplit, Cpp.parseGRPCTimeout, hsplit]
    by_cases hfits : n < 2 ^ 63
    · simp only [if_pos hfits]
      cases TimeUnit.ofChar ch with
      | none => exact iff_of_true rfl nofun
      | some unit => exact iff_of_false nofun fun h => h ⟨unit, rfl, hfits⟩
    · exact iff_of_true (if_neg hfits) fun ⟨_, _, h⟩ => hfits h

theorem Java.duration_eq_rejected_iff {n : Nat} (hfits : n < 2 ^ 63) {unit : TimeUnit} :
    Java.duration n unit = .rejected ↔ ¬ n * unit.factor < 2 ^ 63 := by
  have hsecs : ∀ factor, Java.ofSeconds n factor = .rejected ↔ ¬ n * factor < 2 ^ 63 := by
    intro factor
    rw [Java.ofSeconds]
    split_ifs with h
    · exact iff_of_false nofun (not_not_intro h)
    · exact iff_of_true rfl h
  cases unit with
  | minute => exact hsecs 60
  | hour => exact hsecs 3600
  | _ => exact iff_of_false nofun fun h => h (by simpa only [TimeUnit.factor, Nat.mul_one] using hfits)

theorem TimeUnit.le_mul_factor (n : Nat) (unit : TimeUnit) : n ≤ n * unit.factor :=
  Nat.le_mul_of_pos_right n (by cases unit <;> decide)

theorem Java.rejected_iff {u : Unicode} : Java.parseGRPCTimeout u header = .rejected ↔
      ¬ BeginsWithUnit (Java.charDigit u) (fun n unit => n * unit.factor < 2 ^ 63) header := by
  cases hsplit : splitNumber (Java.charDigit u) header with
  | none =>
    refine iff_of_true ?_ (not_beginsWithUnit (Java.charDigit_letter u) hsplit)
    rw [Java.parseGRPCTimeout, hsplit]
  | some found =>
    obtain ⟨n, ch, rest⟩ := found
    rw [beginsWithUnit_iff (Java.charDigit_letter u) hsplit, Java.parseGRPCTimeout, hsplit]
    by_cases hfits : n < 2 ^ 63
    · simp only [if_pos hfits]
      cases TimeUnit.ofChar ch with
      | none => exact iff_of_true rfl nofun
      | some unit =>
        rw [Java.duration_eq_rejected_iff hfits]
        refine not_congr ⟨fun h => ⟨unit, rfl, h⟩, ?_⟩
        rintro ⟨unit', heq, h⟩
        cases heq
        exact h
    · exact iff_of_true (if_neg hfits) fun ⟨unit, _, h⟩ =>
        hfits ((TimeUnit.le_mul_factor n unit).trans_lt h)

theorem Python.rejected_iff {u : Unicode} {limit : Option Nat} :
    Python.timeoutSecs u limit header = .rejected ↔ ¬ Python.Form u limit header := by
  rcases eq_nil_or_concat' header with rfl | ⟨text, ch, rfl⟩
  · refine iff_of_true rfl ?_
    rintro ⟨text, last, heq, -⟩
    exact append_ne_nil_of_right_ne_nil text (cons_ne_nil _ _) heq.symm
  · have hform : Python.Form u limit (text ++ [ch]) ↔ Python.int u limit text ≠ none := by
      constructor
      · rintro ⟨text', last, heq, hint⟩
        rwa [(append_inj' heq rfl).1]
      · exact fun hint => ⟨text, ch, rfl, hint⟩
    rw [hform, Python.timeoutSecs, getLast?_concat, dropLast_concat]
    cases Python.int u limit text with
    | none => simp
    | some val =>
      dsimp only
      split_ifs <;> simp

end HelixRpc.Runtime
