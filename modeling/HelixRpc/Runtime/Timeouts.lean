import HelixRpc.Runtime.TimeoutParsers

/-!
# What grpc-timeout means in each runtime

`SameMeaning` says of a header that the five parsers all accept it or all reject it, with the duration it says.
-/

namespace HelixRpc.Runtime

open Foundation Foundation.Numeral Runtime.Go

def Says (header : Text) (length n : Nat) (unit : TimeUnit) : Prop :=
  ∃ digits, header = digits ++ [unit.letter] ∧ numeral asciiDigit digits = some n ∧ digits.length = length

section
variable (u : Unicode) (limit : Option Nat) (checks : Bool) (header : Text)

def AllAccept : Prop :=
  (∃ d, Go.parseGRPCTimeout header = .accepted d) ∧ (∃ d, Rust.parseGrpcTimeout checks header = .accepted d) ∧
    (∃ d, Cpp.parseGRPCTimeout header = .accepted d) ∧ (∃ d, Java.parseGRPCTimeout u header = .accepted d) ∧
    ∃ d, Python.timeoutSecs u limit header = .accepted d

def SomeAccepts : Prop :=
  (∃ d, Go.parseGRPCTimeout header = .accepted d) ∨ (∃ d, Rust.parseGrpcTimeout checks header = .accepted d) ∨
    (∃ d, Cpp.parseGRPCTimeout header = .accepted d) ∨ (∃ d, Java.parseGRPCTimeout u header = .accepted d) ∨
    ∃ d, Python.timeoutSecs u limit header = .accepted d

def AllReject : Prop := Go.parseGRPCTimeout header = .rejected ∧ Rust.parseGrpcTimeout checks header = .rejected ∧
    Cpp.parseGRPCTimeout header = .rejected ∧ Java.parseGRPCTimeout u header = .rejected ∧
    Python.timeoutSecs u limit header = .rejected

structure Exact (nanos : Nat) : Prop where
  go : ∀ d, Go.parseGRPCTimeout header = .accepted d → d.toInt = nanos
  rust : ∀ d, Rust.parseGrpcTimeout checks header = .accepted d → d = nanos
  cpp : ∀ d, Cpp.parseGRPCTimeout header = .accepted d → d.toInt = (nanos / 1000 : Nat)
  java : ∀ d, Java.parseGRPCTimeout u header = .accepted d → d = nanos
  python : ∀ d, Python.timeoutSecs u limit header = .accepted d → |d * 10 ^ 9 - nanos| < 1 / 2

structure SameMeaning : Prop where
  agree : AllAccept u limit checks header ∨ AllReject u limit checks header
  wellFormed : SomeAccepts u limit checks header → ∃ length n unit, Says header length n unit
  exact : ∀ length n unit, Says header length n unit → length ≤ 8 → Exact u limit checks header (n * unit.nanos)

/-- A number and a unit that fit everywhere: Python's limit on digits, a signed word of seconds in Java, and
a Go duration. -/
def Fits : Prop := ∃ length n unit, Says header length n unit ∧ limit.any (· < length) = false ∧
    n * unit.factor < 2 ^ 63 ∧ (length ≤ 8 → unit = .hour → n ≤ 2562047)

structure Foreign : Prop where
  ascii : ∀ ch ∈ header.getLast?, ch.toNat < 128
  go : ¬ EndsInUnit Go.IsInt header
  rust : ¬ EndsInUnit Rust.IsU64 header
  cpp : ¬ BeginsWithUnit asciiDigit (fun n _ => n < 2 ^ 63) header
  java : ¬ BeginsWithUnit (Java.charDigit u) (fun n unit => n * unit.factor < 2 ^ 63) header
  python : ¬ Python.Form u limit header
end

section
variable {n : Nat} {unit : TimeUnit}

theorem nanos_lt (hn : n < 10 ^ 8) (hhour : unit = .hour → n ≤ 2562047) : n * unit.nanos < 2 ^ 63 := by
  cases unit with
  | hour =>
    have := hhour rfl
    rw [TimeUnit.nanos]
    omega
  | _ =>
    rw [TimeUnit.nanos]
    omega

theorem goDuration_exact (hn : n < 10 ^ 8) (hhour : unit = .hour → n ≤ 2562047) :
    (Int64.ofNat n * Int64.ofNat unit.nanos).toInt = (n * unit.nanos : Nat) :=
  SignedWord.toInt_ofNat_mul (by omega) (by cases unit <;> decide) (nanos_lt hn hhour)

theorem goDuration_hour (hn : n < 2 ^ 63) (hexact : (Int64.ofNat n * Int64.ofNat TimeUnit.hour.nanos).toInt =
      (n * TimeUnit.hour.nanos : Nat)) : n ≤ 2562047 := by
  have hlt := (Int64.ofNat n * Int64.ofNat TimeUnit.hour.nanos).toInt_lt
  rw [hexact, TimeUnit.nanos] at hlt
  omega

theorem rustDuration_exact (checks : Bool) (hfits : n * unit.factor < 2 ^ 64) :
    Rust.duration checks n unit = .accepted (n * unit.nanos) := by
  cases unit with
  | nanosecond => rw [Rust.duration, TimeUnit.nanos, Nat.mul_one]
  | microsecond => rfl
  | millisecond => rfl
  | second => rfl
  | minute =>
    rw [Rust.duration, Rust.fromSecs, if_pos (show n * 60 < 2 ^ 64 from hfits), TimeUnit.nanos, Nat.mul_assoc]
  | hour =>
    rw [Rust.duration, Rust.fromSecs, if_pos (show n * 3600 < 2 ^ 64 from hfits), TimeUnit.nanos, Nat.mul_assoc]

theorem cppDuration_exact (hn : n < 10 ^ 8) :
    (Cpp.microseconds (Int64.ofNat n) unit).toInt = (n * unit.nanos / 1000 : Nat) := by
  have hword : (Int64.ofNat n).toInt = n := Int64.toInt_ofNat_of_lt (by omega)
  have hmul : ∀ k : Nat, k ≤ 3600000000 → (Int64.ofNat n * Int64.ofNat k).toInt = (n * k : Nat) := by
    intro k hk
    have hle : n * k ≤ n * 3600000000 := Nat.mul_le_mul_left n hk
    exact SignedWord.toInt_ofNat_mul (by omega) (by omega) (by omega)
  cases unit with
  | nanosecond =>
    -- the only unit for which `duration_cast` divides
    have hdiv : (Int64.ofNat n / 1000).toInt = ((n : Int).tdiv 1000).bmod (2 ^ 64) := by
      rw [Int64.toInt_div, hword]
      rfl
    rw [Cpp.microseconds, hdiv, TimeUnit.nanos, Nat.mul_one, Int.tdiv_eq_ediv_of_nonneg (by omega)]
    exact bmod_of_mem (by omega) (by omega)
  | microsecond =>
    rw [Cpp.microseconds, hword, TimeUnit.nanos]
    omega
  | millisecond =>
    refine (hmul 1000 (by omega)).trans ?_
    rw [TimeUnit.nanos]
    omega
  | second =>
    refine (hmul 1000000 (by omega)).trans ?_
    rw [TimeUnit.nanos]
    omega
  | minute =>
    refine (hmul 60000000 (by omega)).trans ?_
    rw [TimeUnit.nanos]
    omega
  | hour =>
    refine (hmul 3600000000 (by omega)).trans ?_
    rw [TimeUnit.nanos]
    omega

theorem javaDuration_accepted (hfits : n * unit.factor < 2 ^ 63) : ∃ d, Java.duration n unit = .accepted d := by
  cases unit with
  | minute => exact ⟨_, if_pos hfits⟩
  | hour => exact ⟨_, if_pos hfits⟩
  | _ => exact ⟨_, rfl⟩

theorem javaDuration_exact (hn : n < 10 ^ 8) {d : Int} (h : Java.duration n unit = .accepted d) :
    d = (n * unit.nanos : Nat) := by
  cases unit with
  | nanosecond =>
    cases h
    rw [TimeUnit.nanos, Nat.mul_one]
  | microsecond =>
    cases h
    have hproduct : n * 1000 < 2 ^ 63 := by omega
    exact SignedWord.toInt_ofNat_mul (by omega) (by decide) hproduct
  | millisecond =>
    cases h
    rw [TimeUnit.nanos]
    push_cast
    rfl
  | second =>
    cases h
    rw [TimeUnit.nanos]
    push_cast
    rfl
  | minute =>
    rw [Java.duration, Java.ofSeconds, if_pos (by omega)] at h
    cases h
    rw [TimeUnit.nanos]
    omega
  | hour =>
    rw [Java.duration, Java.ofSeconds, if_pos (by omega)] at h
    cases h
    rw [TimeUnit.nanos]
    omega

theorem pythonDuration_fraction (hn : n < 10 ^ 8) {k : Nat} (hk : 10 ^ 3 ≤ k) (hk' : k ≤ 10 ^ 9) :
    |Double.round (Double.round n * Double.round (1 / k)) * 10 ^ 9 - n / k * 10 ^ 9| < 1 / 2 := by
  have hclose := Double.abs_round_mul_round_sub_le (show n < 2 ^ 53 by omega) (by omega) hk'
  have hn₁ : (n : ℚ) ≤ 10 ^ 8 := by exact_mod_cast hn.le
  have hk₁ : (10 : ℚ) ^ 3 ≤ k := by exact_mod_cast hk
  have hquotient : (n : ℚ) / k ≤ 10 ^ 8 / 10 ^ 3 := by gcongr
  rw [← sub_mul, abs_mul, abs_of_pos (show (0 : ℚ) < 10 ^ 9 by positivity)]
  calc |Double.round (Double.round n * Double.round (1 / k)) - n / k| * 10 ^ 9
      ≤ 3 * (n / k) / 2 ^ 53 * 10 ^ 9 := by gcongr
    _ ≤ 3 * (10 ^ 8 / 10 ^ 3) / 2 ^ 53 * 10 ^ 9 := by gcongr
    _ < 1 / 2 := by norm_num

theorem pythonDuration_seconds (hn : n < 10 ^ 8) {k : Nat} (hk : k ≤ 3600) :
    Double.round (Double.round n * k) = (n * k : Nat) := by
  have hle : n * k ≤ n * 3600 := Nat.mul_le_mul_left n hk
  rw [Double.round_natCast (show n < 2 ^ 53 by omega), ← Nat.cast_mul,
    Double.round_natCast (show n * k < 2 ^ 53 by omega)]

theorem pythonDuration_exact (hn : n < 10 ^ 8) :
    |Double.round (Double.round n * Python.unitSeconds unit.letter) * 10 ^ 9 - (n * unit.nanos : Nat)| < 1 / 2 := by
  have hseconds : ∀ k : Nat, k ≤ 3600 →
      |Double.round (Double.round n * k) * 10 ^ 9 - (n * (k * 10 ^ 9) : Nat)| < 1 / 2 := by
    intro k hk
    rw [pythonDuration_seconds hn hk]
    have heq : ((n * k : Nat) : ℚ) * 10 ^ 9 = (n * (k * 10 ^ 9) : Nat) := by
      push_cast
      ring
    rw [heq, sub_self, abs_zero]
    norm_num
  have hfraction : ∀ k : Nat, 10 ^ 3 ≤ k → k ≤ 10 ^ 9 → k * unit.nanos = 10 ^ 9 →
      |Double.round (Double.round n * Double.round (1 / k)) * 10 ^ 9 - (n * unit.nanos : Nat)| < 1 / 2 := by
    intro k hk hk' hunit
    have h := pythonDuration_fraction hn hk hk'
    have hunit' : (k : ℚ) * unit.nanos = 10 ^ 9 := by exact_mod_cast hunit
    have hk₀ : (k : ℚ) ≠ 0 := by positivity
    have heq : (n : ℚ) / k * 10 ^ 9 = (n * unit.nanos : Nat) := by
      rw [← hunit']
      push_cast
      field_simp
    rwa [heq] at h
  cases unit with
  | nanosecond => exact_mod_cast hfraction (10 ^ 9) (by omega) (by omega) rfl
  | microsecond => exact_mod_cast hfraction (10 ^ 6) (by omega) (by omega) rfl
  | millisecond => exact_mod_cast hfraction (10 ^ 3) (by omega) (by omega) rfl
  | second => exact_mod_cast hseconds 1 (by omega)
  | minute => exact_mod_cast hseconds 60 (by omega)
  | hour => exact_mod_cast hseconds 3600 (by omega)
end

section
variable {u : Unicode} {limit : Option Nat} {checks : Bool} {header : Text}

theorem allReject_iff_foreign : AllReject u limit checks header ↔ Foreign u limit header := by
  rw [AllReject, Go.rejected_iff, Rust.rejected_iff, Cpp.rejected_iff, Java.rejected_iff, Python.rejected_iff]
  constructor
  · rintro ⟨hgo, ⟨hascii, hrust⟩, hcpp, hjava, hpython⟩
    exact ⟨hascii, hgo, hrust, hcpp, hjava, hpython⟩
  · rintro ⟨hascii, hgo, hrust, hcpp, hjava, hpython⟩
    exact ⟨hgo, ⟨hascii, hrust⟩, hcpp, hjava, hpython⟩

theorem AllReject.not_someAccepts (h : AllReject u limit checks header) : ¬ SomeAccepts u limit checks header := by
  obtain ⟨hgo, hrust, hcpp, hjava, hpython⟩ := h
  rw [SomeAccepts, hgo, hrust, hcpp, hjava, hpython]
  rintro (⟨d, h⟩ | ⟨d, h⟩ | ⟨d, h⟩ | ⟨d, h⟩ | ⟨d, h⟩) <;> cases h

theorem AllReject.exact (h : AllReject u limit checks header) (nanos : Nat) : Exact u limit checks header nanos := by
  have hnone := h.not_someAccepts
  exact ⟨fun d hd => absurd (.inl ⟨d, hd⟩) hnone, fun d hd => absurd (.inr (.inl ⟨d, hd⟩)) hnone,
    fun d hd => absurd (.inr (.inr (.inl ⟨d, hd⟩))) hnone, fun d hd => absurd (.inr (.inr (.inr (.inl ⟨d, hd⟩)))) hnone,
    fun d hd => absurd (.inr (.inr (.inr (.inr ⟨d, hd⟩)))) hnone⟩

theorem Says.unique {length length' n n' : Nat} {unit unit' : TimeUnit} (h : Says header length n unit)
    (h' : Says header length' n' unit') : length = length' ∧ n = n' ∧ unit = unit' := by
  obtain ⟨digits, rfl, hn, hlength⟩ := h
  obtain ⟨digits', heq, hn', hlength'⟩ := h'
  obtain ⟨rfl, hunit⟩ := List.append_inj' heq rfl
  have hunit' := TimeUnit.ofChar_letter unit
  rw [(List.cons.inj hunit).1, TimeUnit.ofChar_letter] at hunit'
  exact ⟨hlength.symm.trans hlength', Option.some.inj (hn.symm.trans hn'), (Option.some.inj hunit').symm⟩

variable {length n : Nat} {unit : TimeUnit}

theorem allAccept_iff (h : Says header length n unit) :
    AllAccept u limit checks header ↔ limit.any (· < length) = false ∧ n * unit.factor < 2 ^ 63 := by
  obtain ⟨digits, rfl, hn, rfl⟩ := h
  have hle := TimeUnit.le_mul_factor n unit
  rw [AllAccept, Go.parseGRPCTimeout_numeral unit hn, Rust.parseGrpcTimeout_numeral unit checks hn,
    Cpp.parseGRPCTimeout_numeral unit hn, Java.parseGRPCTimeout_numeral unit u hn,
    Python.timeoutSecs_numeral unit u limit hn]
  constructor
  · -- Java has the smallest range of numbers, Python the limit on digits
    rintro ⟨-, -, -, ⟨d, hjava⟩, ⟨d', hpython⟩⟩
    constructor
    · by_contra hlimit
      rw [if_pos (Bool.of_not_eq_false hlimit)] at hpython
      cases hpython
    · split_ifs at hjava with hword
      by_contra hfits
      rw [(Java.duration_eq_rejected_iff hword).2 hfits] at hjava
      cases hjava
  · rintro ⟨hlimit, hfits⟩
    have hword : n < 2 ^ 63 := hle.trans_lt hfits
    rw [if_pos hword, if_pos (show n < 2 ^ 64 by omega), if_pos hword, if_pos hword, hlimit,
      if_neg Bool.false_ne_true, if_pos (Python.fits_of_lt hword), rustDuration_exact checks (by omega)]
    exact ⟨⟨_, rfl⟩, ⟨_, rfl⟩, ⟨_, rfl⟩, javaDuration_accepted hfits, ⟨_, rfl⟩⟩

theorem exact_iff (h : Says header length n unit) (hlength : length ≤ 8) (hlimit : limit.any (· < length) = false) :
    Exact u limit checks header (n * unit.nanos) ↔ (unit = .hour → n ≤ 2562047) := by
  obtain ⟨digits, rfl, hn, rfl⟩ := h
  have hsmall : n < 10 ^ 8 := (numeral_lt (fun _ _ h => (asciiDigit_eq_some h).2.2) hn).trans_le
      (Nat.pow_le_pow_right (by omega) hlength)
  have hfactor : n * unit.factor < 2 ^ 64 := by
    cases unit <;> simp only [TimeUnit.factor] <;> omega
  have hgo := Go.parseGRPCTimeout_numeral unit hn
  rw [if_pos (show n < 2 ^ 63 by omega)] at hgo
  constructor
  · rintro hexact rfl
    exact goDuration_hour (by omega) (hexact.go _ hgo)
  · intro hhour
    refine ⟨?_, ?_, ?_, ?_, ?_⟩
    · intro d hd
      cases hgo.symm.trans hd
      exact goDuration_exact hsmall hhour
    · intro d hd
      rw [Rust.parseGrpcTimeout_numeral unit checks hn, if_pos (by omega), rustDuration_exact checks hfactor] at hd
      cases hd
      rfl
    · intro d hd
      rw [Cpp.parseGRPCTimeout_numeral unit hn, if_pos (by omega)] at hd
      cases hd
      exact cppDuration_exact hsmall
    · intro d hd
      rw [Java.parseGRPCTimeout_numeral unit u hn, if_pos (by omega)] at hd
      exact javaDuration_exact hsmall hd
    · intro d hd
      rw [Python.timeoutSecs_numeral unit u limit hn, hlimit, if_neg Bool.false_ne_true] at hd
      split_ifs at hd
      cases hd
      exact pythonDuration_exact hsmall
end

/-- A header means the same everywhere exactly if it is a number and a unit that fit everywhere, or if it
is in none of the languages of the parsers. -/
theorem same_meaning_iff (u : Unicode) (limit : Option Nat) (checks : Bool) (header : Text) :
    SameMeaning u limit checks header ↔ Fits limit header ∨ Foreign u limit header := by
  constructor
  · rintro ⟨haccept | hreject, hwellFormed, hexact⟩
    · obtain ⟨length, n, unit, hsays⟩ := hwellFormed (.inl haccept.1)
      obtain ⟨hlimit, hfits⟩ := (allAccept_iff hsays).1 haccept
      refine .inl ⟨length, n, unit, hsays, hlimit, hfits, fun hlength => ?_⟩
      exact (exact_iff hsays hlength hlimit).1 (hexact length n unit hsays hlength)
    · exact .inr (allReject_iff_foreign.1 hreject)
  · rintro (⟨length, n, unit, hsays, hlimit, hfits, hhour⟩ | hforeign)
    · refine ⟨.inl ((allAccept_iff hsays).2 ⟨hlimit, hfits⟩), fun _ => ⟨length, n, unit, hsays⟩, ?_⟩
      intro length' n' unit' hsays' hlength'
      obtain ⟨rfl, rfl, rfl⟩ := hsays.unique hsays'
      exact (exact_iff hsays hlength' hlimit).2 (hhour hlength')
    · have hreject : AllReject u limit checks header := allReject_iff_foreign.2 hforeign
      exact ⟨.inr hreject, fun h => absurd h hreject.not_someAccepts, fun _ _ _ _ _ => hreject.exact _⟩

theorem SameMeaning.allReject {u : Unicode} {limit : Option Nat} {checks : Bool} {header : Text}
    (h : SameMeaning u limit checks header) (hgo : Go.parseGRPCTimeout header = .rejected) :
    AllReject u limit checks header := by
  rcases h.agree with haccept | hreject
  · obtain ⟨d, hd⟩ := haccept.1
    cases hgo.symm.trans hd
  · exact hreject

theorem different_meanings : ¬ ∃ (u : Unicode) (checks : Bool), SameMeaning u (some 4300) checks "15".toList ∨
    SameMeaning u (some 4300) checks "-5S".toList ∨ SameMeaning u (some 4300) checks "5Sx".toList ∨ SameMeaning u
    (some 4300) checks "99999999H".toList := by
  rintro ⟨u, checks, h | h | h | h⟩
  · obtain ⟨-, -, -, -, hpython⟩ := h.allReject (by decide)
    refine Python.rejected_iff.1 hpython ⟨['1'], '5', rfl, ?_⟩
    rw [Python.int_numeral u (some 4300) (show numeral asciiDigit ['1'] = some 1 by decide)]
    decide
  · have hrust : Rust.parseGrpcTimeout checks "-5S".toList = .rejected := by
      cases checks <;> decide
    rcases h.agree with ⟨-, ⟨d, hd⟩, -⟩ | ⟨hgo, -⟩
    · cases hrust.symm.trans hd
    · exact absurd hgo (by decide)
  · obtain ⟨-, -, hcpp, -, -⟩ := h.allReject (by decide)
    exact absurd hcpp (by decide)
  · have hexact := h.exact 8 99999999 .hour ⟨"99999999".toList, by decide, by decide, by decide⟩ le_rfl
    exact absurd (hexact.go (Int64.ofNat 99999999 * Int64.ofNat TimeUnit.hour.nanos) (by decide)) (by decide)

end HelixRpc.Runtime
