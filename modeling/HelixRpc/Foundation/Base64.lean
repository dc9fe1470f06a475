import HelixRpc.Foundation.LittleEndian

/-!
# Base64

The encoding of three bytes as four characters, with `=` at the end of a shorter group (`encode`), and a decoder for
it (`decode`).
-/

namespace HelixRpc.Foundation.Base64

def digit (n : Nat) : UInt8 :=
  if n < 26 then UInt8.ofNat (65 + n)
  else if n < 52 then UInt8.ofNat (71 + n)
  else if n < 62 then UInt8.ofNat (n - 4)
  else if n = 62 then 43
  else 47

def value (ch : UInt8) : Option Nat :=
  if 65 ≤ ch ∧ ch ≤ 90 then some (ch.toNat - 65)
  else if 97 ≤ ch ∧ ch ≤ 122 then some (ch.toNat - 71)
  else if 48 ≤ ch ∧ ch ≤ 57 then some (ch.toNat + 4)
  else if ch = 43 then some 62
  else if ch = 47 then some 63
  else none

def pad : UInt8 := 61

def encode : Bytes → Bytes
  | [] => []
  | [a] => [digit (a.toNat / 4), digit (a.toNat % 4 * 16), pad, pad]
  | [a, b] =>
    [digit (a.toNat / 4), digit (a.toNat % 4 * 16 + b.toNat / 16), digit (b.toNat % 16 * 4), pad]
  | a :: b :: c :: rest =>
    digit (a.toNat / 4) :: digit (a.toNat % 4 * 16 + b.toNat / 16) ::
      digit (b.toNat % 16 * 4 + c.toNat / 64) :: digit (c.toNat % 64) :: encode rest

def firstByte (v₀ v₁ : Nat) : UInt8 := UInt8.ofNat (v₀ * 4 + v₁ / 16)

def secondByte (v₁ v₂ : Nat) : UInt8 := UInt8.ofNat (v₁ % 16 * 16 + v₂ / 4)

def thirdByte (v₂ v₃ : Nat) : UInt8 := UInt8.ofNat (v₂ % 4 * 64 + v₃)

def decode : Bytes → Option Bytes
  | [] => some []
  | c₀ :: c₁ :: c₂ :: c₃ :: rest =>
    if c₃ = pad ∧ rest = [] then
      if c₂ = pad then do
        let v₀ ← value c₀
        let v₁ ← value c₁
        return [firstByte v₀ v₁]
      else do
        let v₀ ← value c₀
        let v₁ ← value c₁
        let v₂ ← value c₂
        return [firstByte v₀ v₁, secondByte v₁ v₂]
    else do
      let v₀ ← value c₀
      let v₁ ← value c₁
      let v₂ ← value c₂
      let v₃ ← value c₃
      let bytes ← decode rest
      return firstByte v₀ v₁ :: secondByte v₁ v₂ :: thirdByte v₂ v₃ :: bytes
  | _ => none

theorem value_digit {n : Nat} (h : n < 64) : value (digit n) = some n := by
  have hall : ∀ n : Fin 64, value (digit n) = some n.val := by decide
  exact hall ⟨n, h⟩

theorem digit_ne_pad {n : Nat} (h : n < 64) : digit n ≠ pad := by
  have hall : ∀ n : Fin 64, digit n ≠ pad := by decide
  exact hall ⟨n, h⟩

section
variable (a b c : UInt8)

theorem firstByte_bits (n : Nat) (hn : n < 16) : firstByte (a.toNat / 4) (a.toNat % 4 * 16 + n) = a := by
  have hbits : a.toNat / 4 * 4 + (a.toNat % 4 * 16 + n) / 16 = a.toNat := by omega
  rw [firstByte, hbits, UInt8.ofNat_toNat]

theorem secondByte_bits (k n : Nat) (hn : n < 4) : secondByte (k * 16 + b.toNat / 16) (b.toNat % 16 * 4 + n) = b := by
  have hb := b.toNat_lt
  have hbits : (k * 16 + b.toNat / 16) % 16 * 16 + (b.toNat % 16 * 4 + n) / 4 = b.toNat := by omega
  rw [secondByte, hbits, UInt8.ofNat_toNat]

theorem thirdByte_bits (k : Nat) : thirdByte (k * 4 + c.toNat / 64) (c.toNat % 64) = c := by
  have hc := c.toNat_lt
  have hbits : (k * 4 + c.toNat / 64) % 4 * 64 + c.toNat % 64 = c.toNat := by omega
  rw [thirdByte, hbits, UInt8.ofNat_toNat]
end

theorem decode_encode (bytes : Bytes) : decode (encode bytes) = some bytes := by
  -- by the groups of three bytes; only the last group has fewer
  induction bytes using encode.induct with
  | case1 => rfl
  | case2 a =>
    have ha := a.toNat_lt
    have hfirst := firstByte_bits a 0 (by omega)
    rw [Nat.add_zero] at hfirst
    simp only [encode, decode, and_self, if_true]
    rw [value_digit (by omega), value_digit (by omega)]
    simp [hfirst]
  | case3 a b =>
    have ha := a.toNat_lt
    have hb := b.toNat_lt
    have hsecond := secondByte_bits b (a.toNat % 4) 0 (by omega)
    rw [Nat.add_zero] at hsecond
    simp only [encode, decode, and_self, if_true]
    rw [if_neg (digit_ne_pad (by omega)), value_digit (by omega), value_digit (by omega), value_digit (by omega)]
    simp [hsecond, firstByte_bits a (b.toNat / 16) (by omega)]
  | case4 a b c rest ih =>
    have ha := a.toNat_lt
    have hb := b.toNat_lt
    have hc := c.toNat_lt
    have hlast : ¬ (digit (c.toNat % 64) = pad ∧ encode rest = []) :=
      fun h => digit_ne_pad (by omega) h.1
    rw [encode, decode, if_neg hlast, value_digit (by omega), value_digit (by omega),
      value_digit (by omega), value_digit (by omega), ih]
    simp [firstByte_bits a (b.toNat / 16) (by omega), secondByte_bits b (a.toNat % 4) (c.toNat / 64) (by omega),
      thirdByte_bits c (b.toNat % 16)]

theorem encode_ne_nil {bytes : Bytes} (h : bytes ≠ []) : encode bytes ≠ [] := by
  intro hnil
  have hdecode := decode_encode bytes
  rw [hnil] at hdecode
  exact h (Option.some.inj hdecode).symm

theorem decode_of_value_none {ch : UInt8} {rest : Bytes} (h : value ch = none) : decode (ch :: rest) = none := by
  rcases rest with _ | ⟨c₁, _ | ⟨c₂, _ | ⟨c₃, rest⟩⟩⟩
  · rfl
  · rfl
  · rfl
  · rw [decode, h]
    split
    · split
      all_goals rfl
    · rfl

end HelixRpc.Foundation.Base64
