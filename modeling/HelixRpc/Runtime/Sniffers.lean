import HelixRpc.Runtime.Multiplexers

/-!
# The sniffers of Go, Rust, C++ and Java

Model of `SniffProtocol` (`runtimes/cpp/include/helix/sniffer.h`).
-/

namespace HelixRpc.Runtime

open Foundation Runtime.Go List

def restMagics : List Bytes :=
  [[0x47, 0x45, 0x54, 0x20], [0x50, 0x4f, 0x53, 0x54], [0x50, 0x55, 0x54, 0x20], [0x44, 0x45, 0x4c, 0x45]]

/-- The comparisons of C++ and Java, with their test for a text at the beginning. -/
def sniffPeeked (startsWith : Bytes → Bool) (peekBytes : Bytes) : Protocol :=
  if peekBytes = [] then .unknown
  else if startsWith prefaceLine then .grpc
  else if 2 ≤ peekBytes.length && [0x80, 0x01].isPrefixOf peekBytes then .thriftBinary
  else if 2 ≤ peekBytes.length && [0x82].isPrefixOf peekBytes then .thriftCompact
  else if 4 ≤ peekBytes.length && restMagics.any startsWith then .http
  else .unknown

def Cpp.sniffProtocol (peekBytes : Bytes) : Protocol := sniffPeeked (fun text => text.isPrefixOf peekBytes) peekBytes

def Java.asciiChar (b : UInt8) : Char := if b < 128 then Char.ofNat b.toNat else Char.ofNat 0xfffd

def Java.sniffProtocol (peekBytes : Bytes) : Protocol :=
  sniffPeeked (fun text => (text.map asciiChar).isPrefixOf (peekBytes.map asciiChar)) peekBytes

theorem Java.toNat_asciiChar {b : UInt8} (hb : b < 128) : (asciiChar b).toNat = b.toNat := by
  have hcodes : ∀ n : Fin 128, (Char.ofNat n).toNat = n := by decide
  rw [asciiChar, if_pos hb]
  exact hcodes ⟨b.toNat, hb⟩

theorem Java.asciiChar_inj {a : UInt8} (ha : a < 128) (b : UInt8) : asciiChar a = asciiChar b ↔ a = b := by
  refine ⟨fun h => ?_, congrArg asciiChar⟩
  have hcode := congrArg Char.toNat h
  rw [toNat_asciiChar ha] at hcode
  by_cases hb : b < 128
  · rw [toNat_asciiChar hb] at hcode
    exact UInt8.toNat_inj.1 hcode
  · -- the replacement character is no ASCII character
    rw [asciiChar, if_neg hb] at hcode
    have hlt : a.toNat < 128 := ha
    have hbig : (Char.ofNat 0xfffd).toNat = 0xfffd := rfl
    omega

theorem Java.startsWith_eq {text : Bytes} (htext : ∀ b ∈ text, b < 128) (bs : Bytes) :
    (text.map asciiChar).isPrefixOf (bs.map asciiChar) = text.isPrefixOf bs := by
  induction text generalizing bs with
  | nil => rfl
  | cons a text ih =>
    cases bs with
    | nil => rfl
    | cons b bs =>
      have hfirst : (asciiChar a == asciiChar b) = (a == b) := by
        rw [Bool.eq_iff_iff, beq_iff_eq, beq_iff_eq]
        exact asciiChar_inj (htext a mem_cons_self) b
      rw [map_cons, map_cons, isPrefixOf, isPrefixOf, hfirst, ih (fun c hc => htext c (mem_cons_of_mem _ hc))]

theorem ascii_of_all {text : Bytes} (h : (text.all fun b => decide (b < 128)) = true) : ∀ b ∈ text, b < 128 :=
  fun b hb => of_decide_eq_true (all_eq_true.1 h b hb)

theorem Java.sniffProtocol_eq (peekBytes : Bytes) : Java.sniffProtocol peekBytes = Cpp.sniffProtocol peekBytes := by
  have hpreface : (prefaceLine.map asciiChar).isPrefixOf (peekBytes.map asciiChar) =
      prefaceLine.isPrefixOf peekBytes := startsWith_eq (ascii_of_all (by decide)) peekBytes
  have hrest : (restMagics.any fun text => (text.map asciiChar).isPrefixOf (peekBytes.map asciiChar)) =
      restMagics.any fun text => text.isPrefixOf peekBytes := by
    have hall : (restMagics.all fun text => text.all fun b => decide (b < 128)) = true := by decide
    have hascii : ∀ text ∈ restMagics, ∀ b ∈ text, b < 128 := fun text htext =>
      ascii_of_all (all_eq_true.1 hall text htext)
    rw [Bool.eq_iff_iff, any_eq_true, any_eq_true]
    refine exists_congr fun text => and_congr_right fun htext => ?_
    rw [startsWith_eq (hascii text htext)]
  simp only [Java.sniffProtocol, Cpp.sniffProtocol, sniffPeeked, hpreface, hrest]

def thriftProtocol (isCompact : Bool) : Protocol := if isCompact then .thriftCompact else .thriftBinary

/-- The first bytes of a connection: the preface of HTTP/2, a request line, or a Thrift message without
or with its length in front. -/
inductive Opens : Protocol → Bytes → Prop
  | preface (rest : Bytes) : Opens .grpc (prefaceLine ++ rest)
  | request {stream : Bytes} (h : StartsRequest stream) : Opens .http stream
  | unframed {isCompact : Bool} {message : Bytes} (h : StartsMessage isCompact message) :
      Opens (thriftProtocol isCompact) message
  | framed {isCompact : Bool} {message : Bytes} (h : StartsMessage isCompact message) {n : Nat}
      (hn : n < 65536) : Opens (thriftProtocol isCompact) (bigEndian 4 n ++ message)

/-- The protocols that are served where Go sends a connection: HTTP/2 and HTTP/1.1 have one handler. -/
def Go.Route.Serves : Route → Protocol → Prop
  | .http _, .grpc => True
  | .http _, .http => True
  | .thrift _ isCompact, protocol => protocol = thriftProtocol isCompact
  | _, _ => False

structure SniffsAs (tlsConfig : Bool) (opening later : Bytes) (protocol : Protocol) : Prop where
  go : (sniffAndRoute tlsConfig opening later).Serves protocol
  rust : sniffProtocol [some opening] = protocol
  cpp : Cpp.sniffProtocol opening = protocol
  java : Java.sniffProtocol opening = protocol

section
variable {tlsConfig : Bool} {opening later : Bytes}

theorem sniffProtocol_once (opening : Bytes) : sniffProtocol [some opening] =
    (peeked (opening.take 8)).getD (framedProtocol (opening.take 8)) := by
  rw [sniffProtocol, sniffLoop, if_neg (by decide)]
  cases peeked (opening.take 8) with
  | some protocol => rfl
  | none =>
    -- no protocol yet: `break`, or the end of the window
    simp only [Option.getD_none]
    split
    all_goals rfl

theorem SniffsAs.of_three {protocol : Protocol} (hgo : (sniffAndRoute tlsConfig opening later).Serves protocol)
    (hrust : sniffProtocol [some opening] = protocol) (hcpp : Cpp.sniffProtocol opening = protocol) :
    SniffsAs tlsConfig opening later protocol :=
  ⟨hgo, hrust, hcpp, (Java.sniffProtocol_eq opening).trans hcpp⟩

theorem sniffsAs_preface (rest : Bytes) (tlsConfig : Bool) (later : Bytes) :
    SniffsAs tlsConfig (prefaceLine ++ rest) later .grpc := by
  have hmagic : http2Magic <+: prefaceLine ++ rest := IsPrefix.trans (by decide) (prefix_append _ _)
  apply SniffsAs.of_three
  · have hlength : 8 ≤ (prefaceLine ++ rest).length := by
      rw [length_append]
      exact Nat.le_add_right_of_le (by decide)
    have hgo : sniffAndRoute tlsConfig (prefaceLine ++ rest) later = .http ⟨prefaceLine ++ rest, later⟩ := by
      rw [sniffAndRoute_eight hlength]
      rfl
    rw [hgo]
    trivial
  · exact sniffProtocol_of_magic hmagic []
  · have hline : prefaceLine.isPrefixOf (prefaceLine ++ rest) = true := isPrefixOf_iff_prefix.2 (prefix_append _ _)
    have hne : prefaceLine ++ rest ≠ [] := cons_ne_nil _ _
    rw [Cpp.sniffProtocol, sniffPeeked, if_neg hne, if_pos hline]

theorem sniffsAs_request (h : StartsRequest opening) (hlength : 8 ≤ opening.length) (tlsConfig : Bool)
    (later : Bytes) : SniffsAs tlsConfig opening later .http := by
  apply SniffsAs.of_three
  · have hgo : sniffAndRoute tlsConfig opening later = .http ⟨opening, later⟩ := by
      rw [sniffAndRoute_eight hlength]
      obtain ⟨b₀, b₁, b₂, rest, rfl, hverb⟩ := h.bytes
      cases hverb <;> simp [classify, http2Magic, verbMagics, isPrefixOf]
    rw [hgo]
    trivial
  · obtain ⟨b₀, b₁, b₂, rest, rfl, hverb⟩ := h.bytes
    rw [sniffProtocol_once, peeked_verb hverb]
    rfl
  · -- C++ compares four bytes
    obtain ⟨verb, hverb, rest, rfl⟩ := h
    simp only [requestVerbs, mem_cons, not_mem_nil, or_false] at hverb
    rcases hverb with rfl | rfl | rfl | rfl <;>
      simp [Cpp.sniffProtocol, sniffPeeked, prefaceLine, restMagics, isPrefixOf]

theorem sniffsAs_unframed {isCompact : Bool} (h : StartsMessage isCompact opening) (hlength : 8 ≤ opening.length)
    (tlsConfig : Bool) (later : Bytes) : SniffsAs tlsConfig opening later (thriftProtocol isCompact) := by
  apply SniffsAs.of_three
  · have hstream : opening ++ later = opening ++ later := rfl
    rw [sniffs_unframed h hstream (by omega)]
    rfl
  · rw [sniffProtocol_once]
    cases h <;> simp [peeked, http2Magic, verbMagics, thriftProtocol, isPrefixOf]
  · cases h with
    | compact rest =>
      cases rest with
      | nil => exact absurd hlength (by decide)
      | cons b rest =>
        simp [Cpp.sniffProtocol, sniffPeeked, prefaceLine, thriftProtocol, isPrefixOf]
    | binary rest => simp [Cpp.sniffProtocol, sniffPeeked, prefaceLine, thriftProtocol, isPrefixOf]

theorem bigEndian_short {n : Nat} (hn : n < 65536) :
    bigEndian 4 n = [0x00, 0x00, UInt8.ofNat (n / 256), UInt8.ofNat n] := by
  have hhigh : UInt8.ofNat (n / 256 / 256 / 256) = 0 := ofNat_eq_zero_iff.2 (by omega)
  have hlow : UInt8.ofNat (n / 256 / 256) = 0 := ofNat_eq_zero_iff.2 (by omega)
  rw [bigEndian_four, hhigh, hlow]

theorem cppSniff_zero (rest : Bytes) : Cpp.sniffProtocol (0x00 :: rest) = .unknown := by
  simp [Cpp.sniffProtocol, sniffPeeked, prefaceLine, restMagics, isPrefixOf]

theorem not_serves_unknown (route : Route) : ¬ route.Serves .unknown := by
  cases route with
  | thrift c isCompact => cases isCompact <;> exact nofun
  | _ => exact not_false
end

/-- The four sniffers assign one protocol to an opening if and only if it does not start
with the length of a framed message. -/
theorem sniffers_agree_iff {protocol : Protocol} {opening : Bytes} (hopens : Opens protocol opening)
    (hlength : 14 ≤ opening.length) (tlsConfig : Bool) (later : Bytes) :
    (∃ assigned, SniffsAs tlsConfig opening later assigned) ↔ opening.head? ≠ some 0x00 := by
  have height : 8 ≤ opening.length := by omega
  cases hopens with
  | preface rest =>
    refine ⟨fun _ => ?_, fun _ => ⟨_, sniffsAs_preface rest tlsConfig later⟩⟩
    simp [prefaceLine]
  | request h =>
    refine ⟨fun _ => ?_, fun _ => ⟨_, sniffsAs_request h height tlsConfig later⟩⟩
    obtain ⟨b₀, b₁, b₂, rest, rfl, hverb⟩ := h.bytes
    cases hverb <;> simp
  | unframed h =>
    refine ⟨fun _ => ?_, fun _ => ⟨_, sniffsAs_unframed h height tlsConfig later⟩⟩
    cases h <;> simp
  | framed h hn =>
    rw [bigEndian_short hn]
    refine ⟨?_, fun hzero => absurd rfl hzero⟩
    -- C++ assigns nothing, which Go never does for a connection that it serves
    rintro ⟨assigned, hsniffs⟩
    have hunknown := hsniffs.cpp.symm.trans (cppSniff_zero _)
    have hserves := hsniffs.go
    rw [hunknown] at hserves
    exact absurd hserves (not_serves_unknown _)

theorem sniffers_agree_iff_get : ∃ assigned, SniffsAs true (0x47 :: 0x45 :: 0x54 :: 0x20 :: 0x2f :: replicate 9 0x61) []
      assigned :=
  have hrequest : StartsRequest (0x47 :: 0x45 :: 0x54 :: 0x20 :: 0x2f :: replicate 9 0x61) :=
    ⟨[0x47, 0x45, 0x54, 0x20], by decide, by decide⟩
  (sniffers_agree_iff (.request hrequest) (by decide) true []).2 (by decide)

theorem framed_ping_disagrees : Opens .thriftCompact (bigEndian 4 9 ++ (pingMessage ++ [0x00])) ∧ sniffAndRoute false
    (bigEndian 4 9 ++ (pingMessage ++ [0x00])) [] = .thrift ⟨bigEndian 4 9 ++ (pingMessage ++ [0x00]), []⟩ true ∧
    sniffProtocol [some (bigEndian 4 9 ++ (pingMessage ++ [0x00]))] = .thriftCompact ∧ Cpp.sniffProtocol
    (bigEndian 4 9 ++ (pingMessage ++ [0x00])) = .unknown ∧ Java.sniffProtocol
    (bigEndian 4 9 ++ (pingMessage ++ [0x00])) = .unknown :=
  have hstart : StartsMessage true (pingMessage ++ [0x00]) := .compact _
  ⟨.framed hstart (by decide), rfl, rfl, rfl, rfl⟩

end HelixRpc.Runtime
