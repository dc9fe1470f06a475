import HelixRpc.Foundation.Framing

/-!
# The sniffer of the Go server

Model of `sniffAndRoute` and of `BufferedConn` (`runtimes/go/sniffer.go`).
-/

namespace HelixRpc.Runtime.Go

open Foundation List

structure BufferedConn where
  buffer : Bytes
  conn : Bytes
  deriving DecidableEq

namespace BufferedConn

variable (c : BufferedConn)

def stream : Bytes := c.buffer ++ c.conn

/-- `Read` with room for `n` bytes: from the buffer as long as there is something in it, and from the
connection then, which delivers at most `n` bytes at a time and at least one. -/
def read (n arriving : Nat) : Bytes × BufferedConn :=
  if c.buffer ≠ [] then (c.buffer.take n, ⟨c.buffer.drop n, c.conn⟩)
  else (c.conn.take (min n (arriving + 1)), ⟨[], c.conn.drop (min n (arriving + 1))⟩)

theorem read_append (n arriving : Nat) : (c.read n arriving).1 ++ (c.read n arriving).2.stream = c.stream := by
  unfold read stream
  split
  · rw [← append_assoc, take_append_drop]
  · rename_i hempty
    rw [not_not.1 hempty, nil_append, nil_append, take_append_drop]

def reads : List (Nat × Nat) → BufferedConn → Bytes × BufferedConn
  | [], c => ([], c)
  | (n, arriving) :: rs, c =>
    ((c.read n arriving).1 ++ (reads rs (c.read n arriving).2).1, (reads rs (c.read n arriving).2).2)

theorem reads_append (rs : List (Nat × Nat)) (c : BufferedConn) :
    (reads rs c).1 ++ (reads rs c).2.stream = c.stream := by
  induction rs generalizing c with
  | nil => rfl
  | cons r rs ih => rw [reads, append_assoc, ih, read_append]

structure CanRead (c : BufferedConn) (text : Bytes) : Prop where
  start : ∀ rs, (reads rs c).1 <+: text
  all : ∃ rs, (reads rs c).1 = text

theorem canRead_stream : CanRead c c.stream := by
  refine ⟨fun rs => ⟨_, reads_append rs c⟩, ?_⟩
  obtain ⟨buffer, conn⟩ := c
  have hconn : (read ⟨[], conn⟩ conn.length conn.length).1 = conn := by
    simp only [read, ne_eq, not_true_eq_false, if_false]
    rw [Nat.min_eq_left (Nat.le_succ _), take_length]
  cases buffer with
  | nil =>
    refine ⟨[(conn.length, conn.length)], ?_⟩
    rw [reads, reads, append_nil, hconn]
    rfl
  | cons b bs =>
    refine ⟨[((b :: bs).length, 0), (conn.length, conn.length)], ?_⟩
    have hread : read ⟨b :: bs, conn⟩ (b :: bs).length 0 = (b :: bs, ⟨[], conn⟩) := by
      rw [read, if_pos (cons_ne_nil b bs), take_length, drop_length]
    rw [reads, hread, reads, reads, append_nil, hconn]
    rfl

end BufferedConn

inductive Route where
  | closed
  | tls (c : BufferedConn)
  | http (c : BufferedConn)
  | thrift (c : BufferedConn) (isCompact : Bool)
  deriving DecidableEq

def http2Magic : Bytes := [0x50, 0x52, 0x49, 0x20]

def verbMagics : List Bytes := [[0x47, 0x45, 0x54], [0x50, 0x4f, 0x53], [0x50, 0x55, 0x54], [0x44, 0x45, 0x4c]]

def classify (tlsConfig : Bool) (magic : Bytes) (c : BufferedConn) : Route :=
  if [0x16].isPrefixOf magic && tlsConfig then .tls c
  else if http2Magic.isPrefixOf magic then .http c
  else if [0x82].isPrefixOf magic then .thrift c true
  else if [0x80, 0x01].isPrefixOf magic then .thrift c false
  -- a framed message: the length, whose first two bytes have to be zero, and the protocol magic
  else if 6 ≤ magic.length && [0x00, 0x00].isPrefixOf magic && [0x82].isPrefixOf (magic.drop 4) then
    .thrift c true
  else if 6 ≤ magic.length && [0x00, 0x00].isPrefixOf magic &&
      [0x80, 0x01].isPrefixOf (magic.drop 4) then .thrift c false
  else if verbMagics.any fun verb => verb.isPrefixOf magic then .http c
  else .closed

def peek (available : Bytes) (n : Nat) : Option Bytes :=
  if n ≤ available.length then some (available.take n) else none

def sniffAndRoute (tlsConfig : Bool) (available later : Bytes) : Route :=
  match (peek available 8).or (peek available 4) with
  | none => .closed
  | some magic => classify tlsConfig magic ⟨available, later⟩

variable {available later : Bytes} {isCompact : Bool}

theorem sniffAndRoute_eight (h : 8 ≤ available.length) (tlsConfig : Bool) (later : Bytes) :
    sniffAndRoute tlsConfig available later = classify tlsConfig (available.take 8) ⟨available, later⟩ := by
  rw [sniffAndRoute, peek, if_pos h]
  rfl

theorem sniffAndRoute_of_classify {tlsConfig : Bool} {r : Route} (henough : 4 ≤ available.length)
    (h : ∀ k, 4 ≤ k → k ≤ available.length → classify tlsConfig (available.take k) ⟨available, later⟩ = r) :
    sniffAndRoute tlsConfig available later = r := by
  unfold sniffAndRoute peek
  by_cases height : 8 ≤ available.length
  · rw [if_pos height]
    exact h 8 (by decide) height
  · rw [if_neg height, if_pos henough]
    exact h 4 (le_refl 4) henough

theorem conn_of_sniffAndRoute {tlsConfig : Bool} {c : BufferedConn}
    (h : sniffAndRoute tlsConfig available later = .thrift c isCompact) : c = ⟨available, later⟩ := by
  unfold sniffAndRoute at h
  split at h
  · cases h
  · unfold classify at h
    split_ifs at h <;> exact (Route.thrift.inj h).1.symm

theorem take_of_append {stream : Bytes} {k : Nat} (h : available ++ later = stream) (hk : k ≤ available.length) :
    available.take k = stream.take k := by rw [← h, take_append_of_le_length hk]

theorem isPrefixOf_take {magic text : Bytes} {k : Nat} (h : magic.length ≤ k) :
    magic.isPrefixOf (text.take k) = magic.isPrefixOf text := by
  rw [Bool.eq_iff_iff, isPrefixOf_iff_prefix, isPrefixOf_iff_prefix, prefix_take_iff]
  exact ⟨And.left, fun hpre => ⟨hpre, h⟩⟩

inductive StartsMessage : Bool → Bytes → Prop
  | compact (rest : Bytes) : StartsMessage true (0x82 :: rest)
  | binary (rest : Bytes) : StartsMessage false (0x80 :: 0x01 :: rest)

/-- A connection is handed to the Thrift handler with a flag, and the handler can read all of it. -/
def HandsToThrift (tlsConfig : Bool) (available later : Bytes) (isCompact : Bool) : Prop :=
  ∃ c, sniffAndRoute tlsConfig available later = .thrift c isCompact ∧ c.CanRead (available ++ later)

theorem classify_framed {b3 : UInt8} (hb3 : b3.toNat < 128) (b2 b1 b0 : UInt8) {first : Bytes}
    (hstart : StartsMessage isCompact first) (hfirst : 2 ≤ first.length) (tlsConfig : Bool) (c : BufferedConn) :
    classify tlsConfig (b3 :: b2 :: b1 :: b0 :: first) c = .thrift c isCompact ↔ b3 = 0 ∧ b2 = 0 := by
  have hcompact : (0x82 == b3) = false := by
    refine beq_false_of_ne ?_
    rintro rfl
    exact absurd hb3 (by decide)
  have hbinary : (0x80 == b3) = false := by
    refine beq_false_of_ne ?_
    rintro rfl
    exact absurd hb3 (by decide)
  constructor
  · -- without two zero bytes none of the Thrift branches is left
    intro h
    by_contra hzero
    have hframed : ([0x00, 0x00] : Bytes).isPrefixOf (b3 :: b2 :: b1 :: b0 :: first) = false := by
      rw [Bool.eq_false_iff]
      intro hprefixed
      simp only [isPrefixOf, Bool.and_true, Bool.and_eq_true, beq_iff_eq] at hprefixed
      exact hzero ⟨hprefixed.1.symm, hprefixed.2.symm⟩
    simp only [classify, hframed, Bool.and_false, Bool.false_and, Bool.false_eq_true, if_false] at h
    simp only [isPrefixOf, hcompact, hbinary, Bool.false_and, Bool.false_eq_true, if_false] at h
    split at h
    · cases h
    · split at h
      · cases h
      · split at h
        all_goals cases h
  · rintro ⟨rfl, rfl⟩
    cases hstart with
    | compact rest =>
      cases rest with
      | nil => exact absurd hfirst (by decide)
      | cons b rest => simp [classify, http2Magic, isPrefixOf]
    | binary rest => simp [classify, http2Magic, isPrefixOf]

theorem bigEndian_four (n : Nat) : bigEndian 4 n = [UInt8.ofNat (n / 256 / 256 / 256),
    UInt8.ofNat (n / 256 / 256), UInt8.ofNat (n / 256), UInt8.ofNat n] := rfl

theorem ofNat_eq_zero_iff {n : Nat} : UInt8.ofNat n = 0 ↔ n % 256 = 0 := by
  rw [← UInt8.toNat_inj, UInt8.toNat_ofNat']
  rfl

/-- A connection that starts with a frame of `n` bytes is handed to the Thrift
handler with the flag of its protocol if and only if `n` is below `2 ^ 16`. -/
theorem sniffs_framed_iff {n : Nat} (hmin : 6 ≤ n) (hmax : n < 2 ^ 31) {isCompact : Bool} {message : Bytes}
    (hstart : StartsMessage isCompact message) (hlength : n ≤ message.length) {available later : Bytes}
    (hstream : available ++ later = bigEndian 4 n ++ message) (henough : 8 ≤ available.length) (tlsConfig : Bool) :
    HandsToThrift tlsConfig available later isCompact ↔ n < 2 ^ 16 := by
  -- the eight bytes that are looked at are the length and the first four of the message
  have hmagic : available.take 8 = bigEndian 4 n ++ message.take 4 := by
    rw [take_of_append hstream henough, take_append,
      length_bigEndian, take_of_length_le (by rw [length_bigEndian]; omega)]
  have hfirst : StartsMessage isCompact (message.take 4) := by
    cases hstart with
    | compact rest => exact .compact _
    | binary rest => exact .binary _
  have hbyte : (UInt8.ofNat (n / 256 / 256 / 256)).toNat < 128 := by
    rw [UInt8.toNat_ofNat']
    omega
  have hclassify := classify_framed hbyte (UInt8.ofNat (n / 256 / 256)) (UInt8.ofNat (n / 256))
    (UInt8.ofNat n) hfirst (by rw [length_take]; omega) tlsConfig ⟨available, later⟩
  have hroute : HandsToThrift tlsConfig available later isCompact ↔
      sniffAndRoute tlsConfig available later = .thrift ⟨available, later⟩ isCompact := by
    constructor
    · rintro ⟨c, hc, -⟩
      rw [hc]
      have hconn : c = ⟨available, later⟩ := conn_of_sniffAndRoute hc
      rw [hconn]
    · intro h
      exact ⟨_, h, BufferedConn.canRead_stream _⟩
  -- the two highest bytes of the length are zero exactly if it is below `2 ^ 16`
  rw [hroute, sniffAndRoute_eight henough, hmagic, bigEndian_four]
  refine hclassify.trans ?_
  rw [ofNat_eq_zero_iff, ofNat_eq_zero_iff]
  omega

def pingMessage : Bytes := [0x82, 0x21, 0x01, 0x04, 0x70, 0x69, 0x6e, 0x67, 0x00]

theorem sniffs_framed_iff_ping : HandsToThrift true (frame pingMessage) [] true :=
  have hstream : frame pingMessage ++ [] = bigEndian 4 9 ++ pingMessage := rfl
  (sniffs_framed_iff (by decide) (by decide) (.compact _) (by decide) hstream (by decide) true).2
    (by decide)

theorem long_message_closed :
    (∀ tlsConfig later, sniffAndRoute tlsConfig (bigEndian 4 65536 ++ pingMessage.take 4) later = .closed) ∧
      ∀ tlsConfig later, ¬ HandsToThrift tlsConfig (bigEndian 4 65536 ++ pingMessage.take 4) later true := by
  have hclosed : ∀ tlsConfig later,
      sniffAndRoute tlsConfig (bigEndian 4 65536 ++ pingMessage.take 4) later = .closed := by
    intro tlsConfig later
    cases tlsConfig <;> rfl
  refine ⟨hclosed, ?_⟩
  rintro tlsConfig later ⟨c, hc, -⟩
  cases (hclosed tlsConfig later).symm.trans hc

theorem sniffs_unframed {message : Bytes} (hstart : StartsMessage isCompact message) {more : Bytes}
    (hstream : available ++ later = message ++ more) (henough : 4 ≤ available.length) (tlsConfig : Bool) :
    sniffAndRoute tlsConfig available later = .thrift ⟨available, later⟩ isCompact := by
  refine sniffAndRoute_of_classify henough fun k hk hle => ?_
  obtain ⟨k, rfl⟩ : ∃ j, k = j + 2 := ⟨k - 2, by omega⟩
  rw [take_of_append hstream hle]
  cases hstart <;> simp [classify, http2Magic, isPrefixOf]

end HelixRpc.Runtime.Go
