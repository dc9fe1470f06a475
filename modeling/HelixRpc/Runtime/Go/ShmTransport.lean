import HelixRpc.Foundation.Framing
import HelixRpc.Foundation.Machine

/-!
# The shared-memory connections of the Go and Rust runtimes

Model of `SHMConn` (`runtimes/go/shm_transport.go`) and of `ShmConn` (`runtimes/rust/src/shm_transport.rs`).
-/

namespace HelixRpc.Runtime.Go.Shm

open Foundation List

structure Header where
  offset : Nat
  length : Nat
  deriving DecidableEq

structure Conn where
  mmapData : Bytes
  writing : Option Header
  signal : List Header
  reading : Option Header

def newConn (size : Nat) : Conn := ⟨replicate size 0, none, [], none⟩

inductive Event where
  | write (b : Bytes)
  | notify
  | take
  | copy (size : Nat)

inductive Report where
  | wrote (b : Bytes)
  | read (b : Bytes)
  | failed
  | panicked
  deriving DecidableEq

def wrap (n : Nat) : Nat := n % 2 ^ 32

variable (s : Conn)

def Conn.copy (header : Header) (size : Nat) : Report :=
  let stop := wrap (header.offset + header.length)
  if s.mmapData.length < stop then .failed
  else if stop < header.offset then .panicked
  else .read (((s.mmapData.take stop).drop header.offset).take size)

def Conn.next : Event → Option (Conn × Option Report)
  | .write b =>
    if s.writing = none then
      let length := wrap b.length
      if s.mmapData.length < length then some (s, some .failed)
      else some ({ s with mmapData := b.take length ++ s.mmapData.drop length, writing := some ⟨0, length⟩ },
        some (.wrote b))
    else none
  | .notify => s.writing.map fun header => ({ s with writing := none, signal := s.signal ++ [header] }, none)
  | .take =>
    match s.reading, s.signal with
    | none, header :: signal => some ({ s with signal := signal, reading := some header }, none)
    | _, _ => none
  | .copy size => s.reading.map fun header => ({ s with reading := none }, some (s.copy header size))

def conn : Machine Conn Event (Option Report) := fun s e => (s.next e).getD (s, none)

variable (reports : List (Option Report))

def written : Bytes := reports.flatMap fun
    | some (.wrote b) => b
    | _ => []

def bytesRead : Bytes := reports.flatMap fun
    | some (.read b) => b
    | _ => []

def Conn.pending : List Header := s.reading.toList ++ s.signal ++ s.writing.toList

/-- The two sides take turns: `Write` finds everything read, and `Read` brings a buffer that is large enough. -/
def Conn.Turn : Event → Prop
  | .write b => s.pending = [] ∧ b.length < 2 ^ 32
  | .copy size => ∀ header ∈ s.reading, header.length ≤ size
  | _ => True

structure Ledger (reports : List (Option Report)) (s : Conn) : Prop where
  single : s.pending.length ≤ 1
  header : ∀ h ∈ s.pending, h.offset = 0 ∧ h.length ≤ s.mmapData.length ∧ h.length < 2 ^ 32
  bytes : bytesRead reports ++ s.pending.flatMap (fun h => s.mmapData.take h.length) = written reports

theorem written_snoc (report : Option Report) :
    written (reports ++ [report]) = written reports ++ written [report] := by simp [written]

theorem bytesRead_snoc (report : Option Report) :
    bytesRead (reports ++ [report]) = bytesRead reports ++ bytesRead [report] := by simp [bytesRead]

variable {reports : List (Option Report)} {s : Conn}

theorem Ledger.quiet {s s' : Conn} {report : Option Report} (h : Ledger reports s)
    (hpending : s'.pending = s.pending) (hdata : s'.mmapData = s.mmapData) (hwritten : written [report] = [])
    (hread : bytesRead [report] = []) : Ledger (reports ++ [report]) s' := by
  refine ⟨hpending ▸ h.single, ?_, ?_⟩
  · rw [hpending, hdata]
    exact h.header
  · rw [hpending, hdata, bytesRead_snoc, written_snoc, hwritten, hread, append_nil, append_nil]
    exact h.bytes

theorem Ledger.write (h : Ledger reports s) (hempty : s.pending = []) {b : Bytes} (hlength : b.length < 2 ^ 32) :
    Ledger (reports ++ [some (.wrote b)]) { s with
      mmapData := b.take (wrap b.length) ++ s.mmapData.drop (wrap b.length)
      writing := some ⟨0, wrap b.length⟩ } := by
  obtain ⟨hbefore, hwriting⟩ := append_eq_nil_iff.1 hempty
  have hbytes := h.bytes
  rw [wrap, Nat.mod_eq_of_lt hlength, take_length] at *
  have hpending : Conn.pending { s with
      mmapData := b ++ s.mmapData.drop b.length, writing := some ⟨0, b.length⟩ } = [⟨0, b.length⟩] := by
    simp [Conn.pending, hbefore]
  refine ⟨Nat.le_of_eq (congrArg List.length hpending), ?_, ?_⟩
  · rw [hpending]
    simp only [mem_singleton, forall_eq, length_append, length_drop]
    exact ⟨trivial, Nat.le_add_right _ _, hlength⟩
  · rw [hempty, flatMap_nil, append_nil] at hbytes
    rw [hpending, bytesRead_snoc, written_snoc, hbytes]
    simp [bytesRead, written]

theorem Ledger.copy {mmapData : Bytes} {writing : Option Header} {signal : List Header} {header : Header}
    (h : Ledger reports ⟨mmapData, writing, signal, some header⟩) {size : Nat} (hsize : header.length ≤ size) : Ledger
    (reports ++ [some (Conn.copy ⟨mmapData, writing, signal, some header⟩ header size)]) ⟨mmapData, writing, signal,
    none⟩ := by
  obtain ⟨hzero, hroom, hlength⟩ := h.header header mem_cons_self
  have hrest : signal ++ writing.toList = [] := length_eq_zero_iff.1 (Nat.le_zero.1 (Nat.le_of_succ_le_succ h.single))
  have hcopy : Conn.copy ⟨mmapData, writing, signal, some header⟩ header size = .read (mmapData.take header.length) := by
    simp only [Conn.copy, wrap, hzero, Nat.zero_add, Nat.mod_eq_of_lt hlength, drop_zero]
    rw [if_neg (Nat.not_lt.2 hroom), if_neg (Nat.not_lt_zero _), take_take, Nat.min_eq_right hsize]
  have hpending : Conn.pending ⟨mmapData, writing, signal, none⟩ = [] := hrest
  have hbytes := h.bytes
  refine ⟨by simp [hpending], by simp [hpending], ?_⟩
  rw [hpending, hcopy, bytesRead_snoc, written_snoc, ← hbytes]
  simp [Conn.pending, hrest, bytesRead, written]

theorem Ledger.step (h : Ledger reports s) {e : Event} (hturn : s.Turn e) :
    Ledger (reports ++ [(conn s e).2]) (conn s e).1 := by
  have hstay : Ledger (reports ++ [none]) s := h.quiet rfl rfl rfl rfl
  obtain ⟨mmapData, writing, signal, reading⟩ := s
  unfold conn Conn.next
  cases e with
  | write b =>
    obtain ⟨hempty, hlength⟩ := hturn
    dsimp only
    split_ifs with hwriting hroom
    · exact h.quiet rfl rfl rfl rfl
    · exact h.write hempty hlength
    · exact hstay
  | notify =>
    cases writing with
    | none => exact hstay
    | some header => exact h.quiet (by simp [Conn.pending]) rfl rfl rfl
  | take =>
    cases reading with
    | some header => exact hstay
    | none =>
      cases signal with
      | nil => exact hstay
      | cons header signal => exact h.quiet (by simp [Conn.pending]) rfl rfl rfl
  | copy size =>
    cases reading with
    | none => exact hstay
    | some header => exact h.copy (hturn header rfl)

/-- While the two sides take turns, the bytes that `Read` returns are a prefix of those that were written, and
the rest waits in the mapping. -/
theorem shm_in_order (size : Nat) (events : List Event) (h : conn.AllSteps Conn.Turn (newConn size) events) :
    let reports := conn.answers (newConn size) events
    let s := conn.after (newConn size) events
    bytesRead reports <+: written reports ∧
      bytesRead reports ++ s.pending.flatMap (fun header => s.mmapData.take header.length) = written reports := by
  intro reports s
  have hledger : Ledger reports s :=
    h.ledger (fun reports s e (hs : Ledger reports s) hturn => hs.step hturn) [] ⟨Nat.zero_le 1, nofun, rfl⟩
  exact ⟨⟨_, hledger.bytes⟩, hledger.bytes⟩

theorem shm_in_order_twice :
    let reports := conn.answers (newConn 4)
      [.write [1, 2], .notify, .take, .copy 2, .write [3], .notify, .take, .copy 4]
    bytesRead reports = [1, 2, 3] ∧ bytesRead reports <+: written reports := by
  refine ⟨by decide, (shm_in_order 4 [.write [1, 2], .notify, .take, .copy 2, .write [3], .notify, .take, .copy 4] ?_).1⟩
  refine ⟨⟨rfl, by decide⟩, trivial, trivial, ?_, ⟨rfl, by decide⟩, trivial, trivial, ?_, trivial⟩
  · rintro header ⟨⟩
    decide
  · rintro header ⟨⟩
    decide

theorem shm_overwritten :
    let early := conn.answers (newConn 4) [.write [1, 2], .notify, .write [3], .notify, .take, .copy 4, .take, .copy 4]
    let short := conn.answers (newConn 4) [.write [1, 2], .notify, .take, .copy 1, .write [3], .notify, .take, .copy 1]
    (written early = [1, 2, 3] ∧ bytesRead early = [3, 2, 3]) ∧
      written short = [1, 2, 3] ∧ bytesRead short = [1, 3] := by decide

def headerOf (bytes : Bytes) : Header := ⟨ofBigEndian (bytes.take 4), ofBigEndian ((bytes.drop 4).take 4)⟩

/-- `Read` with this header returns an error, or copies from a range inside of the mapping. -/
def Conn.ReadSafe (header : Header) (size : Nat) : Prop :=
  s.copy header size = .failed ∨ (header.offset + header.length ≤ s.mmapData.length ∧
    s.copy header size = .read (((s.mmapData.drop header.offset).take header.length).take size))

theorem headerOf_lt {bytes : Bytes} (h : bytes.length = 8) :
    (headerOf bytes).offset < 2 ^ 32 ∧ (headerOf bytes).length < 2 ^ 32 := by
  have hoffset := ofBigEndian_lt (bytes.take 4)
  have hlength := ofBigEndian_lt ((bytes.drop 4).take 4)
  rw [length_take, h] at hoffset
  rw [length_take, length_drop, h] at hlength
  exact ⟨hoffset, hlength⟩

/-- `Read` is safe for a header exactly if the sum of offset and length does not wrap around to a place
inside of the mapping. -/
theorem read_safe_iff (s : Conn) (bytes : Bytes) (hbytes : bytes.length = 8) (size : Nat) :
    s.ReadSafe (headerOf bytes) size ↔ ¬ (2 ^ 32 ≤ (headerOf bytes).offset + (headerOf bytes).length ∧
      (headerOf bytes).offset + (headerOf bytes).length - 2 ^ 32 ≤ s.mmapData.length) := by
  obtain ⟨hoffset, hlength⟩ := headerOf_lt hbytes
  generalize headerOf bytes = header at hoffset hlength ⊢
  by_cases hwrap : 2 ^ 32 ≤ header.offset + header.length
  · have hstop : wrap (header.offset + header.length) = header.offset + header.length - 2 ^ 32 := by
      rw [wrap]
      omega
    by_cases hroom : header.offset + header.length - 2 ^ 32 ≤ s.mmapData.length
    · -- the slice begins behind its end
      have hcopy : s.copy header size = .panicked := by
        simp only [Conn.copy, hstop]
        rw [if_neg (Nat.not_lt.2 hroom), if_pos (by omega)]
      refine ⟨fun h => ?_, fun h => absurd ⟨hwrap, hroom⟩ h⟩
      rw [Conn.ReadSafe, hcopy] at h
      rcases h with h | ⟨-, h⟩
      all_goals cases h
    · have hcopy : s.copy header size = .failed := by
        simp only [Conn.copy, hstop]
        exact if_pos (Nat.not_le.1 hroom)
      exact ⟨fun _ h => hroom h.2, fun _ => .inl hcopy⟩
  · have hstop : wrap (header.offset + header.length) = header.offset + header.length :=
      Nat.mod_eq_of_lt (Nat.not_le.1 hwrap)
    refine ⟨fun _ h => hwrap h.1, fun _ => ?_⟩
    simp only [Conn.ReadSafe, Conn.copy, hstop]
    by_cases hroom : s.mmapData.length < header.offset + header.length
    · exact .inl (if_pos hroom)
    · refine .inr ⟨Nat.not_lt.1 hroom, ?_⟩
      rw [if_neg hroom, if_neg (Nat.not_lt.2 (Nat.le_add_right _ _)), drop_take, Nat.add_sub_cancel_left]

theorem read_safe_iff_whole : (newConn 4).ReadSafe (headerOf [0, 0, 0, 0, 0, 0, 0, 4]) 4 :=
  (read_safe_iff (newConn 4) [0, 0, 0, 0, 0, 0, 0, 4] rfl 4).2 (by decide)

theorem read_panics : (newConn 4).copy (headerOf [255, 255, 255, 255, 0, 0, 0, 1]) 4 = .panicked := by decide

/-- `read_payload` of Rust, with 64 bits in a `usize`. -/
def Conn.readPayload (s : Conn) (header : Header) : Report :=
  if s.mmapData.length < (header.offset + header.length) % 2 ^ 64 then .failed
  -- the copy is unsafe and checks nothing
  else if s.mmapData.length < header.offset + header.length then .panicked
  else .read ((s.mmapData.drop header.offset).take header.length)

/-- `write_payload` of Rust, up to the header that it sends. -/
def Conn.writePayload (s : Conn) (payload : Bytes) : Option (Conn × Option Report) :=
  if s.writing = none then
    if s.mmapData.length < payload.length then some (s, some .failed)
    else some ({ s with mmapData := payload ++ s.mmapData.drop payload.length, writing := some ⟨0, wrap payload.length⟩ },
      some (.wrote payload))
  else none

/-- Two connections, where the writer or the reader may be Rust. -/
def pair (writer reader : Bool) : Machine Conn Event (Option Report) := fun s e =>
  match e with
  | .write b => if writer then (s.writePayload b).getD (s, none) else conn s e
  | .copy _ =>
    if reader then (s.reading.map fun header => ({ s with reading := none }, some (s.readPayload header))).getD (s, none)
    else conn s e
  | _ => conn s e

/-- The turns of a pair; `read_payload` brings its own buffer. -/
def Conn.PairTurn (reader : Bool) (s : Conn) : Event → Prop
  | .copy size => reader = false → s.Turn (.copy size)
  | e => s.Turn e

theorem readPayload_eq {header : Header} (hsum : header.offset + header.length < 2 ^ 32) :
    s.readPayload header = s.copy header header.length := by
  have hmod : (header.offset + header.length) % 2 ^ 64 = header.offset + header.length := Nat.mod_eq_of_lt (by omega)
  simp only [Conn.readPayload, Conn.copy, wrap, Nat.mod_eq_of_lt hsum, hmod]
  split_ifs with hroom hstop
  · rfl
  · omega
  · rw [drop_take, Nat.add_sub_cancel_left, take_take, Nat.min_self]

/-- While the sides take turns, what a Rust side does is what a Go side would do. -/
theorem Ledger.exists_turn (h : Ledger reports s) (writer : Bool) {reader : Bool} {e : Event}
    (hturn : s.PairTurn reader e) : ∃ e', s.Turn e' ∧ pair writer reader s e = conn s e' := by
  cases e with
  | write b =>
    have hwrap : wrap b.length = b.length := Nat.mod_eq_of_lt hturn.2
    exact ⟨.write b, hturn, by simp [pair, conn, Conn.writePayload, Conn.next, hwrap]⟩
  | copy size =>
    cases reader with
    | false => exact ⟨.copy size, hturn rfl, rfl⟩
    | true =>
      cases hreading : s.reading with
      | none => exact ⟨.copy size, by simp [Conn.Turn, hreading], by simp [pair, conn, Conn.next, hreading]⟩
      | some header =>
        obtain ⟨hzero, -, hlength⟩ := h.header header (by simp [Conn.pending, hreading])
        have hcopy : s.readPayload header = s.copy header header.length := readPayload_eq (by omega)
        exact ⟨.copy header.length, by simp [Conn.Turn, hreading], by simp [pair, conn, Conn.next, hreading, hcopy]⟩
  | notify => exact ⟨.notify, trivial, rfl⟩
  | take => exact ⟨.take, trivial, rfl⟩

/-- Go and Rust understand each other: while the sides take turns, what was read, and then what waits in the mapping,
is what was written. -/
theorem pair_in_order (writer reader : Bool) (size : Nat) (events : List Event)
    (h : (pair writer reader).AllSteps (Conn.PairTurn reader) (newConn size) events) :
    let reports := (pair writer reader).answers (newConn size) events
    let s := (pair writer reader).after (newConn size) events
    bytesRead reports ++ s.pending.flatMap (fun header => s.mmapData.take header.length) = written reports := by
  intro reports s
  have hstart : Ledger [] (newConn size) := ⟨Nat.zero_le 1, by simp [newConn, Conn.pending], rfl⟩
  have hledger : Ledger reports s := by
    refine h.ledger (fun reports s e (hs : Ledger reports s) hturn => ?_) [] hstart
    obtain ⟨e', hturn', heq⟩ := hs.exists_turn writer hturn
    rw [heq]
    exact hs.step hturn'
  exact hledger.bytes

theorem pair_in_order_rust : let reports := (pair false true).answers (newConn 4) [.write [1, 2], .notify, .take, .copy 0]
    bytesRead reports = [1, 2] ∧ bytesRead reports ++ [] = written reports :=
  ⟨by decide, pair_in_order false true 4 _ ⟨⟨rfl, by decide⟩, trivial, trivial, by rintro ⟨⟩, trivial⟩⟩

end HelixRpc.Runtime.Go.Shm
