import HelixRpc.Foundation.ThriftMessage
import HelixRpc.Runtime.Go.Sniffer
import Mathlib.Data.Fintype.BigOperators

/-!
# Thrift connections of the Go server

Model of the Thrift callback of `Server.Start` (`runtimes/go/grpc_handler.go`).
-/

namespace HelixRpc.Runtime.Go

open Foundation List Function
open Relation (ReflTransGen)

/-- A processor, as far as the loop sees it: whether `Process` returns `true` and no error for the last
of the messages that it has received. -/
abbrev Processor := List Bytes → Bool

structure ConnState (ι : Type) where
  unread : Bytes
  takenBy : List ι
  buffer : ι → Bytes
  received : ι → List Bytes
  running : ι → Bool
  closed : Bool

namespace ConnState

variable {ι : Type} [DecidableEq ι]

def read (s : ConnState ι) (i : ι) (k : Nat) : ConnState ι := { s with
    unread := s.unread.drop k
    takenBy := s.takenBy ++ replicate k i
    buffer := update s.buffer i (s.buffer i ++ s.unread.take k) }

def receive (s : ConnState ι) (i : ι) (payload rest : Bytes) : ConnState ι := { s with
    buffer := update s.buffer i rest
    received := update s.received i (s.received i ++ [payload]) }

def stop (s : ConnState ι) (i : ι) : ConnState ι := { s with running := update s.running i false, closed := true }

end ConnState

/-- The callback of `Start`: one goroutine for each processor, or a closed connection during the
shutdown. -/
def thriftHandler (ι : Type) (inShutdown : Bool) (c : BufferedConn) : ConnState ι where
  unread := c.stream
  takenBy := []
  buffer := fun _ => []
  received := fun _ => []
  running := fun _ => !inShutdown
  closed := inShutdown

inductive Step {ι : Type} [DecidableEq ι] (maxSize : Nat) (processors : ι → Processor) :
    ConnState ι → ConnState ι → Prop
  | read {s : ConnState ι} {i : ι} {k : Nat} (hrun : s.running i = true) (hopen : s.closed = false)
      (hmore : readFrame maxSize (s.buffer i) = .more) (hpos : 0 < k) (hle : k ≤ s.unread.length) :
      Step maxSize processors s (s.read i k)
  | next {s : ConnState ι} {i : ι} {payload rest : Bytes} (hrun : s.running i = true)
      (hframe : readFrame maxSize (s.buffer i) = .frame payload rest)
      (hok : processors i (s.received i ++ [payload]) = true) :
      Step maxSize processors s (s.receive i payload rest)
  -- `Process` returns an error or `false`
  | last {s : ConnState ι} {i : ι} {payload rest : Bytes} (hrun : s.running i = true)
      (hframe : readFrame maxSize (s.buffer i) = .frame payload rest)
      (hfailed : processors i (s.received i ++ [payload]) = false) :
      Step maxSize processors s ((s.receive i payload rest).stop i)
  | refuse {s : ConnState ι} {i : ι} (hrun : s.running i = true)
      (hlong : readFrame maxSize (s.buffer i) = .tooLong) : Step maxSize processors s (s.stop i)
  -- the connection was closed by another goroutine
  | fail {s : ConnState ι} {i : ι} (hrun : s.running i = true) (hclosed : s.closed = true)
      (hmore : readFrame maxSize (s.buffer i) = .more) : Step maxSize processors s (s.stop i)

section
variable {ι : Type} [DecidableEq ι] {maxSize : Nat} {processors : ι → Processor} {s t : ConnState ι}

def Quiescent (maxSize : Nat) (processors : ι → Processor) (s : ConnState ι) : Prop :=
  ∀ t, ¬ Step maxSize processors s t

def load (s : ConnState ι) (i : ι) : Nat := (s.buffer i).length + (s.running i).toNat

def work [Fintype ι] (s : ConnState ι) : Nat := 2 * s.unread.length + ∑ i, load s i

theorem work_lt [Fintype ι] (i : ι) (hrest : ∀ j, j ≠ i → load t j = load s j)
    (h : 2 * t.unread.length + load t i < 2 * s.unread.length + load s i) : work t < work s := by
  have ht := Finset.add_sum_erase Finset.univ (load t) (Finset.mem_univ i)
  have hs := Finset.add_sum_erase Finset.univ (load s) (Finset.mem_univ i)
  have hrests : ∑ j ∈ Finset.univ.erase i, load t j = ∑ j ∈ Finset.univ.erase i, load s j :=
    Finset.sum_congr rfl fun j hj => hrest j (Finset.ne_of_mem_erase hj)
  rw [work, work]
  omega

variable {i : ι} {payload rest : Bytes} {messages : List Bytes}

theorem work_stop [Fintype ι] (hrun : s.running i = true) : work (s.stop i) < work s :=
  work_lt i (fun j hj => by simp [load, ConnState.stop, hj]) (by simp [load, ConnState.stop, hrun])

theorem work_receive [Fintype ι] (hframe : readFrame maxSize (s.buffer i) = .frame payload rest) :
    work (s.receive i payload rest) < work s := by
  refine work_lt i (fun j hj => by simp [load, ConnState.receive, hj]) ?_
  simp [load, ConnState.receive, (eq_of_readFrame hframe).1, length_frame]

theorem work_step [Fintype ι] (h : Step maxSize processors s t) : work t < work s := by
  cases h with
  | @read i k hrun hopen hmore hpos hle =>
    refine work_lt i (fun j hj => by simp [load, ConnState.read, hj]) ?_
    simp only [load, ConnState.read, update_self, length_append, length_take_of_le hle, length_drop]
    omega
  | next hrun hframe hok => exact work_receive hframe
  | last hrun hframe hfailed => exact (work_stop (s := s.receive _ _ _) hrun).trans (work_receive hframe)
  | refuse hrun hlong => exact work_stop hrun
  | fail hrun hclosed hmore => exact work_stop hrun

theorem exists_quiescent [Fintype ι] (s : ConnState ι) :
    ∃ t, ReflTransGen (Step maxSize processors) s t ∧ Quiescent maxSize processors t := by
  -- on the work that is left, which each step makes less
  induction hwork : work s using Nat.strong_induction_on generalizing s with
  | h n ih =>
    by_cases hquiet : Quiescent maxSize processors s
    · exact ⟨s, .refl, hquiet⟩
    · obtain ⟨u, hu⟩ := not_forall_not.1 hquiet
      obtain ⟨t, hrun, ht⟩ := ih (work u) (hwork ▸ work_step hu) u rfl
      exact ⟨t, .head hu hrun, ht⟩

/-- What a goroutine that is alone keeps: the messages that it has received, its buffer and the rest of
the connection are the stream. -/
structure InOrder (maxSize : Nat) (stream : Bytes) (i : ι) (s : ConnState ι) : Prop where
  stream_eq : (s.received i).flatMap frame ++ s.buffer i ++ s.unread = stream
  short : ∀ payload ∈ s.received i, payload.length ≤ maxSize
  running_eq : s.running i = !s.closed

variable {stream : Bytes} {i : ι}

omit [DecidableEq ι] in
theorem InOrder.running (h : InOrder maxSize stream i s) (hopen : s.closed = false) : s.running i = true := by
  rw [h.running_eq, hopen]
  rfl

theorem InOrder.read {k : Nat} (h : InOrder maxSize stream i s) : InOrder maxSize stream i (s.read i k) := by
  refine ⟨?_, h.short, h.running_eq⟩
  simp only [ConnState.read, update_self]
  rw [← append_assoc, append_assoc _ (s.unread.take k), take_append_drop, h.stream_eq]

theorem InOrder.receive (h : InOrder maxSize stream i s)
    (hframe : readFrame maxSize (s.buffer i) = .frame payload rest) :
    InOrder maxSize stream i (s.receive i payload rest) := by
  obtain ⟨hbuffer, hpayload⟩ := eq_of_readFrame hframe
  refine ⟨?_, ?_, h.running_eq⟩
  · have hstream := h.stream_eq
    rw [hbuffer] at hstream
    simp only [ConnState.receive, update_self, flatMap_append, flatMap_cons, flatMap_nil, append_nil]
    rw [← hstream, append_assoc, append_assoc, append_assoc, append_assoc]
  · intro p hp
    simp only [ConnState.receive, update_self, mem_append, mem_singleton] at hp
    rcases hp with hp | rfl
    · exact h.short p hp
    · exact hpayload

theorem InOrder.stop (h : InOrder maxSize stream i s) : InOrder maxSize stream i (s.stop i) := by
  refine ⟨h.stream_eq, h.short, ?_⟩
  simp [ConnState.stop]

theorem InOrder.step [Subsingleton ι] (h : InOrder maxSize stream i s)
    (hstep : Step maxSize processors s t) : InOrder maxSize stream i t := by
  cases hstep with
  | @read j k hrun hopen hmore hpos hle =>
    rw [Subsingleton.elim j i]
    exact h.read
  | @next j payload rest hrun hframe hok =>
    rw [Subsingleton.elim j i] at hframe ⊢
    exact h.receive hframe
  | @last j payload rest hrun hframe hfailed =>
    rw [Subsingleton.elim j i] at hframe ⊢
    exact (h.receive hframe).stop
  | @refuse j hrun hlong =>
    rw [Subsingleton.elim j i]
    exact h.stop
  | @fail j hrun hclosed hmore =>
    rw [Subsingleton.elim j i]
    exact h.stop

theorem InOrder.run [Subsingleton ι] (h : InOrder maxSize stream i s)
    (hrun : ReflTransGen (Step maxSize processors) s t) : InOrder maxSize stream i t := by
  induction hrun with
  | refl => exact h
  | tail _ hstep ih => exact ih.step hstep

omit [DecidableEq ι] in
theorem inOrder_thriftHandler (maxSize : Nat) (i : ι) (c : BufferedConn) :
    InOrder maxSize c.stream i (thriftHandler ι false c) :=
  ⟨rfl, fun _ h => absurd h (not_mem_nil), rfl⟩

theorem waiting_of_quiescent (hquiet : Quiescent maxSize processors s) (hrun : s.running i = true)
    (hopen : s.closed = false) : s.unread = [] ∧ ∀ p r, readFrame maxSize (s.buffer i) ≠ .frame p r := by
  have hframe : ∀ p r, readFrame maxSize (s.buffer i) ≠ .frame p r := by
    intro p r hframe
    cases hok : processors i (s.received i ++ [p]) with
    | true => exact hquiet _ (.next hrun hframe hok)
    | false => exact hquiet _ (.last hrun hframe hok)
  refine ⟨?_, hframe⟩
  by_contra hunread
  -- with bytes left to read the goroutine could take a step, whatever is in its buffer
  cases hread : readFrame maxSize (s.buffer i) with
  | more =>
    have hpos : 0 < s.unread.length := length_pos_iff.2 hunread
    exact hquiet _ (.read hrun hopen hread Nat.one_pos hpos)
  | tooLong => exact hquiet _ (.refuse hrun hread)
  | frame p r => exact hframe p r hread

theorem open_of_quiescent (hquiet : Quiescent maxSize processors s) (hrun : s.running i = true) : s.closed = false := by
  by_contra hclosed
  cases hread : readFrame maxSize (s.buffer i) with
  -- on a closed connection no read waits
  | more => exact hquiet _ (.fail hrun (Bool.of_not_eq_false hclosed) hread)
  | tooLong => exact hquiet _ (.refuse hrun hread)
  | frame p r =>
    cases hok : processors i (s.received i ++ [p]) with
    | true => exact hquiet _ (.next hrun hread hok)
    | false => exact hquiet _ (.last hrun hread hok)

/-- However the goroutines of a connection interleave, they come to rest, and then each has returned or waits behind
all that the client has sent. -/
theorem thrift_connection_ends [Fintype ι] (maxSize : Nat) (processors : ι → Processor) :
    WellFounded (flip (Step maxSize processors)) ∧ ∀ s, ∃ t, ReflTransGen (Step maxSize processors) s t ∧
      Quiescent maxSize processors t ∧ ∀ i, t.running i = true → t.closed = false ∧ t.unread = [] := by
  refine ⟨Subrelation.wf work_step (measure work).wf, fun s => ?_⟩
  obtain ⟨t, hrun, hquiet⟩ : ∃ t, ReflTransGen (Step maxSize processors) s t ∧ Quiescent maxSize processors t :=
    exists_quiescent s
  refine ⟨t, hrun, hquiet, fun i hrunning => ?_⟩
  have hopen := open_of_quiescent hquiet hrunning
  exact ⟨hopen, (waiting_of_quiescent hquiet hrunning hopen).1⟩

omit [DecidableEq ι] in
theorem InOrder.split (hmax : maxSize < 2 ^ 32) (hmessages : ∀ m ∈ messages, m.length ≤ maxSize)
    (h : InOrder maxSize (messages.flatMap frame) i s) :
    ∃ later, messages = s.received i ++ later ∧ s.buffer i ++ s.unread = later.flatMap frame := by
  refine flatMap_frame_split hmax hmessages h.short ?_
  rw [← h.stream_eq, append_assoc]

theorem InOrder.received_eq (hmax : maxSize < 2 ^ 32) (hmessages : ∀ m ∈ messages, m.length ≤ maxSize)
    (h : InOrder maxSize (messages.flatMap frame) i s) (hquiet : Quiescent maxSize processors s)
    (hopen : s.closed = false) : s.received i = messages := by
  obtain ⟨hunread, hframe⟩ := waiting_of_quiescent hquiet (h.running hopen) hopen
  obtain ⟨later, rfl, hlater⟩ := h.split hmax hmessages
  cases later with
  | nil => rw [append_nil]
  | cons m ms =>
    have hm := hmessages m (mem_append_right _ mem_cons_self)
    rw [hunread, append_nil, flatMap_cons] at hlater
    rw [hlater, readFrame_frame hm hmax] at hframe
    exact absurd rfl (hframe m _)

theorem quiescent_of_waiting (hopen : s.closed = false) (hunread : s.unread = [])
    (hmore : ∀ i, readFrame maxSize (s.buffer i) = .more) : Quiescent maxSize processors s := by
  intro t hstep
  cases hstep with
  | read hrun _ hread hpos hle =>
    rw [hunread] at hle
    exact absurd hle (Nat.not_le.2 hpos)
  | next hrun hframe hok => cases (hmore _).symm.trans hframe
  | last hrun hframe hfailed => cases (hmore _).symm.trans hframe
  | refuse hrun hlong => cases (hmore _).symm.trans hlong
  | fail hrun hclosed hread => cases hopen.symm.trans hclosed
end

def IsMessage (maxSize : Nat) (isCompact : Bool) (message : Bytes) : Prop :=
  StartsMessage isCompact message ∧ message.length ≤ maxSize

def connOf (messages : List Bytes) : BufferedConn := ⟨[], messages.flatMap frame⟩

def ReceivedWhole {ι : Type} [DecidableEq ι] (messages : List Bytes) (s : ConnState ι) : Prop :=
  ∃ owners : List ι, owners.length = messages.length ∧
    ∀ i, s.received i = ((owners.zip messages).filter fun p => p.1 = i).map Prod.snd

def ReadApart {ι : Type} (messages : List Bytes) (s : ConnState ι) : Prop :=
  ∀ earlier message later, messages = earlier ++ message :: later →
    ∀ p q, p < (frame message).length → q < (frame message).length → ∀ i j,
      s.takenBy[(earlier.flatMap frame).length + p]? = some i →
      s.takenBy[(earlier.flatMap frame).length + q]? = some j → i = j

structure OneProcessor (maxSize : Nat) (isCompact : Bool) (processors : List Processor) : Prop where
  whole : ∀ messages, (∀ m ∈ messages, IsMessage maxSize isCompact m) → ∀ s,
    ReflTransGen (Step maxSize processors.get) (thriftHandler _ false (connOf messages)) s →
    Quiescent maxSize processors.get s → s.closed = false → ReceivedWhole messages s
  apart : ∀ messages, (∀ m ∈ messages, IsMessage maxSize isCompact m) → ∀ s,
    ReflTransGen (Step maxSize processors.get) (thriftHandler _ false (connOf messages)) s → ReadApart messages s
  refused : processors = [] → ∀ messages, (∀ m ∈ messages, IsMessage maxSize isCompact m) → ∀ s,
    ReflTransGen (Step maxSize processors.get) (thriftHandler _ false (connOf messages)) s →
    Quiescent maxSize processors.get s → s.closed = true

section
variable {maxSize : Nat} {isCompact : Bool}

theorem filter_zip_of_subsingleton {ι : Type} [DecidableEq ι] [Subsingleton ι] (i : ι) (messages : List Bytes) :
    (((replicate messages.length i).zip messages).filter fun p => p.1 = i).map Prod.snd = messages := by
  rw [filter_eq_self.2 fun p _ => decide_eq_true (Subsingleton.elim p.1 i)]
  exact map_snd_zip (by rw [length_replicate])

theorem oneProcessor_singleton (hmax : maxSize < 2 ^ 32) (p : Processor) : OneProcessor maxSize isCompact [p] := by
  have hsingle : Subsingleton (Fin [p].length) := inferInstanceAs (Subsingleton (Fin 1))
  have i : Fin [p].length := ⟨0, Nat.one_pos⟩
  refine ⟨?_, ?_, fun h => absurd h (cons_ne_nil p [])⟩
  · intro messages hmessages s hrun hquiet hopen
    have horder := (inOrder_thriftHandler maxSize i (connOf messages)).run hrun
    have hreceived := horder.received_eq hmax (fun m hm => (hmessages m hm).2) hquiet hopen
    refine ⟨replicate messages.length i, length_replicate, fun j => ?_⟩
    rw [Subsingleton.elim j i, hreceived, filter_zip_of_subsingleton]
  · intro messages _ s _ earlier message later _ p q _ _ j k _ _
    exact Subsingleton.elim j k

section
variable {ι : Type} [DecidableEq ι] {processors : ι → Processor} {i j : ι} {message : Bytes}

/-- The connection after one goroutine has read a frame but for its last byte, and another one this
byte. -/
def torn (i j : ι) (message : Bytes) : ConnState ι :=
  ((thriftHandler ι false (connOf [message])).read i ((frame message).length - 1)).read j 1

theorem unread_connOf (message : Bytes) : (connOf [message]).stream = frame message := by
  rw [BufferedConn.stream, connOf, nil_append, flatMap_cons, flatMap_nil, append_nil]

theorem run_torn (hij : i ≠ j) : ReflTransGen (Step maxSize processors)
    (thriftHandler ι false (connOf [message])) (torn i j message) := by
  have hempty : readFrame maxSize [] = .more := rfl
  refine .tail (.single (.read rfl rfl hempty ?_ ?_)) (.read rfl rfl ?_ Nat.one_pos ?_)
  · rw [length_frame]
    omega
  · rw [thriftHandler, unread_connOf]
    exact Nat.sub_le _ 1
  · simp only [ConnState.read, update_of_ne hij.symm]
    exact hempty
  · simp only [ConnState.read, thriftHandler, unread_connOf, length_drop, length_frame]
    omega

theorem quiescent_torn (hij : i ≠ j) (hsize : message.length ≤ maxSize) (hmax : maxSize < 2 ^ 32) :
    Quiescent maxSize processors (torn i j message) := by
  refine quiescent_of_waiting rfl ?_ ?_
  · simp only [torn, ConnState.read, thriftHandler, unread_connOf, drop_drop]
    refine drop_eq_nil_of_le ?_
    omega
  · intro k
    -- one byte, all bytes but one, or none
    by_cases hkj : k = j
    · have hshort : ((torn i j message).buffer k).length < 4 := by
        rw [hkj]
        simp only [torn, ConnState.read, update_self, update_of_ne hij.symm, thriftHandler, nil_append, length_take]
        omega
      rw [readFrame, if_pos hshort]
    · by_cases hki : k = i
      · rw [hki]
        simp only [torn, ConnState.read, update_of_ne hij, update_self, thriftHandler, nil_append, unread_connOf]
        refine readFrame_frame_take hsize hmax ?_
        rw [length_frame]
        omega
      · simp only [torn, ConnState.read, update_of_ne hkj, update_of_ne hki]
        rfl

theorem not_receivedWhole_torn : ¬ ReceivedWhole [message] (torn i j message) := by
  rintro ⟨owners, hlength, hreceived⟩
  obtain ⟨owner, rfl⟩ := length_eq_one_iff.1 hlength
  have hnone : (torn i j message).received owner = [] := rfl
  rw [hreceived owner] at hnone
  simp at hnone
end

def pingOf : Bool → Bytes
  | true => pingMessage
  | false => [0x80, 0x01, 0x00, 0x01, 0x00, 0x00, 0x00, 0x04, 0x70, 0x69, 0x6e, 0x67, 0x00, 0x00, 0x00, 0x01, 0x00]

theorem isMessage_pingOf (hmin : 17 ≤ maxSize) : IsMessage maxSize isCompact (pingOf isCompact) := by
  cases isCompact with
  | true => exact ⟨.compact _, le_trans (by decide) hmin⟩
  | false => exact ⟨.binary _, le_trans (by decide) hmin⟩

/-- All interleavings of the goroutines of a connection are as they
should be if and only if exactly one processor is registered. -/
theorem oneProcessor_iff (hmin : 17 ≤ maxSize) (hmax : maxSize < 2 ^ 31) (isCompact : Bool)
    (processors : List Processor) : OneProcessor maxSize isCompact processors ↔ processors.length = 1 := by
  constructor
  · intro h
    match processors, h with
    | [], h =>
      -- there is nobody to close the connection
      have hquiet : Quiescent maxSize (List.get ([] : List Processor)) (thriftHandler _ false (connOf [])) :=
        quiescent_of_waiting rfl rfl fun i => i.elim0
      cases h.refused rfl [] (fun m hm => absurd hm (not_mem_nil)) _ .refl hquiet
    | [_], _ => rfl
    | p :: q :: ps, h =>
      -- the first two goroutines tear a message apart
      have hij : (⟨0, by simp⟩ : Fin (p :: q :: ps).length) ≠ ⟨1, by simp⟩ := by
        intro heq
        cases congrArg Fin.val heq
      have hmessage : ∀ m ∈ [pingOf isCompact], IsMessage maxSize isCompact m := by
        intro m hm
        rw [mem_singleton.1 hm]
        exact isMessage_pingOf hmin
      have hsize := (hmessage _ (mem_singleton_self _)).2
      exact absurd (h.whole _ hmessage _ (run_torn hij) (quiescent_torn hij hsize (by omega)) rfl)
        not_receivedWhole_torn
  · intro hlength
    obtain ⟨p, rfl⟩ := length_eq_one_iff.1 hlength
    exact oneProcessor_singleton (by omega) p
end

theorem oneProcessor_iff_answering : OneProcessor 16384000 true [fun _ => true] :=
  (oneProcessor_iff (by decide) (by decide) true [fun _ => true]).2 rfl

theorem ping_lost : (∃ s, ReflTransGen (Step 16384000 (List.get [fun _ => true, fun _ => true]))
        (thriftHandler _ false (connOf [pingMessage])) s ∧
      Quiescent 16384000 (List.get [fun _ => true, fun _ => true]) s ∧ s.closed = false ∧ ∀ i, s.received i = []) ∧
    Quiescent 16384000 (List.get ([] : List Processor)) (thriftHandler _ false (connOf [pingMessage])) ∧
      (thriftHandler (Fin ([] : List Processor).length) false (connOf [pingMessage])).closed = false := by
  refine ⟨?_, ?_, rfl⟩
  · have hij : (0 : Fin 2) ≠ 1 := by decide
    exact ⟨torn 0 1 pingMessage, run_torn hij, quiescent_torn hij (by decide) (by decide), rfl, fun _ => rfl⟩
  · intro t hstep
    cases hstep with
    | @read i => exact i.elim0
    | @next i => exact i.elim0
    | @last i => exact i.elim0
    | @refuse i => exact i.elim0
    | @fail i => exact i.elim0

section
variable {maxSize : Nat} {isCompact : Bool} {message more : Bytes}

theorem toNat_head_frame {payload rest bs : Bytes} {b : UInt8} (hsize : payload.length < 2 ^ 31)
    (h : frame payload ++ rest = b :: bs) : b.toNat < 128 := by
  rw [frame, bigEndian_four, cons_append, cons_append] at h
  rw [← (cons.inj h).1, UInt8.toNat_ofNat']
  omega

theorem StartsMessage.head (h : StartsMessage isCompact message) : ∃ b bs, message = b :: bs ∧ 128 ≤ b.toNat := by
  cases h <;> exact ⟨_, _, rfl, by decide⟩

theorem unframed_refused (hstart : StartsMessage isCompact message) (hlength : 4 ≤ (message ++ more).length)
    (hmax : maxSize < 2 ^ 31) : readFrame maxSize (message ++ more) = .tooLong := by
  obtain ⟨b, bs, rfl, hb⟩ := hstart.head
  match hstream : bs ++ more, hlength with
  | b2 :: b1 :: b0 :: rest, hlength =>
    have hsize : ofBigEndian ((b :: bs ++ more).take 4) =
        b0.toNat + 256 * (b1.toNat + 256 * (b2.toNat + 256 * b.toNat)) := by
      rw [cons_append, hstream]
      rfl
    rw [readFrame, if_neg (by omega), if_pos]
    rw [hsize]
    omega
  | [_, _], hlength => simp [hstream] at hlength
  | [_], hlength => simp [hstream] at hlength
  | [], hlength => simp [hstream] at hlength

/-- A connection that starts with an unframed message is handed to the Thrift
handler, whose loop never receives anything of it and closes the connection. -/
theorem unframed_never_received (hstart : StartsMessage isCompact message) {available later : Bytes}
    (hstream : available ++ later = message ++ more) (henough : 4 ≤ available.length) (hmax : maxSize < 2 ^ 31)
    (tlsConfig : Bool) (p : Processor) : ∃ c, sniffAndRoute tlsConfig available later = .thrift c isCompact ∧ ∀ s,
    ReflTransGen (Step maxSize (List.get [p])) (thriftHandler _ false c) s → (∀ i, s.received i = []) ∧
    (Quiescent maxSize (List.get [p]) s → s.closed = true) := by
  refine ⟨_, sniffs_unframed hstart hstream henough tlsConfig, fun s hrun => ?_⟩
  have hsingle : Subsingleton (Fin [p].length) := inferInstanceAs (Subsingleton (Fin 1))
  have horder : ∀ i, InOrder maxSize (message ++ more) i s := by
    intro i
    rw [← hstream]
    exact (inOrder_thriftHandler maxSize i ⟨available, later⟩).run hrun
  have hreceived : ∀ i, s.received i = [] := by
    intro i
    cases hcase : s.received i with
    | nil => rfl
    | cons payload rest =>
      -- the stream would start with a frame
      have heq := (horder i).stream_eq
      have hshort := (horder i).short payload (by rw [hcase]; exact mem_cons_self ..)
      obtain ⟨b, bs, rfl, hb⟩ := hstart.head
      rw [hcase, flatMap_cons, append_assoc, append_assoc, cons_append] at heq
      exact absurd (toNat_head_frame (by omega) heq) (by omega)
  refine ⟨hreceived, fun hquiet => ?_⟩
  -- with the whole stream in its buffer the goroutine refuses the length
  by_contra hclosed
  have hopen : s.closed = false := Bool.eq_false_of_not_eq_true hclosed
  have i : Fin [p].length := ⟨0, Nat.one_pos⟩
  have hrunning := (horder i).running hopen
  obtain ⟨hunread, -⟩ := waiting_of_quiescent hquiet hrunning hopen
  have heq := (horder i).stream_eq
  rw [hreceived i, hunread, append_nil, flatMap_nil, nil_append] at heq
  have hlength : 4 ≤ (message ++ more).length := by
    rw [← hstream, length_append]
    omega
  have hlong := unframed_refused hstart hlength hmax
  rw [← heq] at hlong
  exact hquiet _ (.refuse hrunning hlong)

theorem unframed_never_received_ping : ∃ c, sniffAndRoute false pingMessage [] = .thrift c true ∧
    ∀ s, ReflTransGen (Step 16384000 (List.get [fun _ => true])) (thriftHandler _ false c) s →
      (∀ i, s.received i = []) ∧ (Quiescent 16384000 (List.get [fun _ => true]) s → s.closed = true) :=
  have hstream : pingMessage ++ [] = pingMessage ++ [] := rfl
  unframed_never_received (.compact _) hstream (by decide) (by decide) false fun _ => true

theorem unframed_ping_refused : sniffAndRoute false pingMessage [] = .thrift ⟨pingMessage, []⟩ true ∧
      readFrame 16384000 (BufferedConn.stream ⟨pingMessage, []⟩) = .tooLong := by decide
end

end HelixRpc.Runtime.Go
