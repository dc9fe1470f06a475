import HelixRpc.Foundation.Framing
import HelixRpc.Foundation.Labels
import HelixRpc.Foundation.Machine
import HelixRpc.Runtime.Go.Router
import Mathlib.Data.List.Count
import Mathlib.Data.List.Nodup

/-!
# The UDP transport

Model of `QUICTransportListener` and `QUICStreamConn` (`runtimes/go/quic_transport.go`).
-/

namespace HelixRpc.Runtime.Go.Quic

open Foundation List Machine

structure StreamConn where
  remoteAddr : Text
  streamID : Nat
  readChan : List Bytes
  leftover : Bytes
  closed : Bool

inductive LoopPoint where
  | read
  | offer (i : Nat) (payload : Bytes)
  | deliver (i : Nat) (payload : Bytes)
  | stopped

structure Listener where
  activeMap : List (Text × StreamConn)
  streams : List Nat
  closed : Bool
  loop : LoopPoint

def newListener : Listener := ⟨[], [], false, .read⟩

def streamKey (remoteAddr : Text) (streamID : Nat) : Text := remoteAddr ++ ':' :: Nat.toDigits 10 streamID

def maxStreams : Nat := 1024

def maxPayloads : Nat := 256

inductive Event where
  | datagram (remoteAddr : Text) (packet : Bytes)
  | offer
  | deliver
  | fail
  | accept
  | read (i size : Nat)
  | closeStream (i : Nat)
  | close

inductive Report where
  | arrived (remoteAddr : Text) (streamID : Nat) (payload : Bytes)
  | offered (i : Nat)
  | bytes (i : Nat) (b : Bytes)

def setConn (activeMap : List (Text × StreamConn)) (i : Nat) (c : StreamConn) : List (Text × StreamConn) :=
  activeMap.modify i fun entry => (entry.1, c)

namespace Listener

variable (s : Listener)

/-- The loop with a datagram, up to the accept queue; one that is too short for an id is ignored. -/
def datagram (remoteAddr : Text) (packet : Bytes) : Listener × Option Report :=
  if packet.length < 4 then (s, none)
  else
    let streamID := ofBigEndian (packet.take 4)
    let key := streamKey remoteAddr streamID
    let report := some (.arrived remoteAddr streamID (packet.drop 4))
    match s.activeMap.findIdx? fun entry => entry.1 = key with
    | some i => ({ s with loop := .deliver i (packet.drop 4) }, report)
    | none =>
      ({ s with
          activeMap := s.activeMap ++ [(key, ⟨remoteAddr, streamID, [], [], false⟩)]
          loop := .offer s.activeMap.length (packet.drop 4) }, report)

def deliver (i : Nat) (payload : Bytes) : Listener :=
  match s.activeMap[i]? with
  | some (_, c) =>
    if c.readChan.length < maxPayloads then
      { s with activeMap := setConn s.activeMap i { c with readChan := c.readChan ++ [payload] }, loop := .read }
    else { s with loop := .read }
  | none => { s with loop := .read }

def readConn (i size : Nat) (c : StreamConn) : Option (Listener × Option Report) :=
  if c.leftover ≠ [] then
    some ({ s with activeMap := setConn s.activeMap i { c with leftover := c.leftover.drop size } },
      some (.bytes i (c.leftover.take size)))
  else
    match c.readChan with
    | packet :: packets =>
      some ({ s with activeMap := setConn s.activeMap i { c with readChan := packets, leftover := packet.drop size } },
        some (.bytes i (packet.take size)))
    | [] => none

def next : Event → Option (Listener × Option Report)
  | .datagram remoteAddr packet =>
    match s.loop with
    | .read => if s.closed then none else some (s.datagram remoteAddr packet)
    | _ => none
  | .offer =>
    match s.loop with
    | .offer i payload =>
      if s.streams.length < maxStreams then
        some ({ s with streams := s.streams ++ [i], loop := .deliver i payload }, some (.offered i))
      else none
    | _ => none
  | .deliver =>
    match s.loop with
    | .deliver i payload => some (s.deliver i payload, none)
    | _ => none
  | .fail =>
    match s.loop with
    | .read => some ({ s with loop := if s.closed then .stopped else .read }, none)
    | _ => none
  | .accept =>
    match s.streams with
    | _ :: later => some ({ s with streams := later }, none)
    | [] => none
  | .read i size => s.activeMap[i]?.bind fun entry => s.readConn i size entry.2
  | .closeStream i =>
    s.activeMap[i]?.map fun entry => ({ s with activeMap := setConn s.activeMap i { entry.2 with closed := true } }, none)
  | .close =>
    match s.loop with
    | .offer _ _ => none
    | _ =>
      if s.closed then some (s, none)
      else
        some ({ s with
          activeMap := s.activeMap.map fun entry => (entry.1, { entry.2 with closed := true })
          closed := true }, none)

end Listener

def listener : Machine Listener Event (Option Report) := fun s e => (s.next e).getD (s, none)

def arrived (remoteAddr : Text) (streamID : Nat) (reports : List (Option Report)) : List Bytes := reports.filterMap fun
    | some (.arrived addr id payload) => if addr = remoteAddr ∧ id = streamID then some payload else none
    | _ => none

def bytesRead (i : Nat) (reports : List (Option Report)) : Bytes := reports.flatMap fun
    | some (.bytes j b) => if j = i then b else []
    | _ => []

def offered (reports : List (Option Report)) : List Nat := reports.filterMap fun
    | some (.offered i) => some i
    | _ => none

def LoopPoint.pending (i : Nat) : LoopPoint → Bytes
  | .offer j payload => if j = i then payload else []
  | .deliver j payload => if j = i then payload else []
  | _ => []

def LoopPoint.offering : LoopPoint → List Nat
  | .offer i _ => [i]
  | _ => []

def Listener.Room (s : Listener) : Prop :=
  ∀ i payload key c, s.loop = .deliver i payload → s.activeMap[i]? = some (key, c) → c.readChan.length + 1 ≤ maxPayloads

/-- What was read from a connection, with what waits there, is what has arrived for its stream; each stream has one
connection, which is offered once. -/
structure Ledger (reports : List (Option Report)) (s : Listener) : Prop where
  keys : (s.activeMap.map Prod.fst).Nodup
  entry : ∀ i key c, s.activeMap[i]? = some (key, c) → key = streamKey c.remoteAddr c.streamID ∧
    bytesRead i reports ++ (c.leftover ++ c.readChan.flatten ++ s.loop.pending i) =
      (arrived c.remoteAddr c.streamID reports).flatten
  known : ∀ addr id, arrived addr id reports ≠ [] → streamKey addr id ∈ s.activeMap.map Prod.fst
  offers : offered reports ++ s.loop.offering = List.range s.activeMap.length
  unread : ∀ i, s.activeMap.length ≤ i → bytesRead i reports = []
  target : ∀ i payload, s.loop = .deliver i payload → i < s.activeMap.length

section
variable {s s' : Listener} {reports : List (Option Report)} {r : Option Report} {i j : Nat}
  {key : Text} {c c' : StreamConn}

theorem streamKey_inj {addr addr' : Text} {id id' : Nat} (h : streamKey addr id = streamKey addr' id') :
    addr = addr' ∧ id = id' := append_toDigits_inj (by decide) h

variable {addr : Text} {id : Nat} {payload : Bytes}

theorem arrived_append (later : List (Option Report)) :
    arrived addr id (reports ++ later) = arrived addr id reports ++ arrived addr id later := filterMap_append

theorem bytesRead_append (later : List (Option Report)) :
    bytesRead i (reports ++ later) = bytesRead i reports ++ bytesRead i later := flatMap_append

theorem bytesRead_arrived (addr : Text) (id : Nat) (payload : Bytes) :
    bytesRead i (reports ++ [some (.arrived addr id payload)]) = bytesRead i reports := by simp [bytesRead]

theorem offered_append (later : List (Option Report)) : offered (reports ++ later) = offered reports ++ offered later :=
  filterMap_append

theorem map_fst_setConn (l : List (Text × StreamConn)) : (setConn l i c).map Prod.fst = l.map Prod.fst := by
  refine ext_getElem? fun j => ?_
  simp only [setConn, getElem?_map, getElem?_modify]
  split_ifs
  all_goals cases l[j]? <;> rfl

theorem length_setConn (l : List (Text × StreamConn)) : (setConn l i c).length = l.length := length_modify _ _ _

theorem Ledger.unique (h : Ledger reports s) (hi : s.activeMap[i]? = some (key, c))
    (hj : s.activeMap[j]? = some (key, c')) : i = j := by
  have hlt : i < (s.activeMap.map Prod.fst).length := by
    rw [length_map]
    exact (List.getElem?_eq_some_iff.1 hi).1
  refine (getElem?_inj hlt h.keys).1 ?_
  rw [getElem?_map, getElem?_map, hi, hj]
  rfl

theorem Ledger.set (h : Ledger reports s) (c' : StreamConn) (loop' : LoopPoint) (hc : s.activeMap[i]? = some (key, c))
    (hstream : c'.remoteAddr = c.remoteAddr ∧ c'.streamID = c.streamID) (hr : offered [r] = [] ∧ ∀ addr id, arrived addr id [r] = [])
    (hown : bytesRead i [r] ++ (c'.leftover ++ c'.readChan.flatten ++ loop'.pending i) =
      c.leftover ++ c.readChan.flatten ++ s.loop.pending i)
    (hother : ∀ j, j ≠ i → bytesRead j [r] = [] ∧ loop'.pending j = s.loop.pending j)
    (hloop : loop'.offering = s.loop.offering ∧ ∀ j payload, loop' = .deliver j payload → j < s.activeMap.length)
    (hs' : s'.activeMap = setConn s.activeMap i c' ∧ s'.loop = loop') : Ledger (reports ++ [r]) s' := by
  have hi : i < s.activeMap.length := (List.getElem?_eq_some_iff.1 hc).1
  refine ⟨?_, fun j key' c'' hj => ?_, fun addr id harrived => ?_, ?_, fun j hj => ?_, ?_⟩
  · rw [hs'.1, map_fst_setConn]
    exact h.keys
  · rw [hs'.1, setConn, getElem?_modify] at hj
    rw [hs'.2, arrived_append, hr.2, append_nil, bytesRead_append, append_assoc]
    split_ifs at hj with hij
    · subst hij
      rw [hc] at hj
      cases hj
      rw [hown, hstream.1, hstream.2]
      exact h.entry i key c hc
    · replace hj : s.activeMap[j]? = some (key', c'') := by simpa using hj
      obtain ⟨hbytes, hpending⟩ := hother j (Ne.symm hij)
      rw [hbytes, hpending, nil_append]
      exact h.entry j key' c'' hj
  · rw [arrived_append, hr.2, append_nil] at harrived
    rw [hs'.1, map_fst_setConn]
    exact h.known addr id harrived
  · rw [offered_append, hr.1, append_nil, hs'.2, hloop.1, hs'.1, length_setConn]
    exact h.offers
  · rw [hs'.1, length_setConn] at hj
    rw [bytesRead_append, h.unread j hj, (hother j (Nat.ne_of_gt (Nat.lt_of_lt_of_le hi hj))).1]
    rfl
  · rw [hs'.1, hs'.2, length_setConn]
    exact hloop.2

theorem Ledger.quiet (h : Ledger reports s) (hmap : s'.activeMap = s.activeMap)
    (hpending : ∀ j, s'.loop.pending j = s.loop.pending j) (hr : ∀ j, bytesRead j [r] = [])
    (harrived : ∀ addr id, arrived addr id [r] = []) (hoffers : offered [r] ++ s'.loop.offering = s.loop.offering)
    (htarget : ∀ j payload, s'.loop = .deliver j payload → j < s.activeMap.length) : Ledger (reports ++ [r]) s' := by
  refine ⟨?_, fun j key c hj => ?_, fun addr id => ?_, ?_, fun j hj => ?_, ?_⟩
  · rw [hmap]
    exact h.keys
  · rw [hmap] at hj
    rw [bytesRead_append, hr, append_nil, hpending, arrived_append, harrived, append_nil]
    exact h.entry j key c hj
  · rw [arrived_append, harrived, append_nil, hmap]
    exact h.known addr id
  · rw [offered_append, append_assoc, hoffers, hmap]
    exact h.offers
  · rw [hmap] at hj
    rw [bytesRead_append, h.unread j hj, hr]
    rfl
  · rw [hmap]
    exact htarget

theorem Ledger.again (h : Ledger reports s) (hloop : s.loop = .read)
    (hi : s.activeMap.findIdx? (fun entry => entry.1 = streamKey addr id) = some i) :
    Ledger (reports ++ [some (.arrived addr id payload)]) { s with loop := .deliver i payload } := by
  obtain ⟨hlt, hkey, -⟩ := findIdx?_eq_some_iff_getElem.1 hi
  rw [decide_eq_true_eq] at hkey
  refine ⟨h.keys, fun j key c hj => ?_, fun addr' id' harrived => ?_, ?_, fun j hj => ?_, ?_⟩
  · obtain ⟨hown, hbytes⟩ := h.entry j key c hj
    refine ⟨hown, ?_⟩
    simp only [hloop, LoopPoint.pending, append_nil] at hbytes
    rw [bytesRead_arrived, arrived_append, flatten_append, ← hbytes]
    by_cases hji : i = j
    · subst hji
      have hsame : addr = c.remoteAddr ∧ id = c.streamID := by
        refine streamKey_inj ?_
        rw [← hown, ← hkey, (List.getElem?_eq_some_iff.1 hj).2]
      simp [arrived, LoopPoint.pending, hsame]
    · have hother : ¬ (addr = c.remoteAddr ∧ id = c.streamID) := by
        rintro ⟨rfl, rfl⟩
        have hget : s.activeMap[i]? = some (streamKey c.remoteAddr c.streamID, s.activeMap[i].2) := by
          rw [getElem?_eq_getElem hlt, ← hkey]
        exact hji (h.unique hget (hown ▸ hj))
      simp [arrived, LoopPoint.pending, hother, hji]
  · by_cases hsame : addr = addr' ∧ id = id'
    · rw [← hsame.1, ← hsame.2, ← hkey]
      exact mem_map_of_mem (getElem_mem hlt)
    · refine h.known addr' id' fun hnone => harrived ?_
      rw [arrived_append, hnone]
      simp [arrived, hsame]
  · have hoffers := h.offers
    rw [hloop] at hoffers
    rw [offered_append]
    simpa [offered, LoopPoint.offering] using hoffers
  · rw [bytesRead_arrived, h.unread j hj]
  · rintro j payload' ⟨⟩
    exact hlt

theorem Ledger.first (h : Ledger reports s) (hloop : s.loop = .read)
    (hnone : s.activeMap.findIdx? (fun entry => entry.1 = streamKey addr id) = none) :
    Ledger (reports ++ [some (.arrived addr id payload)])
      { s with
        activeMap := s.activeMap ++ [(streamKey addr id, ⟨addr, id, [], [], false⟩)]
        loop := .offer s.activeMap.length payload } := by
  have hnew : streamKey addr id ∉ s.activeMap.map Prod.fst := by
    intro hmem
    obtain ⟨entry, hentry, hkey⟩ := mem_map.1 hmem
    exact absurd (findIdx?_eq_none_iff.1 hnone entry hentry) (by simp [hkey])
  have hbefore : arrived addr id reports = [] := by
    by_contra hsome
    exact hnew (h.known addr id hsome)
  have hlist : ∀ addr' id', arrived addr' id' [some (.arrived addr id payload)] =
      if addr = addr' ∧ id = id' then [payload] else [] := by
    intro addr' id'
    split_ifs with hsame <;> simp [arrived, hsame]
  refine ⟨?_, fun j key c hj => ?_, fun addr' id' harrived => ?_, ?_, fun j hj => ?_, nofun⟩
  · rw [map_append, nodup_append]
    exact ⟨h.keys, nodup_singleton _, fun a ha b hb heq => hnew (by simp_all)⟩
  · rw [bytesRead_arrived, arrived_append, hlist]
    rcases Nat.lt_or_ge j s.activeMap.length with hlt | hge
    · rw [getElem?_append_left hlt] at hj
      obtain ⟨hown, hbytes⟩ := h.entry j key c hj
      have hother : ¬ (addr = c.remoteAddr ∧ id = c.streamID) := by
        rintro ⟨rfl, rfl⟩
        exact hnew (hown ▸ mem_map_of_mem (mem_of_getElem? hj))
      simp only [hloop, LoopPoint.pending, append_nil] at hbytes
      rw [if_neg hother]
      simpa [LoopPoint.pending, Nat.ne_of_gt hlt] using ⟨hown, hbytes⟩
    · rw [getElem?_append_right hge] at hj
      have hlast : j - s.activeMap.length < 1 := (List.getElem?_eq_some_iff.1 hj).1
      obtain rfl : j = s.activeMap.length := by omega
      rw [Nat.sub_self] at hj
      cases hj
      rw [hbefore, h.unread _ (Nat.le_refl _)]
      simp [LoopPoint.pending]
  · rw [map_append, mem_append]
    by_cases hsame : addr = addr' ∧ id = id'
    · exact .inr (by simp [hsame])
    · rw [arrived_append, hlist, if_neg hsame, append_nil] at harrived
      exact .inl (h.known addr' id' harrived)
  · have hoffers := h.offers
    rw [hloop] at hoffers
    rw [offered_append, length_append, length_singleton, range_succ, ← hoffers]
    simp [offered, LoopPoint.offering]
  · rw [length_append] at hj
    rw [bytesRead_arrived, h.unread j (by omega)]

theorem Ledger.deliver (h : Ledger reports s) (hroom : s.Room) (hloop : s.loop = .deliver i payload) :
    Ledger (reports ++ [none]) (s.deliver i payload) := by
  obtain ⟨⟨key, c⟩, hc⟩ : ∃ entry, s.activeMap[i]? = some entry := ⟨_, getElem?_eq_getElem (h.target i payload hloop)⟩
  simp only [Listener.deliver, hc, if_pos (Nat.lt_of_succ_le (hroom i payload key c hloop hc))]
  refine h.set _ .read hc ⟨?_, ?_⟩ ⟨rfl, fun _ _ => rfl⟩ ?_ (fun j hj => ⟨rfl, ?_⟩) ⟨?_, nofun⟩ ⟨rfl, rfl⟩
  · rfl
  · rfl
  · rw [hloop]
    simp [bytesRead, LoopPoint.pending]
  · rw [hloop]
    exact (if_neg (Ne.symm hj)).symm
  · rw [hloop]
    rfl

theorem Ledger.readConn (h : Ledger reports s) (hc : s.activeMap[i]? = some (key, c)) {size : Nat}
    {p : Listener × Option Report} (hread : s.readConn i size c = some p) : Ledger (reports ++ [p.2]) p.1 := by
  -- what is returned comes off the front of the bytes that wait at the connection
  have hset : ∀ (c' : StreamConn) (b : Bytes), c'.remoteAddr = c.remoteAddr ∧ c'.streamID = c.streamID →
      b ++ (c'.leftover ++ c'.readChan.flatten) = c.leftover ++ c.readChan.flatten →
      Ledger (reports ++ [some (.bytes i b)]) { s with activeMap := setConn s.activeMap i c' } := by
    intro c' b hsame hbytes
    refine h.set c' s.loop hc hsame ⟨rfl, fun _ _ => rfl⟩ ?_ (fun j hj => ⟨?_, rfl⟩) ⟨rfl, h.target⟩ ⟨rfl, rfl⟩
    · simp only [bytesRead, flatMap_singleton, if_true]
      rw [← append_assoc, hbytes]
    · simp [bytesRead, Ne.symm hj]
  unfold Listener.readConn at hread
  split_ifs at hread with hleftover
  · cases hread
    refine hset _ _ ⟨rfl, rfl⟩ ?_
    rw [← append_assoc, take_append_drop]
  · split at hread
    · rename_i packet packets hchan
      cases hread
      refine hset _ _ ⟨rfl, rfl⟩ ?_
      rw [not_not.1 hleftover, hchan, ← append_assoc, take_append_drop]
      rfl
    · cases hread

theorem Ledger.close (h : Ledger reports s) : Ledger reports { s with
    activeMap := s.activeMap.map fun entry => (entry.1, { entry.2 with closed := true }), closed := true } := by
  refine ⟨?_, fun j key c hj => ?_, fun addr id harrived => ?_, ?_, fun j hj => ?_, fun j payload hj => ?_⟩
  · simpa [map_map, Function.comp_def] using h.keys
  · simp only [getElem?_map, Option.map_eq_some_iff] at hj
    obtain ⟨entry, hentry, heq⟩ := hj
    cases heq
    exact h.entry j entry.1 entry.2 hentry
  · simpa [map_map, Function.comp_def] using h.known addr id harrived
  · simpa using h.offers
  · exact h.unread j (by simpa using hj)
  · simpa using h.target j payload hj

theorem Ledger.step (h : Ledger reports s) (hroom : s.Room) (e : Event) :
    Ledger (reports ++ [(listener s e).2]) (listener s e).1 := by
  have hstay : Ledger (reports ++ [none]) s := h.quiet rfl (fun _ => rfl) (fun _ => rfl) (fun _ _ => rfl) rfl h.target
  unfold listener
  cases hnext : s.next e with
  | none => exact hstay
  | some p =>
    cases e with
    | datagram addr packet =>
      simp only [Listener.next] at hnext
      split at hnext
      · rename_i hloop
        split_ifs at hnext
        cases hnext
        unfold Listener.datagram
        split_ifs
        · exact hstay
        · simp only [Option.getD_some]
          split
          · exact h.again hloop ‹_›
          · exact h.first hloop ‹_›
      · cases hnext
    | offer =>
      simp only [Listener.next] at hnext
      split at hnext
      · rename_i i payload hloop
        split_ifs at hnext
        cases hnext
        have hoffering : i ∈ List.range s.activeMap.length := by
          rw [← h.offers, hloop]
          exact mem_append_right _ mem_cons_self
        refine h.quiet rfl (fun j => ?_) (fun _ => rfl) (fun _ _ => rfl) ?_ ?_
        · rw [hloop]
          rfl
        · rw [hloop]
          rfl
        · rintro j payload' ⟨⟩
          exact mem_range.1 hoffering
      · cases hnext
    | deliver =>
      simp only [Listener.next] at hnext
      split at hnext
      · rename_i i payload hloop
        cases hnext
        exact h.deliver hroom hloop
      · cases hnext
    | fail =>
      simp only [Listener.next] at hnext
      split at hnext
      · rename_i hloop
        cases hnext
        refine h.quiet rfl (fun j => ?_) (fun _ => rfl) (fun _ _ => rfl) ?_ fun j payload hj => ?_
        · cases s.closed <;> simp [hloop, LoopPoint.pending]
        · cases s.closed <;> simp [hloop, LoopPoint.offering, offered]
        · cases hclosed : s.closed <;> simp [hclosed] at hj
      · cases hnext
    | accept =>
      simp only [Listener.next] at hnext
      split at hnext
      · cases hnext
        exact h.quiet rfl (fun _ => rfl) (fun _ => rfl) (fun _ _ => rfl) rfl h.target
      · cases hnext
    | read i size =>
      simp only [Listener.next, Option.bind_eq_some_iff] at hnext
      obtain ⟨⟨key, c⟩, hc, hread⟩ := hnext
      exact h.readConn hc hread
    | closeStream i =>
      simp only [Listener.next, Option.map_eq_some_iff] at hnext
      obtain ⟨⟨key, c⟩, hc, rfl⟩ := hnext
      exact h.set { c with closed := true } s.loop hc ⟨rfl, rfl⟩ ⟨rfl, fun _ _ => rfl⟩ rfl (fun j _ => ⟨rfl, rfl⟩) ⟨rfl, h.target⟩ ⟨rfl, rfl⟩
    | close =>
      simp only [Listener.next] at hnext
      split at hnext
      · cases hnext
      · split_ifs at hnext
        · cases hnext
          exact hstay
        · cases hnext
          exact hstay.close

theorem ledger_of_run {events : List Event} (h : listener.AllSteps (fun s _ => s.Room) newListener events) :
    Ledger (listener.answers newListener events) (listener.after newListener events) := by
  have hnew : Ledger [] newListener := ⟨nodup_nil, nofun, fun _ _ h => absurd rfl h, rfl, fun _ _ => rfl, nofun⟩
  exact h.ledger (fun reports s e hs hroom => hs.step hroom e) [] hnew
end

/-- As long as no stream has more than 256 payloads waiting, what is read from a connection is a beginning of the
payloads of its stream, in order; and a stream with a datagram has exactly one connection, which is offered once. -/
theorem streams_in_order (events : List Event) (h : listener.AllSteps (fun s _ => s.Room) newListener events) :
    let reports := listener.answers newListener events
    let s := listener.after newListener events
    (∀ i key c, s.activeMap[i]? = some (key, c) →
      bytesRead i reports <+: (arrived c.remoteAddr c.streamID reports).flatten) ∧
    ∀ addr id, arrived addr id reports ≠ [] → ∃ i c, s.activeMap[i]? = some (streamKey addr id, c) ∧
      c.remoteAddr = addr ∧ c.streamID = id ∧ (offered reports ++ s.loop.offering).count i = 1 ∧
      ∀ j c', s.activeMap[j]? = some (streamKey addr id, c') → j = i := by
  intro reports s
  have hledger := ledger_of_run h
  refine ⟨fun i key c hc => ⟨_, (hledger.entry i key c hc).2⟩, fun addr id harrived => ?_⟩
  obtain ⟨⟨key, c⟩, hmem, hkey⟩ := mem_map.1 (hledger.known addr id harrived)
  obtain ⟨i, hi, hc⟩ := getElem_of_mem hmem
  obtain rfl : key = streamKey addr id := hkey
  have hget : s.activeMap[i]? = some (streamKey addr id, c) := by rw [getElem?_eq_getElem hi, hc]
  obtain ⟨haddr, hid⟩ := streamKey_inj (hledger.entry i _ c hget).1
  refine ⟨i, c, hget, haddr.symm, hid.symm, ?_, fun j c' hj => ?_⟩
  · rw [hledger.offers]
    exact count_eq_one_of_mem nodup_range (mem_range.2 hi)
  · exact hledger.unique hj hget

theorem streams_in_order_pieces :
    let events : List Event := [.datagram ['a'] [0, 0, 0, 7, 1, 2, 3], .offer, .deliver, .datagram ['a'] [0, 0, 0, 7, 4],
      .deliver, .accept, .read 0 2, .read 0 2, .read 0 2]
    let reports := listener.answers newListener events
    bytesRead 0 reports = [1, 2, 3, 4] ∧ bytesRead 0 reports <+: (arrived ['a'] 7 reports).flatten := by
  intro events reports
  have hroom : listener.AllSteps (fun s _ => s.Room) newListener events := by
    refine ⟨?_, ?_, ?_, ?_, ?_, ?_, ?_, ?_, ?_, trivial⟩ <;> rintro i payload key c ⟨⟩ ⟨⟩ <;> decide
  exact ⟨by decide, (streams_in_order events hroom).1 0 _ _ rfl⟩

namespace Listener

variable (s : Listener)

def openStreams : Nat := s.activeMap.countP fun entry => !entry.2.closed

def Reuses : Prop := ∀ (i : Nat) (addr : Text) (c : StreamConn) (packet : Bytes), 4 ≤ packet.length →
    s.activeMap[i]? = some (streamKey addr (ofBigEndian (packet.take 4)), c) → c.closed = true →
    (s.datagram addr packet).1.loop = .offer s.activeMap.length (packet.drop 4)

end Listener

/-- After every run, closed streams can be used again and the listener keeps at most the streams that are not closed,
exactly if no stream has been closed. -/
theorem reuses_iff (events : List Event) :
    let s := listener.after newListener events
    ((s.Reuses ∧ s.activeMap.length ≤ s.openStreams) ↔ ∀ entry ∈ s.activeMap, entry.2.closed = false) ∧
    ∀ (i : Nat) (addr : Text) (c : StreamConn) (packet : Bytes), 4 ≤ packet.length →
      s.activeMap[i]? = some (streamKey addr (ofBigEndian (packet.take 4)), c) →
      ∃ j < s.activeMap.length, (s.datagram addr packet).1 = { s with loop := .deliver j (packet.drop 4) } := by
  intro s
  refine ⟨⟨fun h entry hentry => ?_, fun h => ⟨fun i addr c packet _ hc hclosed => ?_, ?_⟩⟩,
    fun i addr c packet hlength hc => ?_⟩
  · have hall := countP_eq_length.1 (Nat.le_antisymm countP_le_length h.2) entry hentry
    simpa using hall
  · rw [h _ (mem_of_getElem? hc)] at hclosed
    cases hclosed
  · exact Nat.le_of_eq (countP_eq_length.2 fun entry hentry => by simp [h entry hentry]).symm
  · cases hfind : s.activeMap.findIdx? fun entry => entry.1 = streamKey addr (ofBigEndian (packet.take 4)) with
    | none =>
      have hno := findIdx?_eq_none_iff.1 hfind _ (mem_of_getElem? hc)
      simp at hno
    | some j =>
      refine ⟨j, (findIdx?_eq_some_iff_getElem.1 hfind).1, ?_⟩
      simp only [Listener.datagram, if_neg (Nat.not_lt.2 hlength), hfind]

theorem closed_stream_not_reused :
    let events : List Event := [.datagram ['a'] [0, 0, 0, 7, 1], .offer, .deliver, .accept, .closeStream 0,
      .datagram ['a'] [0, 0, 0, 7, 2], .deliver]
    let s := listener.after newListener events
    offered (listener.answers newListener events) = [0] ∧ s.closed = false ∧
      s.activeMap.map (fun entry => (entry.2.closed, entry.2.readChan)) = [(true, [[1], [2]])] ∧
      s.openStreams = 0 ∧ ¬ s.Reuses := by
  refine ⟨by decide, rfl, by decide, by decide, fun h => ?_⟩
  cases h 0 ['a'] _ [0, 0, 0, 7] (by decide) rfl rfl

/-- However the others go on without another `Accept`, `Close` of the listener does not get the mutex. -/
def Listener.NeverCloses (s : Listener) : Prop :=
  ∀ events, (∀ e ∈ events, e ≠ .accept) → (listener.after s events).next .close = none

def Listener.Stuck (s : Listener) : Prop := (∃ i payload, s.loop = .offer i payload) ∧ maxStreams ≤ s.streams.length

variable {s : Listener} {n : Nat}

/-- The calls other than `Accept` touch neither the read loop nor the accept queue. -/
def Event.isCall : Event → Bool
  | .read _ _ | .closeStream _ | .close => true
  | _ => false

theorem keeps_of_isCall {e : Event} (he : e.isCall = true) :
    (listener s e).1.loop = s.loop ∧ (listener s e).1.streams = s.streams := by
  cases e with
  | closeStream j => cases hj : s.activeMap[j]? <;> simp [listener, Listener.next, hj]
  | close => cases hloop : s.loop <;> cases hclosed : s.closed <;> simp [listener, Listener.next, hloop, hclosed]
  | read j size =>
    cases hj : s.activeMap[j]? with
    | none => simp [listener, Listener.next, hj]
    | some entry =>
      simp only [listener, Listener.next, hj, Option.bind_some, Listener.readConn]
      split_ifs <;> try split
      all_goals exact ⟨rfl, rfl⟩
  | _ => cases he

theorem stuck_step (h : s.Stuck) {e : Event} (he : e ≠ .accept) : (listener s e).1.Stuck := by
  obtain ⟨⟨i, payload, hloop⟩, hfull⟩ := h
  have hstay : s.Stuck := ⟨⟨i, payload, hloop⟩, hfull⟩
  by_cases hcall : e.isCall = true
  · rwa [Listener.Stuck, (keeps_of_isCall hcall).1, (keeps_of_isCall hcall).2]
  · cases e with
    | accept => exact absurd rfl he
    | read | closeStream | close => exact absurd rfl hcall
    | _ => simpa [listener, Listener.next, hloop, Nat.not_lt.2 hfull] using hstay

theorem Listener.Stuck.neverCloses (h : s.Stuck) : s.NeverCloses := by
  intro events hevents
  have hsteps : listener.AllSteps (fun _ e => e ≠ .accept) s events := allSteps_of_forall_mem fun e he _ => hevents e he
  obtain ⟨⟨i, payload, hloop⟩, -⟩ := hsteps.invariant (fun s e (hs : s.Stuck) he => stuck_step hs he) h
  simp only [Listener.next, hloop]

theorem neverCloses_iff_stuck (s : Listener) : s.NeverCloses ↔ s.Stuck := by
  constructor
  · intro h
    cases hloop : s.loop with
    | offer i payload =>
      refine ⟨⟨i, payload, hloop⟩, Nat.le_of_not_lt fun hroom => ?_⟩
      have hafter := h [.offer] (by simp)
      simp only [after_cons, after_nil, listener, Listener.next, hloop, if_pos hroom, Option.getD_some] at hafter
      split_ifs at hafter
    | _ =>
      have hnow := h [] nofun
      simp only [after_nil, Listener.next, hloop] at hnow
      split_ifs at hnow
  · exact Listener.Stuck.neverCloses

/-- The first datagram of a stream. -/
def Listener.Opens (s : Listener) : Event → Prop
  | .datagram addr packet => s.loop = .read ∧ s.closed = false ∧ 4 ≤ packet.length ∧
      streamKey addr (ofBigEndian (packet.take 4)) ∉ s.activeMap.map Prod.fst
  | _ => False

/-- Only a datagram brings the loop to the accept queue, and only `Accept` makes the queue shorter. -/
theorem stuck_step_iff (h : ¬ s.Stuck) (e : Event) :
    (listener s e).1.Stuck ↔ s.Opens e ∧ maxStreams ≤ s.streams.length := by
  by_cases hcall : e.isCall = true
  · rw [Listener.Stuck, (keeps_of_isCall hcall).1, (keeps_of_isCall hcall).2]
    refine iff_of_false h fun hopens => ?_
    cases e <;> first | exact hopens.1 | cases hcall
  cases e with
  | datagram addr packet =>
    cases hloop : s.loop with
    | read =>
      simp only [listener, Listener.next, hloop, Listener.Opens, Listener.datagram]
      cases hclosed : s.closed with
      | true => simpa using h
      | false =>
        by_cases hshort : packet.length < 4
        · simpa [hshort] using iff_of_false h fun hopens => absurd hshort (Nat.not_lt.2 hopens.1.1)
        · cases hfind : s.activeMap.findIdx? fun entry => entry.1 = streamKey addr (ofBigEndian (packet.take 4)) with
          | none =>
            have hnew := findIdx?_eq_none_iff.1 hfind
            simp at hnew
            simpa [hshort, Listener.Stuck, Nat.le_of_not_lt hshort] using fun _ c hc => hnew _ c hc rfl
          | some i =>
            obtain ⟨hi, hkey, -⟩ := findIdx?_eq_some_iff_getElem.1 hfind
            refine iff_of_false (by simp [hshort, Listener.Stuck]) fun hopens => hopens.1.2.2.2 ?_
            exact mem_map.2 ⟨_, getElem_mem hi, of_decide_eq_true hkey⟩
    | _ => simpa [listener, Listener.next, hloop, Listener.Opens] using h
  | accept =>
    refine iff_of_false (fun hnext => h ?_) And.left
    cases hstreams : s.streams with
    | nil => simpa [listener, Listener.next, hstreams] using hnext
    | cons i later =>
      obtain ⟨hloop, hfull⟩ : (∃ i payload, s.loop = .offer i payload) ∧ maxStreams ≤ later.length := by
        simpa [listener, Listener.next, hstreams, Listener.Stuck] using hnext
      exact ⟨hloop, by rw [hstreams, length_cons]; omega⟩
  | read | closeStream | close => exact absurd rfl hcall
  | _ =>
    refine iff_of_false ?_ And.left
    cases hloop : s.loop <;> simp [listener, Listener.next, hloop]
    all_goals try split
    all_goals simp_all [Listener.Stuck]
    all_goals grind [Listener.deliver]

/-- In a run, the listener can always be closed exactly if every new stream comes while fewer than 1024
streams wait in the accept queue. -/
theorem always_closable_iff (events : List Event) :
    listener.AllSteps (fun s e => ¬ (listener s e).1.NeverCloses) newListener events ↔
      listener.AllSteps (fun s e => s.Opens e → s.streams.length < maxStreams) newListener events := by
  refine allSteps_congr (fun s => ¬ s.Stuck) (fun s e hs => ?_) (fun s e _ hnext => ?_) ?_
  · rw [neverCloses_iff_stuck, stuck_step_iff hs, not_and, Nat.not_le]
  · rwa [neverCloses_iff_stuck] at hnext
  · rintro ⟨⟨_, _, ⟨⟩⟩, -⟩

def flood : Nat → List Event
  | 0 => []
  | n + 1 => flood n ++ [.datagram (Nat.toDigits 10 n) [0, 0, 0, 0], .offer, .deliver]

theorem findIdx?_flood
    (hkeys : s.activeMap.map Prod.fst = (List.range n).map fun i => streamKey (Nat.toDigits 10 i) 0) :
    s.activeMap.findIdx? (fun entry => entry.1 = streamKey (Nat.toDigits 10 n) 0) = none := by
  refine findIdx?_eq_none_iff.2 fun entry hentry => decide_eq_false fun heq => ?_
  have hmem : entry.1 ∈ s.activeMap.map Prod.fst := mem_map_of_mem hentry
  rw [hkeys, heq] at hmem
  obtain ⟨i, hi, hsame⟩ := mem_map.1 hmem
  rw [toDigits_injective (streamKey_inj hsame).1] at hi
  exact Nat.lt_irrefl n (mem_range.1 hi)

theorem ofBigEndian_zero : ofBigEndian [0, 0, 0, 0] = 0 := by decide

theorem after_flood (h : n ≤ maxStreams) :
    let s := listener.after newListener (flood n)
    s.loop = .read ∧ s.closed = false ∧ s.streams.length = n ∧
      s.activeMap.map Prod.fst = (List.range n).map fun i => streamKey (Nat.toDigits 10 i) 0 := by
  induction n with
  | zero => exact ⟨rfl, rfl, rfl, rfl⟩
  | succ n ih =>
    obtain ⟨hloop, hopen, hstreams, hkeys⟩ := ih (Nat.le_of_succ_le h)
    simp only [flood, after_append, after_cons, after_nil]
    generalize listener.after newListener (flood n) = s at *
    have hfind := findIdx?_flood hkeys
    simp [listener, Listener.next, hloop, hopen, Listener.datagram, ofBigEndian_zero, hfind, hstreams,
      Nat.lt_of_succ_le h, Listener.deliver, maxPayloads, map_fst_setConn, hkeys, range_succ]

theorem stuck_of_full {addr : Text} (hloop : s.loop = .read) (hopen : s.closed = false)
    (hstreams : s.streams.length = maxStreams)
    (hfind : s.activeMap.findIdx? (fun entry => entry.1 = streamKey addr 0) = none) :
    (listener s (.datagram addr [0, 0, 0, 0])).1.Stuck := by
  simp [listener, Listener.next, hloop, hopen, Listener.datagram, ofBigEndian_zero, hfind, Listener.Stuck, hstreams]

theorem flood_never_closes : ∃ n addr, n = 1024 ∧
    (listener.after newListener (flood n ++ [.datagram addr [0, 0, 0, 0]])).NeverCloses := by
  refine ⟨maxStreams, Nat.toDigits 10 maxStreams, rfl, ?_⟩
  generalize hn : maxStreams = n
  obtain ⟨hloop, hopen, hstreams, hkeys⟩ := after_flood (Nat.le_of_eq hn.symm)
  rw [after_snoc]
  exact (stuck_of_full hloop hopen (hstreams.trans hn.symm) (findIdx?_flood hkeys)).neverCloses

end HelixRpc.Runtime.Go.Quic
