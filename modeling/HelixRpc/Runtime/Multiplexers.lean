import HelixRpc.Runtime.Go.Sniffer

/-!
# Protocol detection in Node, Python, C++ and Rust

Model of how the servers of the other runtimes choose a protocol: `HelixServer.start` (`runtimes/node/src/server.ts`),
`MultiplexedServer.handle_connection` (`runtimes/python/helix_rt/multiplexer.py`), `MultiplexedServer::Start`
(`runtimes/cpp/include/helix/multiplexer.h`) and `sniff_protocol` (`runtimes/rust/src/sniffer.rs`).
-/

namespace HelixRpc.Runtime

open Foundation Runtime.Go List

inductive Protocol where
  | grpc | http | thriftBinary | thriftCompact | unknown
  deriving DecidableEq

def prefaceLine : Bytes := [0x50, 0x52, 0x49, 0x20, 0x2a, 0x20, 0x48, 0x54, 0x54, 0x50, 0x2f, 0x32, 0x2e, 0x30]

/-- Node: the callback of `socket.once('data')` on the first chunk. -/
def nodeProtocol (chunk : Bytes) : Protocol :=
  if prefaceLine.isPrefixOf (chunk.take 24) then .grpc else .http

def peekProtocol (peekBytes : Bytes) : Protocol :=
  if http2Magic.isPrefixOf peekBytes then .grpc else .http

def pythonProtocol (arrived : Bytes) : Protocol := peekProtocol (arrived.take 8)

def cppProtocol (arrived : Bytes) : Protocol := peekProtocol (arrived.take 8)

def peeked (buf : Bytes) : Option Protocol :=
  if http2Magic.isPrefixOf buf then some .grpc
  else if verbMagics.any fun verb => verb.isPrefixOf buf then some .http
  else if [0x82].isPrefixOf buf then some .thriftCompact
  else if [0x80, 0x01].isPrefixOf buf then some .thriftBinary
  else none

def breaks (buf : Bytes) : Bool := 2 ≤ buf.length && !([0x00, 0x00].isPrefixOf buf)

def framedProtocol (buf : Bytes) : Protocol :=
  if 6 ≤ buf.length && [0x00, 0x00].isPrefixOf buf then
    if [0x82].isPrefixOf (buf.drop 4) then .thriftCompact
    else if [0x80, 0x01].isPrefixOf (buf.drop 4) then .thriftBinary
    else .unknown
  else .unknown

/-- The loop of `sniff_protocol`, on the results of `peek` until the window is over; `none` is the
timeout of a single `peek`. -/
def sniffLoop : Bytes → List (Option Bytes) → Protocol
  | buf, [] => framedProtocol buf
  | buf, none :: _ => framedProtocol buf
  | buf, some arrived :: peeks =>
    -- the loop condition
    if 6 ≤ buf.length then framedProtocol buf
    else
      match peeked (arrived.take 8) with
      | some protocol => protocol
      | none =>
        if breaks (arrived.take 8) then framedProtocol (arrived.take 8)
        else sniffLoop (arrived.take 8) peeks

def sniffProtocol (peeks : List (Option Bytes)) : Protocol := sniffLoop [] peeks

structure Splits (stream : Bytes) (segments : List Bytes) : Prop where
  flatten : segments.flatten = stream
  nonempty : ∀ segment ∈ segments, segment ≠ []

def arrivedAfter (segments : List Bytes) (j : Nat) : Bytes := (segments.take j).flatten

def LooksAt (segments : List Bytes) (j : Nat) : Prop := 1 ≤ j ∧ j ≤ segments.length

/-- When Rust looks: always at the same or more segments than before, and at all of them in the end,
because they arrive within the window. -/
structure LooksUntil (segments : List Bytes) (js : List Nat) : Prop where
  looks : ∀ j ∈ js, LooksAt segments j
  sorted : js.Pairwise (· ≤ ·)
  last : segments.length ∈ js

def peeksAt (segments : List Bytes) (js : List Nat) : List (Option Bytes) :=
  js.map fun j => some (arrivedAfter segments j)

structure Independent (stream : Bytes) (segments : List Bytes) : Prop where
  node : ∀ j, LooksAt segments j → nodeProtocol (arrivedAfter segments j) = nodeProtocol stream
  python : ∀ j, LooksAt segments j → pythonProtocol (arrivedAfter segments j) = pythonProtocol stream
  cpp : ∀ j, LooksAt segments j → cppProtocol (arrivedAfter segments j) = cppProtocol stream
  rust : ∀ js, LooksUntil segments js → sniffProtocol (peeksAt segments js) = sniffProtocol [some stream]

section
variable {stream : Bytes} {segments : List Bytes} {j : Nat}

theorem flatten_isPrefixOf {earlier later : List Bytes} (h : earlier <+: later) :
    earlier.flatten <+: later.flatten := by
  obtain ⟨rest, rfl⟩ := h
  exact ⟨rest.flatten, flatten_append.symm⟩

theorem Splits.arrivedAfter_isPrefixOf (h : Splits stream segments) (j : Nat) : arrivedAfter segments j <+: stream := by
  rw [← h.flatten]
  exact flatten_isPrefixOf ⟨segments.drop j, take_append_drop j segments⟩

theorem first_isPrefixOf (hj : LooksAt segments j) : arrivedAfter segments 1 <+: arrivedAfter segments j :=
  flatten_isPrefixOf (take_prefix_take_left hj.1)

theorem Splits.starts_iff (h : Splits stream segments) {magic : Bytes} (hmagic : magic <+: stream) :
    magic <+: arrivedAfter segments j ↔ magic.length ≤ (arrivedAfter segments j).length := by
  constructor
  · exact IsPrefix.length_le
  · exact prefix_of_prefix_length_le hmagic (h.arrivedAfter_isPrefixOf j)

theorem Splits.looksAt_one (h : Splits stream segments) (hne : stream ≠ []) : LooksAt segments 1 := by
  refine ⟨le_refl 1, ?_⟩
  cases segments with
  | nil => exact absurd h.flatten.symm hne
  | cons segment segments => simp

theorem Splits.arrivedAfter_length (h : Splits stream segments) : arrivedAfter segments segments.length = stream := by
  rw [arrivedAfter, take_length, h.flatten]

theorem Splits.arrivedAfter_ne_nil (h : Splits stream segments) (hj : LooksAt segments j) :
    arrivedAfter segments j ≠ [] := by
  cases segments with
  | nil => exact absurd hj.2 (by have := hj.1; simp; omega)
  | cons segment segments =>
    obtain ⟨k, rfl⟩ : ∃ k, j = k + 1 := ⟨j - 1, by have := hj.1; omega⟩
    intro hnil
    rw [arrivedAfter, take_succ_cons, flatten_cons, append_eq_nil_iff] at hnil
    exact h.nonempty segment mem_cons_self hnil.1
end

def preface : Bytes := prefaceLine ++ [0x0d, 0x0a, 0x0d, 0x0a, 0x53, 0x4d, 0x0d, 0x0a, 0x0d, 0x0a]

def requestVerbs : List Bytes := [[0x47, 0x45, 0x54, 0x20], [0x50, 0x4f, 0x53, 0x54, 0x20], [0x50, 0x55, 0x54, 0x20],
    [0x44, 0x45, 0x4c, 0x45, 0x54, 0x45, 0x20]]

def StartsRequest (stream : Bytes) : Prop := ∃ verb ∈ requestVerbs, verb <+: stream

inductive VerbStart : UInt8 → UInt8 → UInt8 → Prop
  | get : VerbStart 0x47 0x45 0x54
  | post : VerbStart 0x50 0x4f 0x53
  | put : VerbStart 0x50 0x55 0x54
  | delete : VerbStart 0x44 0x45 0x4c

theorem StartsRequest.bytes {stream : Bytes} (h : StartsRequest stream) :
    ∃ b₀ b₁ b₂ rest, stream = b₀ :: b₁ :: b₂ :: rest ∧ VerbStart b₀ b₁ b₂ := by
  obtain ⟨verb, hverb, rest, rfl⟩ := h
  simp only [requestVerbs, mem_cons, not_mem_nil, or_false] at hverb
  rcases hverb with rfl | rfl | rfl | rfl
  · exact ⟨_, _, _, _, rfl, .get⟩
  · exact ⟨_, _, _, _, rfl, .post⟩
  · exact ⟨_, _, _, _, rfl, .put⟩
  · exact ⟨_, _, _, _, rfl, .delete⟩

theorem StartsRequest.not_preface {stream : Bytes} (h : StartsRequest stream) : ¬ http2Magic <+: stream := by
  obtain ⟨b₀, b₁, b₂, rest, rfl, hverb⟩ := h.bytes
  rintro ⟨more, heq⟩
  cases hverb <;> cases heq

section
variable {stream : Bytes} {segments : List Bytes}

theorem nodeProtocol_eq (chunk : Bytes) : nodeProtocol chunk = if prefaceLine <+: chunk then .grpc else .http := by
  rw [nodeProtocol, isPrefixOf_take (by decide)]
  simp

theorem peekProtocol_take (arrived : Bytes) :
    peekProtocol (arrived.take 8) = if http2Magic <+: arrived then .grpc else .http := by
  rw [peekProtocol, isPrefixOf_take (by decide)]
  simp

theorem sniffProtocol_of_magic {arrived : Bytes} (h : http2Magic <+: arrived)
    (peeks : List (Option Bytes)) : sniffProtocol (some arrived :: peeks) = .grpc := by
  have hmagic : http2Magic.isPrefixOf (arrived.take 8) = true := by
    rw [isPrefixOf_take (by decide)]
    exact isPrefixOf_iff_prefix.2 h
  simp [sniffProtocol, sniffLoop, peeked, hmagic]

theorem independent_preface_iff (hsplit : Splits stream segments) (hpreface : preface <+: stream) :
    Independent stream segments ↔ prefaceLine.length ≤ (arrivedAfter segments 1).length := by
  have hline : prefaceLine <+: stream := (prefix_append _ _).trans hpreface
  have hmagic : http2Magic <+: stream := IsPrefix.trans (by decide) hline
  have hne : stream ≠ [] := by
    rintro rfl
    exact absurd hmagic (by decide)
  constructor
  · -- Node looks for the longest text, so it is the one that fails first
    intro h
    have hnode := h.node 1 (hsplit.looksAt_one hne)
    rw [nodeProtocol_eq, nodeProtocol_eq, if_pos hline] at hnode
    by_contra hshort
    rw [if_neg (mt (hsplit.starts_iff hline).1 hshort)] at hnode
    cases hnode
  · intro hlong
    have hlines : ∀ j, LooksAt segments j → prefaceLine <+: arrivedAfter segments j := by
      intro j hj
      exact (hsplit.starts_iff hline).2 (hlong.trans (first_isPrefixOf hj).length_le)
    have hmagics : ∀ j, LooksAt segments j → http2Magic <+: arrivedAfter segments j :=
      fun j hj => IsPrefix.trans (by decide) (hlines j hj)
    refine ⟨?_, ?_, ?_, ?_⟩
    · intro j hj
      rw [nodeProtocol_eq, nodeProtocol_eq, if_pos hline, if_pos (hlines j hj)]
    · intro j hj
      rw [pythonProtocol, pythonProtocol, peekProtocol_take, peekProtocol_take, if_pos hmagic, if_pos (hmagics j hj)]
    · intro j hj
      rw [cppProtocol, cppProtocol, peekProtocol_take, peekProtocol_take, if_pos hmagic, if_pos (hmagics j hj)]
    · intro js hjs
      rw [sniffProtocol_of_magic hmagic]
      cases js with
      | nil => exact absurd hjs.last not_mem_nil
      | cons j js => exact sniffProtocol_of_magic (hmagics j (hjs.looks j mem_cons_self)) _
end

section
variable {stream : Bytes} {segments : List Bytes} {b₀ b₁ b₂ : UInt8}

theorem nodeProtocol_of_not_magic {bs : Bytes} (h : ¬ http2Magic <+: bs) : nodeProtocol bs = .http := by
  have hline : ¬ prefaceLine <+: bs := fun hline => h (IsPrefix.trans (by decide) hline)
  rw [nodeProtocol_eq, if_neg hline]

theorem peeked_verb (h : VerbStart b₀ b₁ b₂) (rest : Bytes) :
    peeked ((b₀ :: b₁ :: b₂ :: rest).take 8) = some .http := by
  cases h <;> rfl

theorem peeked_one (h : VerbStart b₀ b₁ b₂) : peeked [b₀] = none ∧ breaks [b₀] = false := by
  cases h <;> decide

theorem sniffProtocol_two (h : VerbStart b₀ b₁ b₂) (peeks : List (Option Bytes)) :
    sniffProtocol (some [b₀, b₁] :: peeks) = .unknown := by
  cases h <;> rfl

theorem beginnings {arrived rest : Bytes} (h : arrived <+: b₀ :: b₁ :: b₂ :: rest) :
    arrived = [] ∨ arrived = [b₀] ∨ arrived = [b₀, b₁] ∨ ∃ rest', arrived = b₀ :: b₁ :: b₂ :: rest' := by
  match arrived, h with
  | [], _ => exact .inl rfl
  | [_], h =>
    obtain ⟨rfl, -⟩ := cons_prefix_cons.1 h
    exact .inr (.inl rfl)
  | [_, _], h =>
    obtain ⟨rfl, htail⟩ := cons_prefix_cons.1 h
    obtain ⟨rfl, -⟩ := cons_prefix_cons.1 htail
    exact .inr (.inr (.inl rfl))
  | _ :: _ :: _ :: rest', h =>
    obtain ⟨rfl, htail⟩ := cons_prefix_cons.1 h
    obtain ⟨rfl, htail'⟩ := cons_prefix_cons.1 htail
    obtain ⟨rfl, -⟩ := cons_prefix_cons.1 htail'
    exact .inr (.inr (.inr ⟨rest', rfl⟩))

theorem sniffLoop_request (hverb : VerbStart b₀ b₁ b₂) {buf : Bytes} (hbuf : buf.length ≤ 1) (peeks : List Bytes)
    (hpeeks : ∀ arrived ∈ peeks, arrived = [b₀] ∨ ∃ rest, arrived = b₀ :: b₁ :: b₂ :: rest) (hlast : ∃ rest,
    b₀ :: b₁ :: b₂ :: rest ∈ peeks) : sniffLoop buf (peeks.map some) = .http := by
  -- one byte leaves the loop as it was, and three end it
  induction peeks generalizing buf with
  | nil =>
    obtain ⟨rest, hrest⟩ := hlast
    cases hrest
  | cons arrived peeks ih =>
    have hshort : ¬ 6 ≤ buf.length := by omega
    rw [map_cons, sniffLoop, if_neg hshort]
    rcases hpeeks arrived mem_cons_self with rfl | ⟨rest, rfl⟩
    · have hone : ([b₀] : Bytes).take 8 = [b₀] := rfl
      rw [hone, (peeked_one hverb).1, (peeked_one hverb).2]
      refine ih (le_refl 1) (fun a ha => hpeeks a (mem_cons_of_mem _ ha)) ?_
      obtain ⟨rest, hrest⟩ := hlast
      rcases mem_cons.1 hrest with heq | hrest
      · cases heq
      · exact ⟨rest, hrest⟩
    · rw [peeked_verb hverb]

theorem looksUntil_pair {j : Nat} (hpos : 1 ≤ j) (hle : j ≤ segments.length) :
    LooksUntil segments [j, segments.length] := by
  refine ⟨?_, ?_, ?_⟩
  · intro k hk
    simp only [mem_cons, not_mem_nil, or_false] at hk
    rcases hk with rfl | rfl
    · exact ⟨hpos, hle⟩
    · exact ⟨hpos.trans hle, le_refl _⟩
  · simpa using hle
  · simp

theorem sniffProtocol_whole (hverb : VerbStart b₀ b₁ b₂) (rest : Bytes) :
    sniffProtocol [some (b₀ :: b₁ :: b₂ :: rest)] = .http := by
  rw [sniffProtocol, sniffLoop, if_neg (by decide), peeked_verb hverb]

theorem sniffProtocol_peeksAt {rest : Bytes} (hverb : VerbStart b₀ b₁ b₂)
    (hsplit : Splits (b₀ :: b₁ :: b₂ :: rest) segments) (htwo : ∀ j, (arrivedAfter segments j).length ≠ 2)
    {js : List Nat} (hjs : LooksUntil segments js) : sniffProtocol (peeksAt segments js) = .http := by
  have hpeeks : peeksAt segments js = (js.map (arrivedAfter segments)).map some := by
    rw [peeksAt, map_map]
    rfl
  have hempty : ([] : Bytes).length ≤ 1 := Nat.zero_le 1
  rw [hpeeks, sniffProtocol]
  refine sniffLoop_request hverb hempty _ ?_ ⟨rest, ?_⟩
  · intro arrived harrived
    obtain ⟨j, hj, rfl⟩ := mem_map.1 harrived
    rcases beginnings (hsplit.arrivedAfter_isPrefixOf j) with heq | heq | heq | hthree
    · exact absurd heq (hsplit.arrivedAfter_ne_nil (hjs.looks j hj))
    · exact .inl heq
    · exact absurd (congrArg List.length heq) (htwo j)
    · exact .inr hthree
  · rw [← hsplit.arrivedAfter_length]
    exact mem_map_of_mem hjs.last

theorem exists_sniffProtocol_unknown {rest : Bytes} (hverb : VerbStart b₀ b₁ b₂)
    (hsplit : Splits (b₀ :: b₁ :: b₂ :: rest) segments) {j : Nat} (htwo : (arrivedAfter segments j).length = 2) : ∃ js,
    LooksUntil segments js ∧ sniffProtocol (peeksAt segments js) = .unknown := by
  have harrived : arrivedAfter segments j = [b₀, b₁] := by
    rcases beginnings (hsplit.arrivedAfter_isPrefixOf j) with heq | heq | heq | ⟨rest', heq⟩
    · rw [heq] at htwo
      cases htwo
    · rw [heq] at htwo
      cases htwo
    · exact heq
    · rw [heq] at htwo
      cases htwo
  have hlt : j < segments.length := by
    by_contra hle
    rw [arrivedAfter, take_of_length_le (not_lt.1 hle), hsplit.flatten] at harrived
    cases harrived
  have hpos : 1 ≤ j := by
    by_contra hzero
    have hj : j = 0 := by omega
    rw [hj] at harrived
    cases harrived
  refine ⟨_, looksUntil_pair hpos hlt.le, ?_⟩
  rw [peeksAt, map_cons, harrived, sniffProtocol_two hverb]

theorem independent_request_iff (hsplit : Splits stream segments) (hrequest : StartsRequest stream) :
    Independent stream segments ↔ ∀ j, (arrivedAfter segments j).length ≠ 2 := by
  have hnot : ∀ j, ¬ http2Magic <+: arrivedAfter segments j := fun j hmagic =>
    hrequest.not_preface (hmagic.trans (hsplit.arrivedAfter_isPrefixOf j))
  have hpeek : ∀ {bs : Bytes}, ¬ http2Magic <+: bs → peekProtocol (bs.take 8) = .http := by
    intro bs hbs
    rw [peekProtocol_take, if_neg hbs]
  obtain ⟨b₀, b₁, b₂, rest, rfl, hverb⟩ := hrequest.bytes
  constructor
  · intro h j htwo
    obtain ⟨js, hlooks, hunknown⟩ := exists_sniffProtocol_unknown hverb hsplit htwo
    have hrust := h.rust js hlooks
    rw [hunknown, sniffProtocol_whole hverb] at hrust
    cases hrust
  · intro htwo
    refine ⟨?_, ?_, ?_, ?_⟩
    · intro j _
      rw [nodeProtocol_of_not_magic (hnot j), nodeProtocol_of_not_magic hrequest.not_preface]
    · intro j _
      rw [pythonProtocol, pythonProtocol, hpeek (hnot j), hpeek hrequest.not_preface]
    · intro j _
      rw [cppProtocol, cppProtocol, hpeek (hnot j), hpeek hrequest.not_preface]
    · intro js hjs
      rw [sniffProtocol_peeksAt hverb hsplit htwo hjs, sniffProtocol_whole hverb]
end

/-- The four servers choose the same protocol for a split of a stream as for the whole of it exactly if the first line
of an HTTP/2 preface is not split, and an HTTP/1.1 request is not split behind its second byte. -/
theorem independent_iff {stream : Bytes} {segments : List Bytes} (hsplit : Splits stream segments)
    (hstart : preface <+: stream ∨ StartsRequest stream) :
    Independent stream segments ↔ (preface <+: stream → prefaceLine.length ≤ (arrivedAfter segments 1).length) ∧
        (StartsRequest stream → ∀ j, (arrivedAfter segments j).length ≠ 2) := by
  have hexclusive : preface <+: stream → ¬ StartsRequest stream := fun hpreface hrequest =>
    hrequest.not_preface (IsPrefix.trans (by decide) hpreface)
  rcases hstart with hpreface | hrequest
  · rw [independent_preface_iff hsplit hpreface]
    exact ⟨fun h => ⟨fun _ => h, fun hrequest => absurd hrequest (hexclusive hpreface)⟩, fun h => h.1 hpreface⟩
  · rw [independent_request_iff hsplit hrequest]
    exact ⟨fun h => ⟨fun hpreface => absurd hrequest (hexclusive hpreface), fun _ => h⟩, fun h => h.2 hrequest⟩

theorem independent_iff_get : Independent [0x47, 0x45, 0x54, 0x20, 0x2f] [[0x47, 0x45, 0x54], [0x20, 0x2f]] := by
  have hsplit : Splits [0x47, 0x45, 0x54, 0x20, 0x2f] [[0x47, 0x45, 0x54], [0x20, 0x2f]] := ⟨rfl, by decide⟩
  have hrequest : StartsRequest [0x47, 0x45, 0x54, 0x20, 0x2f] := ⟨[0x47, 0x45, 0x54, 0x20], by decide, by decide⟩
  refine (independent_iff hsplit (.inr hrequest)).2 ⟨fun hpreface => absurd hpreface (by decide), ?_⟩
  intro _ j
  match j with
  | 0 => decide
  | 1 => decide
  | k + 2 => simp [arrivedAfter]

theorem splits_misread : nodeProtocol (arrivedAfter [preface.take 3, preface.drop 3] 1) ≠ nodeProtocol preface ∧
    pythonProtocol (arrivedAfter [preface.take 3, preface.drop 3] 1) ≠ pythonProtocol preface ∧ cppProtocol
    (arrivedAfter [preface.take 3, preface.drop 3] 1) ≠ cppProtocol preface ∧ sniffProtocol
    (peeksAt [preface.take 3, preface.drop 3] [1, 2]) ≠ sniffProtocol [some preface] ∧ sniffProtocol
    (peeksAt [[0x47, 0x45], [0x54, 0x20, 0x2f]] [1, 2]) ≠ sniffProtocol [some [0x47, 0x45, 0x54, 0x20, 0x2f]] := by
  decide

end HelixRpc.Runtime
