import HelixRpc.Foundation.Framing

/-!
# Message frames

A message is sent as a flag byte, the length of its payload as four bytes, highest first, and the payload
(`messageFrame`).
-/

namespace HelixRpc.Foundation

open List

def messageFrame (flag : UInt8) (payload : Bytes) : Bytes := flag :: frame payload

def declaredLength (body : Bytes) : Nat := ofBigEndian ((body.drop 1).take 4)

def declaredPayload (body : Bytes) : Bytes := (body.drop 5).take (declaredLength body)

structure Truncated (body : Bytes) : Prop where
  header : 5 ≤ body.length
  short : body.length < 5 + declaredLength body

structure Complete (body : Bytes) : Prop where
  header : 5 ≤ body.length
  enough : 5 + declaredLength body ≤ body.length

def takeMessage : Bytes → Option (UInt8 × Bytes × Bytes)
  | [] => none
  | flag :: rest =>
    match readFrame (2 ^ 32 - 1) rest with
    | .frame payload behind => some (flag, payload, behind)
    | _ => none

section
variable {flag : UInt8} {payload rest body : Bytes}

@[simp] theorem length_messageFrame : (messageFrame flag payload).length = 5 + payload.length := by
  rw [messageFrame, length_cons, length_frame]
  omega

theorem takeMessage_messageFrame (h : payload.length < 2 ^ 32) (flag : UInt8) (rest : Bytes) :
    takeMessage (messageFrame flag payload ++ rest) = some (flag, payload, rest) := by
  have hread : readFrame (2 ^ 32 - 1) (frame payload ++ rest) = .frame payload rest :=
    readFrame_frame (by omega) (by omega) rest
  rw [messageFrame, cons_append, takeMessage, hread]

theorem eq_of_takeMessage (h : takeMessage body = some (flag, payload, rest)) :
    body = messageFrame flag payload ++ rest ∧ payload.length < 2 ^ 32 := by
  cases body with
  | nil => cases h
  | cons flag' body =>
    rw [takeMessage] at h
    split at h
    · rename_i payload' rest' hread
      obtain ⟨rfl, heq⟩ := Prod.mk.inj (Option.some.inj h)
      cases heq
      obtain ⟨hbody, hlength⟩ := eq_of_readFrame hread
      exact ⟨by rw [messageFrame, cons_append, ← hbody], by omega⟩
    · cases h

theorem takeMessage_whole_iff {flag' : UInt8} {payload' : Bytes} : takeMessage (messageFrame flag payload) =
    some (flag', payload', []) ↔ payload.length < 2 ^ 32 ∧ flag' = flag ∧ payload' = payload := by
  constructor
  · intro htake
    obtain ⟨heq, hlength⟩ := eq_of_takeMessage htake
    rw [append_nil] at heq
    have hlengths := congrArg List.length heq
    rw [length_messageFrame, length_messageFrame] at hlengths
    have hshort : payload.length < 2 ^ 32 := by omega
    have hread := takeMessage_messageFrame hshort flag []
    rw [append_nil, htake] at hread
    cases hread
    exact ⟨hshort, rfl, rfl⟩
  · rintro ⟨hshort, rfl, rfl⟩
    have hread := takeMessage_messageFrame hshort flag' []
    rwa [append_nil] at hread

theorem declaredLength_messageFrame (h : payload.length < 2 ^ 32) (flag : UInt8) (rest : Bytes) :
    declaredLength (messageFrame flag payload ++ rest) = payload.length := by
  have hsize := size_frame h (payload ++ rest)
  rw [declaredLength, messageFrame, cons_append, drop_succ_cons, drop_zero, frame, append_assoc]
  exact hsize

theorem drop_messageFrame (flag : UInt8) (payload rest : Bytes) :
    (messageFrame flag payload ++ rest).drop 5 = payload ++ rest := by
  have hlength : (flag :: bigEndian 4 payload.length).length = 5 := by rw [length_cons, length_bigEndian]
  rw [messageFrame, frame, cons_append, append_assoc, ← cons_append]
  exact drop_left' hlength

theorem declaredPayload_messageFrame (h : payload.length < 2 ^ 32) (flag : UInt8) (rest : Bytes) :
    declaredPayload (messageFrame flag payload ++ rest) = payload := by
  rw [declaredPayload, declaredLength_messageFrame h, drop_messageFrame, take_left]

theorem complete_messageFrame (h : payload.length < 2 ^ 32) (flag : UInt8) (rest : Bytes) :
    Complete (messageFrame flag payload ++ rest) := by
  constructor
  · rw [length_append, length_messageFrame]
    omega
  · rw [declaredLength_messageFrame h, length_append, length_messageFrame]
    omega

theorem ofBigEndian_header (body : Bytes) : ofBigEndian (body.take 5).tail = declaredLength body := by
  cases body <;> rfl

theorem Complete.declared_le (h : Complete body) : declaredLength body ≤ (body.drop 5).length := by
  have henough := h.enough
  rw [length_drop]
  omega

theorem not_complete_iff (hheader : 5 ≤ body.length) : ¬ Complete body ↔ Truncated body :=
  ⟨fun h => ⟨hheader, not_le.1 fun henough => h ⟨hheader, henough⟩⟩,
    fun h hcomplete => absurd hcomplete.enough (not_le.2 h.short)⟩
end

structure FramedMessage where
  flag : UInt8
  payload : Bytes
  short : payload.length < 2 ^ 32

namespace FramedMessage

def bytes (m : FramedMessage) : Bytes := messageFrame m.flag m.payload

variable (m : FramedMessage) (rest : Bytes)

theorem complete : Complete (m.bytes ++ rest) := complete_messageFrame m.short m.flag rest

@[simp] theorem head_bytes : (m.bytes ++ rest).head? = some m.flag := rfl

theorem declaredPayload_bytes : declaredPayload (m.bytes ++ rest) = m.payload :=
  declaredPayload_messageFrame m.short m.flag rest

theorem drop_bytes : ((m.bytes ++ rest).drop 5).drop (declaredLength (m.bytes ++ rest)) = rest := by
  rw [bytes, drop_messageFrame, declaredLength_messageFrame m.short, drop_left]

end FramedMessage

section
variable {σ : Type}

def nthMessage (next : σ → Option Bytes × σ) : Nat → σ → Option Bytes
  | 0, s => (next s).1
  | k + 1, s => nthMessage next k (next s).2

theorem nthMessage_messages {next : σ → Option Bytes × σ} (state : Bytes → σ)
    (hnext : ∀ (m : FramedMessage) (rest : Bytes), next (state (m.bytes ++ rest)) = (some m.payload, state rest))
    (before : List FramedMessage) (m : FramedMessage) (rest : Bytes) : nthMessage next before.length
    (state (before.flatMap FramedMessage.bytes ++ (m.bytes ++ rest))) = some m.payload := by
  induction before with
  | nil =>
    rw [flatMap_nil, nil_append, length_nil, nthMessage, hnext]
  | cons first before ih =>
    rw [flatMap_cons, append_assoc, length_cons, nthMessage, hnext]
    exact ih

/-- What the first `n` calls of a receiver return. -/
def results {ρ : Type} (recv : σ → ρ × σ) : Nat → σ → List ρ
  | 0, _ => []
  | n + 1, s => (recv s).1 :: results recv n (recv s).2

/-- A receiver takes the messages off a stream: `Remains s bytes` says that the bytes are still to come. -/
theorem results_messages {ρ : Type} {recv : σ → ρ × σ} {value : Bytes → ρ} {Remains : σ → Bytes → Prop}
    (hrecv : ∀ s (m : FramedMessage) rest, Remains s (m.bytes ++ rest) → (recv s).1 = value m.payload ∧
    Remains (recv s).2 rest) (ms : List FramedMessage) {s : σ} {rest : Bytes} (h : Remains s
    (ms.flatMap FramedMessage.bytes ++ rest)) : ∃ s', Remains s' rest ∧ ∀ n,
    results recv (ms.length + n) s = ms.map (fun m => value m.payload) ++ results recv n s' := by
  induction ms generalizing s with
  | nil => exact ⟨s, h, fun n => by rw [length_nil, Nat.zero_add]; rfl⟩
  | cons m ms ih =>
    rw [flatMap_cons, append_assoc] at h
    obtain ⟨hvalue, hnext⟩ := hrecv s m _ h
    obtain ⟨s', hs', hrest⟩ := ih hnext
    refine ⟨s', hs', fun n => ?_⟩
    rw [length_cons, Nat.add_right_comm, results, hvalue, hrest, map_cons, cons_append]

/-- A part of a frame that is neither empty nor the whole frame. -/
structure CutOf (m : FramedMessage) (cut : Bytes) : Prop where
  begins : cut <+: m.bytes
  some : cut ≠ []
  part : cut ≠ m.bytes

theorem CutOf.not_complete {m : FramedMessage} {cut : Bytes} (h : CutOf m cut) : ¬ Complete cut := by
  intro hcomplete
  obtain ⟨rest, hrest⟩ := h.begins
  have hheader : declaredLength (cut ++ rest) = declaredLength cut := by
    have hlength := hcomplete.header
    rw [declaredLength, declaredLength, drop_append_of_le_length (by omega),
      take_append_of_le_length (by rw [length_drop]; omega)]
  have hlength := declaredLength_messageFrame m.short m.flag []
  rw [append_nil, ← FramedMessage.bytes, ← hrest, hheader] at hlength
  have hwhole : m.bytes.length ≤ cut.length := by
    rw [FramedMessage.bytes, length_messageFrame, ← hlength]
    exact hcomplete.enough
  exact h.part (h.begins.eq_of_length_le hwhole)
end

end HelixRpc.Foundation
