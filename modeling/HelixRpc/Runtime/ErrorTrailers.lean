import HelixRpc.Runtime.Python.Server

/-!
# Trailers of a failed gRPC-Web call

The Go, Rust and Python servers write the status and the message of an error as two lines in a frame with the flag
0x80.
-/

namespace HelixRpc.Runtime

open Foundation Runtime.Go List
variable {Json : Type}

def trailerLines (status message : Bytes) : Bytes :=
  utf8Bytes "grpc-status: " ++ (status ++ (utf8Bytes "\r\ngrpc-message: " ++ (message ++ utf8Bytes "\r\n")))

variable (isGrpcWebText : Bool)

def errorTrailers (status message : Bytes) : Bytes :=
  let frame := messageFrame 0x80 (trailerLines status message)
  if isGrpcWebText then Base64.encode frame else frame

def Go.writeGrpcWebError (status msg : Bytes) : Bytes := errorTrailers isGrpcWebText status msg

def Rust.errorBody (statusCode errMsg : Bytes) : Bytes :=
  errorTrailers isGrpcWebText statusCode errMsg

def Python.errorTrailers (status message : Text) : Except Python.Exc Bytes := do
  let frame ← Python.trailersFrame (Python.trailersStr status message)
  return if isGrpcWebText then Base64.encode frame else frame

def webBytes (body : Bytes) : Option Bytes :=
  if isGrpcWebText then Base64.decode body else some body

def trailerFields (bytes : Bytes) : Option (List (Bytes × Bytes)) :=
  match takeMessage bytes with
  | some (flag, block, []) => if flag = 0x80 then parseFields block else none
  | _ => none

def readTrailers (body : Bytes) : Option (List (Bytes × Bytes)) :=
  (webBytes isGrpcWebText body).bind trailerFields

def Faithful (decode : Bytes → Option Bytes) (isGrpcWebText : Bool) (status message body : Bytes) : Prop :=
  ∃ value, readTrailers isGrpcWebText body =
      some [(utf8Bytes "grpc-status", status), (utf8Bytes "grpc-message", value)] ∧ decode value = some message

theorem trailerLines_eq (status message : Bytes) : trailerLines status message =
      fieldLine (utf8Bytes "grpc-status") status ++ fieldLine (utf8Bytes "grpc-message") message := by
  have hstatus : utf8Bytes "grpc-status: " = utf8Bytes "grpc-status" ++ [58, 32] := by decide
  have hmessage : utf8Bytes "\r\ngrpc-message: " = crlf ++ (utf8Bytes "grpc-message" ++ [58, 32]) := by decide
  have hend : utf8Bytes "\r\n" = crlf := by decide
  simp [trailerLines, hstatus, hmessage, hend, fieldLine]

section
variable (decode : Bytes → Option Bytes) (isGrpcWebText : Bool)

theorem webBytes_errorTrailers (status message : Bytes) : webBytes isGrpcWebText
    (errorTrailers isGrpcWebText status message) = some (messageFrame 0x80 (trailerLines status message)) := by
  cases isGrpcWebText with
  | true => exact Base64.decode_encode _
  | false => rfl

theorem trailerFields_messageFrame (block : Bytes) : trailerFields (messageFrame 0x80 block) =
      if block.length < 2 ^ 32 then parseFields block else none := by
  rw [trailerFields]
  split
  · rename_i flag block' htake
    obtain ⟨hshort, rfl, rfl⟩ := takeMessage_whole_iff.1 htake
    rw [if_pos rfl, if_pos hshort]
  · rename_i hnone
    rw [if_neg fun hshort => hnone _ _ (takeMessage_whole_iff.2 ⟨hshort, rfl, rfl⟩)]

structure Representable (status message : Bytes) : Prop where
  oneLine : ¬ crlf <:+: message
  short : (trailerLines status message).length < 2 ^ 32
  plain : decode message = some message

theorem faithful_errorTrailers_iff {status : Bytes} (hstatus : 13 ∉ status) (message : Bytes) :
    Faithful decode isGrpcWebText status message (errorTrailers isGrpcWebText status message) ↔
      Representable decode status message := by
  have hname : 58 ∉ utf8Bytes "grpc-status" ∧ 13 ∉ utf8Bytes "grpc-status" := by decide
  have hname' : 58 ∉ utf8Bytes "grpc-message" ∧ 13 ∉ utf8Bytes "grpc-message" := by decide
  have hline : ¬ crlf <:+: status := fun hinside => hstatus (hinside.subset mem_cons_self)
  have hparse : ∀ value, parseFields (trailerLines status message) = some [(utf8Bytes "grpc-status", status),
    (utf8Bytes "grpc-message", value)] ↔ ¬ crlf <:+: message ∧ value = message := by
    intro value
    rw [trailerLines_eq, parseFields_fieldLine_append hname.1 hname.2 hline,
      ← parseFields_fieldLine_iff hname'.1 hname'.2]
    simp
  -- the reader gets to the lines only if their length was written in full
  rw [Faithful, readTrailers, webBytes_errorTrailers, Option.bind_some, trailerFields_messageFrame]
  constructor
  · rintro ⟨value, hread, hdecode⟩
    split at hread
    · rename_i hshort
      obtain ⟨hmessage, rfl⟩ := (hparse value).1 hread
      exact ⟨hmessage, hshort, hdecode⟩
    · cases hread
  · intro hmessage
    exact ⟨message, by rw [if_pos hmessage.short, (hparse message).2 ⟨hmessage.oneLine, rfl⟩], hmessage.plain⟩
end

def statusBytes (code : Nat) : Bytes := Python.asciiBytes (Nat.toDigits 10 code)

theorem toNat_of_mem_toDigits {code : Nat} {ch : Char} (h : ch ∈ Nat.toDigits 10 code) :
    48 ≤ ch.toNat ∧ ch.toNat ≤ 57 := by
  have hdigit := Nat.isDigit_of_mem_toDigits (by decide) (by decide) h
  rw [Char.isDigit, Bool.and_eq_true, decide_eq_true_eq, decide_eq_true_eq] at hdigit
  exact hdigit

theorem notMem_statusBytes (code : Nat) : 13 ∉ statusBytes code := by
  intro hmem
  obtain ⟨ch, hch, heq⟩ := mem_map.1 hmem
  obtain ⟨hlow, hhigh⟩ := toNat_of_mem_toDigits hch
  have htoNat := congrArg UInt8.toNat heq
  rw [UInt8.toNat_ofNat'] at htoNat
  have hthirteen : (13 : UInt8).toNat = 13 := rfl
  omega

def Python.IsAscii (text : Text) : Prop := ∀ ch ∈ text, ch.toNat < 128

variable {text : Text} {bytes : Bytes}

theorem Python.encodeAscii_eq_ok_iff :
    Python.encodeAscii text = .ok bytes ↔ Python.IsAscii text ∧ bytes = Python.asciiBytes text := by
  unfold Python.encodeAscii
  split
  · rename_i hall
    have hascii : Python.IsAscii text := fun ch hch => of_decide_eq_true (all_eq_true.1 hall ch hch)
    constructor
    · intro heq
      cases heq
      exact ⟨hascii, rfl⟩
    · rintro ⟨-, rfl⟩
      rfl
  · rename_i hall
    refine ⟨nofun, fun ⟨hascii, _⟩ => absurd ?_ hall⟩
    exact all_eq_true.2 fun ch hch => decide_eq_true (hascii ch hch)

theorem Python.isAscii_append {front back : Text} :
    Python.IsAscii (front ++ back) ↔ Python.IsAscii front ∧ Python.IsAscii back :=
  forall_mem_append

theorem Python.isAscii_lines_iff {status code name stop : Text} (hstatus : Python.IsAscii status)
    (hcode : Python.IsAscii code) (hname : Python.IsAscii name) (hstop : Python.IsAscii stop) (message : Text) :
    Python.IsAscii (status ++ (code ++ (name ++ (message ++ stop)))) ↔ Python.IsAscii message := by
  simp [Python.isAscii_append, hstatus, hcode, hname, hstop]

theorem Python.isAscii_of_all (hall : (text.all fun ch => decide (ch.toNat < 128)) = true) : Python.IsAscii text :=
  fun ch hch => of_decide_eq_true (all_eq_true.1 hall ch hch)

theorem Python.isAscii_trailersStr_iff (code : Nat) (message : Text) :
    Python.IsAscii (Python.trailersStr (Nat.toDigits 10 code) message) ↔ Python.IsAscii message := by
  have hcode : Python.IsAscii (Nat.toDigits 10 code) := fun ch hch =>
    (toNat_of_mem_toDigits hch).2.trans_lt (by decide)
  exact Python.isAscii_lines_iff (Python.isAscii_of_all (by decide)) hcode
    (Python.isAscii_of_all (by decide)) (Python.isAscii_of_all (by decide)) message

theorem Python.asciiBytes_append (front back : Text) :
    Python.asciiBytes (front ++ back) = Python.asciiBytes front ++ Python.asciiBytes back :=
  map_append

theorem Python.asciiBytes_lines (status code name message stop : Text) : Python.asciiBytes
    (status ++ (code ++ (name ++ (message ++ stop)))) = Python.asciiBytes status ++
    (Python.asciiBytes code ++ (Python.asciiBytes name ++ (Python.asciiBytes message ++ Python.asciiBytes stop))) := by
  simp only [Python.asciiBytes_append]

theorem Python.asciiBytes_trailersStr (code : Nat) (message : Text) :
    Python.asciiBytes (Python.trailersStr (Nat.toDigits 10 code) message) =
      trailerLines (statusBytes code) (Python.asciiBytes message) := by
  have hlines : ∀ {status name stop : Bytes}, status = utf8Bytes "grpc-status: " →
      name = utf8Bytes "\r\ngrpc-message: " → stop = utf8Bytes "\r\n" →
      status ++ (statusBytes code ++ (name ++ (Python.asciiBytes message ++ stop))) =
        trailerLines (statusBytes code) (Python.asciiBytes message) := by
    rintro _ _ _ rfl rfl rfl
    rfl
  exact (Python.asciiBytes_lines _ _ _ _ _).trans (hlines (by decide) (by decide) (by decide))

theorem Python.pyFrame_eq_ok_iff {flag : UInt8} {payload : Bytes} : Python.pyFrame flag payload = .ok bytes ↔
      payload.length < 2 ^ 32 ∧ bytes = messageFrame flag payload := by
  rw [Python.pyFrame, Python.lengthBytes]
  split
  · rename_i hshort
    constructor
    · intro heq
      cases heq
      exact ⟨hshort, rfl⟩
    · rintro ⟨-, rfl⟩
      rfl
  · rename_i hlong
    exact ⟨nofun, fun h => absurd h.1 hlong⟩

theorem Python.trailersFrame_eq_ok_iff : Python.trailersFrame text = .ok bytes ↔ Python.IsAscii text ∧
    (Python.asciiBytes text).length < 2 ^ 32 ∧ bytes = messageFrame 0x80 (Python.asciiBytes text) := by
  rw [Python.trailersFrame]
  cases hencode : Python.encodeAscii text with
  | error e =>
    refine ⟨nofun, fun h => ?_⟩
    rw [Python.encodeAscii_eq_ok_iff.2 ⟨h.1, rfl⟩] at hencode
    cases hencode
  | ok encoded =>
    obtain ⟨hascii, rfl⟩ := Python.encodeAscii_eq_ok_iff.1 hencode
    exact Python.pyFrame_eq_ok_iff.trans ⟨fun h => ⟨hascii, h⟩, fun h => h.2⟩

theorem Python.errorTrailers_eq_ok_iff {isGrpcWebText : Bool} {code : Nat} {message : Text} {body : Bytes} :
    Python.errorTrailers isGrpcWebText (Nat.toDigits 10 code) message = .ok body ↔ Python.IsAscii message ∧
        (trailerLines (statusBytes code) (Python.asciiBytes message)).length < 2 ^ 32 ∧
        body = Runtime.errorTrailers isGrpcWebText (statusBytes code) (Python.asciiBytes message) := by
  rw [Python.errorTrailers, ← Python.asciiBytes_trailersStr, ← Python.isAscii_trailersStr_iff code]
  cases hframe : Python.trailersFrame (Python.trailersStr (Nat.toDigits 10 code) message) with
  | error e =>
    refine ⟨nofun, fun h => ?_⟩
    rw [Python.trailersFrame_eq_ok_iff.2 ⟨h.1, h.2.1, rfl⟩] at hframe
    cases hframe
  | ok frame =>
    obtain ⟨hascii, hshort, rfl⟩ := Python.trailersFrame_eq_ok_iff.1 hframe
    rw [Runtime.errorTrailers, ← Python.asciiBytes_trailersStr]
    constructor
    · intro heq
      cases heq
      exact ⟨hascii, hshort, rfl⟩
    · rintro ⟨-, -, rfl⟩
      rfl

/-- For every status code, the reader finds the status and the message in the trailers of the Go and the Rust server
exactly if the message has no line break, fits into the header and is its own encoding. -/
theorem error_trailers_faithful_iff (decode : Bytes → Option Bytes) (isGrpcWebText : Bool) (code : Nat)
    (message : Bytes) (text : Text) :
    (Faithful decode isGrpcWebText (statusBytes code) message
        (Go.writeGrpcWebError isGrpcWebText (statusBytes code) message) ↔
      Representable decode (statusBytes code) message) ∧ (Faithful decode isGrpcWebText (statusBytes code) message
        (Rust.errorBody isGrpcWebText (statusBytes code) message) ↔ Representable decode (statusBytes code) message) ∧
    ((∃ body, Python.errorTrailers isGrpcWebText (Nat.toDigits 10 code) text = .ok body ∧
        Faithful decode isGrpcWebText (statusBytes code) (Python.asciiBytes text) body) ↔
      Python.IsAscii text ∧ Representable decode (statusBytes code) (Python.asciiBytes text)) := by
  have hfaithful := fun message =>
    faithful_errorTrailers_iff decode isGrpcWebText (notMem_statusBytes code) message
  refine ⟨hfaithful message, hfaithful message, ?_⟩
  constructor
  · rintro ⟨body, hwrite, hread⟩
    obtain ⟨hascii, -, rfl⟩ := Python.errorTrailers_eq_ok_iff.1 hwrite
    exact ⟨hascii, (hfaithful _).1 hread⟩
  · rintro ⟨hascii, hmessage⟩
    exact ⟨_, Python.errorTrailers_eq_ok_iff.2 ⟨hascii, hmessage.short, rfl⟩, (hfaithful _).2 hmessage⟩

theorem forged_trailers : readTrailers false (Go.writeGrpcWebError false (statusBytes 13)
        (utf8Bytes "no\r\ngrpc-status: 0")) =
      some [(utf8Bytes "grpc-status", utf8Bytes "13"), (utf8Bytes "grpc-message", utf8Bytes "no"),
        (utf8Bytes "grpc-status", utf8Bytes "0")] ∧
      Rust.errorBody false (statusBytes 13) (utf8Bytes "no\r\ngrpc-status: 0") =
        Go.writeGrpcWebError false (statusBytes 13) (utf8Bytes "no\r\ngrpc-status: 0") ∧
      Python.errorTrailers false (Nat.toDigits 10 5) "café".toList =
        .error (.valueError "'ascii' codec can't encode character".toList) := by decide

end HelixRpc.Runtime
