import HelixRpc.Runtime.Go.Frames

/-!
# Round trip of a Go stream

`serverStream.Send` and `serverStream.Recv` (`runtimes/go/grpc_handler.go`), where the body is read in pieces
of any length.
-/

namespace HelixRpc.Runtime.Go

open Foundation List
variable {Req Resp : Type}

/-- `io.ReadFull`, with the bytes that it has got. -/
def readFullPieces (n : Nat) : List Bytes → Bytes → Except Text Bytes × List Bytes
  | [], got =>
    (if n ≤ got.length then .ok got else .error (if got = [] then "EOF".toList else "unexpected EOF".toList), [])
  | piece :: pieces, got =>
    if n ≤ got.length then (.ok got, piece :: pieces)
    else if n ≤ got.length + piece.length then
      (.ok (got ++ piece.take (n - got.length)), piece.drop (n - got.length) :: pieces)
    else readFullPieces n pieces (got ++ piece)

/-- `Recv`, up to the payload that is decoded. -/
def recvPieces (pieces : List Bytes) : Except Text Bytes × List Bytes :=
  match readFullPieces 5 pieces [] with
  | (.error err, pieces) => (.error err, pieces)
  | (.ok frameHeader, pieces) => readFullPieces (uint32 frameHeader.tail) pieces []

/-- A read in pieces has the result of a read of all bytes, and leaves the same bytes. -/
def Refines (chunked : Except Text Bytes × List Bytes) : Except Text (Bytes × Body) → Prop
  | .ok (bytes, rest) => chunked.1 = .ok bytes ∧ (chunked.2.flatten, none) = rest
  | .error err => chunked.1 = .error err

theorem readFullPieces_refines (n : Nat) (pieces : List Bytes) (got : Bytes) (h : got.length ≤ n) :
    Refines (readFullPieces n pieces got) (readFull n (got ++ pieces.flatten, none)) := by
  induction pieces generalizing got with
  | nil =>
    rw [readFullPieces, readFull, flatten_nil, append_nil]
    by_cases hn : n ≤ got.length
    · rw [if_pos hn, if_pos hn, take_of_length_le h, drop_of_length_le h]
      exact ⟨rfl, rfl⟩
    · rw [if_neg hn, if_neg hn]
      rfl
  | cons piece pieces ih =>
    rw [readFullPieces, flatten_cons]
    split_ifs with hgot hpiece
    · have hlength : got.length = n := Nat.le_antisymm h hgot
      rw [readFull_of_le (by rw [length_append]; omega), take_left' hlength, drop_left' hlength]
      exact ⟨rfl, rfl⟩
    · have henough : n ≤ (got ++ (piece ++ pieces.flatten)).length := by
        rw [length_append, length_append]
        omega
      rw [readFull_of_le henough]
      refine ⟨?_, ?_⟩
      · rw [take_append, take_of_length_le h, take_append_of_le_length (by omega)]
      · rw [drop_append, drop_of_length_le h, nil_append, drop_append_of_le_length (by omega), flatten_cons]
    · rw [← append_assoc]
      exact ih _ (by rw [length_append]; omega)

theorem recvPieces_refines (pieces : List Bytes) : Refines (recvPieces pieces)
    (recvPayload (pieces.flatten, none)) := by
  have hheader := readFullPieces_refines 5 pieces [] (Nat.zero_le 5)
  rw [nil_append] at hheader
  rw [recvPieces, recvPayload]
  cases hread : readFull 5 (pieces.flatten, none) with
  | error err =>
    rw [hread] at hheader
    generalize readFullPieces 5 pieces [] = first at hheader ⊢
    obtain ⟨result, rest⟩ := first
    cases show result = .error err from hheader
    rfl
  | ok read =>
    rw [hread] at hheader
    obtain ⟨frameHeader, body⟩ := read
    generalize readFullPieces 5 pieces [] = first at hheader ⊢
    obtain ⟨result, rest⟩ := first
    obtain ⟨hresult, hbody⟩ := hheader
    cases show result = .ok frameHeader from hresult
    cases show (rest.flatten, none) = body from hbody
    exact readFullPieces_refines _ rest [] (Nat.zero_le _)

def sendAll (m : MessageCodec Req Resp) (s : GrpcStream) (resps : List Resp) : GrpcStream :=
  resps.foldl (fun s resp => ((grpcStream m).send resp s).stream) s

theorem written_sendAll (m : MessageCodec Req Resp) (s : GrpcStream) (resps : List Resp) (ms : List FramedMessage)
    (hwrites : ∀ before chunk, s.writer.fails before chunk = none) (hflags : ∀ framed ∈ ms, framed.flag = 0)
    (hsent : resps.map (sendPayload m s.streamCodec) = ms.map fun framed => .ok framed.payload) :
    (sendAll m s resps).writer.written = s.writer.written ++ ms.flatMap FramedMessage.bytes := by
  induction resps generalizing s ms with
  | nil =>
    cases ms with
    | nil => exact (append_nil _).symm
    | cons framed ms => cases hsent
  | cons resp resps ih =>
    cases ms with
    | nil => cases hsent
    | cons framed ms =>
      obtain ⟨hpayload, hrest⟩ := cons.inj hsent
      have hflag := hflags framed mem_cons_self
      have hsend : ((grpcStream m).send resp s).stream =
          { s with writer := { s.writer with written := s.writer.written ++ framed.bytes } } := by
        simp [grpcStream, hpayload, Writer.writeAll, hwrites, FramedMessage.bytes, hflag, messageFrame, frame]
      rw [sendAll, foldl_cons, hsend, flatMap_cons, ← append_assoc]
      exact ih _ ms hwrites (fun f hf => hflags f (mem_cons_of_mem _ hf)) hrest

/-- What `Send` has written for some messages is received again, however it is read, and then comes
`io.EOF`; if the bytes end inside of a frame, `Recv` returns an error there. -/
theorem stream_round_trip (m : MessageCodec Req Resp) (s : GrpcStream) (resps : List Resp) (ms : List FramedMessage)
    (hwrites : ∀ before chunk, s.writer.fails before chunk = none) (hflags : ∀ framed ∈ ms, framed.flag = 0)
    (hsent : resps.map (sendPayload m s.streamCodec) = ms.map fun framed => .ok framed.payload) : ∃ bytes,
    (sendAll m s resps).writer.written = s.writer.written ++ bytes ∧ (∀ pieces : List Bytes, pieces.flatten = bytes →
    results recvPieces (ms.length + 1) pieces = ms.map (fun framed => .ok framed.payload) ++ [.error "EOF".toList]) ∧
    ∀ before framed after cut, ms = before ++ framed :: after → CutOf framed cut → ∀ pieces : List Bytes,
    pieces.flatten = before.flatMap FramedMessage.bytes ++ cut → ∃ err, results recvPieces (before.length + 1) pieces =
    before.map (fun framed => .ok framed.payload) ++ [.error err] := by
  have hmessages := @results_messages (List Bytes) _ recvPieces .ok (fun pieces bytes => pieces.flatten = bytes)
    (fun pieces framed rest hrest => by
      have hrecv := recvPieces_refines pieces
      rw [hrest, recvPayload_complete (framed.complete rest), framed.declaredPayload_bytes, framed.drop_bytes] at hrecv
      exact ⟨hrecv.1, congrArg Prod.fst hrecv.2⟩)
  refine ⟨ms.flatMap FramedMessage.bytes, written_sendAll m s resps ms hwrites hflags hsent, ?_, ?_⟩
  · intro pieces hflat
    rw [← append_nil (ms.flatMap _)] at hflat
    obtain ⟨rest, hrest, hresults⟩ := hmessages ms hflat
    have hend : (recvPieces rest).1 = .error "EOF".toList := by
      have hrecv := recvPieces_refines rest
      rw [hrest] at hrecv
      exact hrecv
    rw [hresults, results, hend, results]
  · intro before framed after cut _ hcut pieces hflat
    obtain ⟨rest, hrest, hresults⟩ := hmessages before hflat
    have hrecv := recvPieces_refines rest
    obtain ⟨err, herr⟩ := recvPayload_incomplete hcut.not_complete none
    rw [hrest, herr] at hrecv
    exact ⟨err, by rw [hresults, results, show (recvPieces rest).1 = .error err from hrecv, results]⟩

def byteCodec : MessageCodec Bytes Bytes := ⟨.ok, .ok, .ok, .ok, .ok, .ok, .ok, id⟩

theorem stream_round_trip_byte :
    results recvPieces 2 [[0, 0, 0], [0, 1], [], [7]] = [.ok [7], .error "EOF".toList] := by
  obtain ⟨bytes, hwritten, hpieces, -⟩ := stream_round_trip byteCodec ⟨([], none), ⟨[], fun _ _ => none⟩, []⟩ [[7]]
    [⟨0, [7], by decide⟩] (fun _ _ => rfl) (by simp) rfl
  have hbytes : bytes = [0, 0, 0, 0, 1, 7] := hwritten.symm
  exact hpieces _ hbytes.symm

end HelixRpc.Runtime.Go
