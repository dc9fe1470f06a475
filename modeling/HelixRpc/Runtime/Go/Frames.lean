import HelixRpc.Runtime.Go.ServerStream

/-!
# Frames in the Go server

What the unary branch of `ServeHTTP` (`readGrpcFrame`) and `serverStream.Recv` (`recvPayload`) read off a
body.
-/

namespace HelixRpc.Runtime.Go

open Foundation
variable {Resp : Type}

theorem readFull_of_le {n : Nat} {body : Body} (h : n ≤ body.1.length) :
    readFull n body = .ok (body.1.take n, (body.1.drop n, body.2)) := by rw [readFull, if_pos h]

theorem readFull_of_lt {n : Nat} (body : Body) (h : body.1.length < n) : ∃ err, readFull n body = .error err := by
  rw [readFull, if_neg (not_le.2 h)]
  cases body.2 with
  | some err => exact ⟨err, rfl⟩
  | none => exact ⟨_, rfl⟩

variable {bytes : Bytes}

theorem recvPayload_complete (h : Complete bytes) (err : Option Text) : recvPayload (bytes, err) =
      .ok (declaredPayload bytes, ((bytes.drop 5).drop (declaredLength bytes), err)) := by
  rw [recvPayload, readFull_of_le h.header]
  change readFull (uint32 (bytes.take 5).tail) (bytes.drop 5, err) = _
  rw [uint32, ofBigEndian_header, readFull_of_le h.declared_le]
  rfl

theorem recvPayload_incomplete (h : ¬ Complete bytes) (err : Option Text) :
    ∃ e, recvPayload (bytes, err) = .error e := by
  by_cases hheader : 5 ≤ bytes.length
  · have hshort := ((not_complete_iff hheader).1 h).short
    have hrest : (bytes.drop 5).length < declaredLength bytes := by
      rw [List.length_drop]
      omega
    obtain ⟨e, herror⟩ := readFull_of_lt (bytes.drop 5, err) hrest
    refine ⟨e, ?_⟩
    rw [recvPayload, readFull_of_le hheader]
    change readFull (uint32 (bytes.take 5).tail) (bytes.drop 5, err) = _
    rw [uint32, ofBigEndian_header, herror]
  · obtain ⟨e, herror⟩ := readFull_of_lt (bytes, err) (not_le.1 hheader)
    exact ⟨e, by rw [recvPayload, herror]; rfl⟩

theorem readGrpcFrame_eq (lib : Library Resp) (grpcEncoding : Text) (body : Body) :
    readGrpcFrame lib grpcEncoding body = match recvPayload body with
      | .error err => .error err
      | .ok (payload, _) => unaryPayload lib grpcEncoding body.1.head? payload := by
  rw [readGrpcFrame, recvPayload]
  -- both read the header first, so a body without one ends both
  by_cases hheader : 5 ≤ body.1.length
  · have hflag : (body.1.take 5).head? = body.1.head? := by rw [List.head?_take, if_neg (by omega)]
    rw [readFull_of_le hheader]
    change (readFull (uint32 (body.1.take 5).tail) (body.1.drop 5, body.2) >>= fun x => _) =
      match readFull (uint32 (body.1.take 5).tail) (body.1.drop 5, body.2) with
      | .error err => _
      | .ok (payload, _) => _
    cases readFull (uint32 (body.1.take 5).tail) (body.1.drop 5, body.2) with
    | error err => rfl
    | ok read =>
      rw [← hflag]
      rfl
  · obtain ⟨e, herror⟩ := readFull_of_lt body (not_le.1 hheader)
    rw [herror]
    rfl

theorem readGrpcFrame_complete (h : Complete bytes) (lib : Library Resp) (grpcEncoding : Text) (err : Option Text) :
    readGrpcFrame lib grpcEncoding (bytes, err) =
      unaryPayload lib grpcEncoding bytes.head? (declaredPayload bytes) := by
  rw [readGrpcFrame_eq, recvPayload_complete h]

theorem readGrpcFrame_incomplete (h : ¬ Complete bytes) (lib : Library Resp) (grpcEncoding : Text) (err : Option Text) :
    ∃ e, readGrpcFrame lib grpcEncoding (bytes, err) = .error e := by
  obtain ⟨e, herror⟩ := recvPayload_incomplete h err
  exact ⟨e, by rw [readGrpcFrame_eq, herror]⟩

end HelixRpc.Runtime.Go
