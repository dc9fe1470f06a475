import HelixRpc.Runtime.Rust.Server

/-!
# Receiving on a Rust stream

`GrpcServerStream::recv` on a body that comes in chunks. `has_more` takes an empty chunk for the end of the body.
-/

namespace HelixRpc.Runtime.Rust.GrpcServerStream

open Foundation List

/-- The bytes end where a frame ends. -/
def Boundary (ms : List FramedMessage) (bytes : Bytes) : Prop := ∃ k, bytes = (ms.take k).flatMap FramedMessage.bytes

/-- Behind the bytes `before`, no chunk is empty where a frame ends, unless no bytes follow. -/
def NoEarlyEnd (ms : List FramedMessage) : Bytes → List Bytes → Prop
  | _, [] => True
  | before, chunk :: chunks =>
    (chunk = [] → Boundary ms before → chunks.flatten = []) ∧ NoEarlyEnd ms (before ++ chunk) chunks

variable {n : Nat} {buf rest : Bytes} {chunks : List Bytes} {m : FramedMessage} {ms : List FramedMessage}

theorem boundary_cons (bytes : Bytes) : Boundary (m :: ms) (m.bytes ++ bytes) ↔ Boundary ms bytes := by
  constructor
  · rintro ⟨_ | k, h⟩
    · cases h
    · rw [take_succ_cons, flatMap_cons, append_cancel_left_eq] at h
      exact ⟨k, h⟩
  · rintro ⟨k, rfl⟩
    exact ⟨k + 1, rfl⟩

theorem not_boundary {bytes : Bytes} (hne : bytes ≠ []) (hshort : bytes.length < m.bytes.length) :
    ¬ Boundary (m :: ms) bytes := by
  rintro ⟨_ | k, rfl⟩
  · exact hne rfl
  · rw [take_succ_cons, flatMap_cons, length_append] at hshort
    omega

theorem noEarlyEnd_cons (before : Bytes) (chunks : List Bytes) :
    NoEarlyEnd (m :: ms) (m.bytes ++ before) chunks ↔ NoEarlyEnd ms before chunks := by
  induction chunks generalizing before with
  | nil => rfl
  | cons chunk chunks ih => rw [NoEarlyEnd, NoEarlyEnd, boundary_cons, append_assoc, ih]

theorem noEarlyEnd_of_flatten (h : chunks.flatten = []) (before : Bytes) : NoEarlyEnd ms before chunks := by
  induction chunks generalizing before with
  | nil => trivial
  | cons chunk chunks ih =>
    have hrest := (append_eq_nil_iff.1 h).2
    exact ⟨fun _ _ => hrest, ih hrest _⟩

theorem noEarlyEnd_nil {before : Bytes} (h : before ≠ []) (chunks : List Bytes) : NoEarlyEnd [] before chunks := by
  induction chunks generalizing before with
  | nil => trivial
  | cons chunk chunks ih =>
    refine ⟨fun _ hboundary => ?_, ih fun hnil => h (append_eq_nil_iff.1 hnil).1⟩
    obtain ⟨k, rfl⟩ := hboundary
    exact absurd (by rw [take_nil, flatMap_nil]) h

/-- `read_exact` takes chunks as long as it has less than `n` bytes. -/
theorem readExact_enough (chunks : List Bytes) (buf : Bytes) (h : n ≤ (buf ++ chunks.flatten).length) :
    ∃ chunks' buf', readExact n (chunks.map .ok) buf =
        (.ok ((buf ++ chunks.flatten).take n), ⟨chunks'.map .ok, buf'⟩) ∧
      buf' ++ chunks'.flatten = (buf ++ chunks.flatten).drop n ∧ ∀ ms done,
        (∀ x : Bytes, buf.length ≤ x.length → x.length < n → ¬ Boundary ms (done ++ x)) →
        (NoEarlyEnd ms (done ++ buf) chunks ↔
          NoEarlyEnd ms (done ++ ((buf ++ chunks.flatten).take n ++ buf')) chunks') := by
  induction chunks generalizing buf with
  | nil =>
    rw [flatten_nil, append_nil] at h ⊢
    exact ⟨[], buf.drop n, readExact_of_le h _, append_nil _, by simp⟩
  | cons chunk chunks ih =>
    by_cases hbuf : n ≤ buf.length
    · refine ⟨chunk :: chunks, buf.drop n, ?_, (drop_append_of_le_length hbuf).symm, ?_⟩
      · rw [take_append_of_le_length hbuf]
        exact readExact_of_le hbuf _
      · simp [take_append_of_le_length hbuf]
    · have hnext : readExact n ((chunk :: chunks).map .ok) buf = readExact n (chunks.map .ok) (buf ++ chunk) := by
        rw [map_cons, readExact, if_neg hbuf]
      rw [flatten_cons, ← append_assoc] at h ⊢
      obtain ⟨chunks', buf', hread, hbytes, hiff⟩ := ih (buf ++ chunk) h
      refine ⟨chunks', buf', hnext.trans hread, hbytes, fun ms done hinside => ?_⟩
      have hboundary : ¬ Boundary ms (done ++ buf) := hinside buf (Nat.le_refl _) (Nat.not_le.1 hbuf)
      rw [NoEarlyEnd, and_iff_right fun _ hb => absurd hb hboundary, append_assoc done]
      refine hiff ms done fun x hx => hinside x ?_
      rw [length_append] at hx
      omega

theorem readExact_short (chunks : List Bytes) (buf : Bytes) (h : (buf ++ chunks.flatten).length < n) :
    ∃ err s, readExact n (chunks.map .ok) buf = (.error err, s) := by
  induction chunks generalizing buf with
  | nil =>
    rw [flatten_nil, append_nil] at h
    exact ⟨_, _, by rw [map_nil, readExact, if_neg (Nat.not_le.2 h)]⟩
  | cons chunk chunks ih =>
    have hbuf : ¬ n ≤ buf.length := by
      rw [length_append] at h
      omega
    rw [flatten_cons, ← append_assoc] at h
    rw [map_cons, readExact, if_neg hbuf]
    exact ih (buf ++ chunk) h

/-- `has_more` takes an empty chunk for the end of the body. -/
theorem hasMore_cases (h : buf ++ chunks.flatten ≠ []) :
    (buf = [] ∧ (∃ chunks', chunks = [] :: chunks') ∧ (hasMore ⟨chunks.map .ok, buf⟩).1 = false) ∨
      ∃ chunks' buf', buf' ≠ [] ∧ hasMore ⟨chunks.map .ok, buf⟩ = (true, ⟨chunks'.map .ok, buf'⟩) ∧
        buf' ++ chunks'.flatten = buf ++ chunks.flatten ∧ ∀ ms, NoEarlyEnd ms buf chunks ↔ NoEarlyEnd ms buf' chunks' := by
  by_cases hbuf : buf = []
  · subst hbuf
    cases chunks with
    | nil => exact absurd rfl h
    | cons chunk chunks =>
      by_cases hchunk : chunk = []
      · subst hchunk
        exact .inl ⟨rfl, ⟨chunks, rfl⟩, rfl⟩
      · refine .inr ⟨chunks, chunk, hchunk, by simp [hasMore, hchunk], rfl, fun ms => ?_⟩
        rw [NoEarlyEnd, and_iff_right fun hnil => absurd hnil hchunk, nil_append]
  · exact .inr ⟨chunks, buf, hbuf, if_pos hbuf, rfl, fun _ => Iff.rfl⟩

theorem not_noEarlyEnd (h : chunks.flatten ≠ []) : ¬ NoEarlyEnd ms [] ([] :: chunks) :=
  fun hno => h (hno.1 rfl ⟨0, rfl⟩)

theorem recv_blocked {s : GrpcServerStream} (h : s.hasMore.1 = false) : s.recv.1 = .ok none := by
  rw [recv]
  split
  · rfl
  · simp_all

theorem recv_message {s : GrpcServerStream} (hmore : s.hasMore = (true, ⟨chunks.map .ok, buf⟩)) (hbuf : buf ≠ [])
    (h : buf ++ chunks.flatten = m.bytes ++ rest) (ms : List FramedMessage) : ∃ chunks' buf',
      s.recv = (.ok (some m.payload), ⟨chunks'.map .ok, buf'⟩) ∧ buf' ++ chunks'.flatten = rest ∧
        (NoEarlyEnd (m :: ms) buf chunks ↔ NoEarlyEnd ms buf' chunks') := by
  have hcomplete := m.complete rest
  have hlength : m.bytes.length = 5 + m.payload.length := by
    rw [FramedMessage.bytes, length_messageFrame]
  have hdeclared : declaredLength (m.bytes ++ rest) = m.payload.length := declaredLength_messageFrame m.short _ _
  have hpayload : m.payload.length ≤ ((m.bytes ++ rest).drop 5).length := hdeclared ▸ hcomplete.declared_le
  obtain ⟨chunks₁, buf₁, hread₁, hbytes₁, hiff₁⟩ := readExact_enough chunks buf (h ▸ hcomplete.header)
  rw [h] at hread₁ hbytes₁ hiff₁
  obtain ⟨chunks₂, buf₂, hread₂, hbytes₂, hiff₂⟩ := readExact_enough chunks₁ buf₁ (hbytes₁ ▸ hpayload)
  rw [hbytes₁] at hread₂ hbytes₂ hiff₂
  refine ⟨chunks₂, buf₂, ?_, ?_, ?_⟩
  · simp only [recv, hmore, hread₁, Go.uint32, ofBigEndian_header, hdeclared, hread₂]
    rw [← hdeclared, ← declaredPayload, m.declaredPayload_bytes]
  · rw [hbytes₂, ← hdeclared, m.drop_bytes]
  · have hframe : (m.bytes ++ rest).take 5 ++ ((m.bytes ++ rest).drop 5).take m.payload.length = m.bytes := by
      rw [← take_add, ← hlength, take_left]
    have hfive : ((m.bytes ++ rest).take 5).length = 5 := length_take_of_le hcomplete.header
    have hheader := hiff₁ (m :: ms) [] fun x hx hlt => not_boundary
      (ne_nil_of_length_pos (Nat.lt_of_lt_of_le (length_pos_iff.2 hbuf) hx)) (by rw [nil_append]; omega)
    have hrest := hiff₂ (m :: ms) ((m.bytes ++ rest).take 5) fun x _ hlt => not_boundary
      (ne_nil_of_length_pos (by rw [length_append]; omega)) (by rw [length_append]; omega)
    rw [← append_assoc, hframe, noEarlyEnd_cons] at hrest
    exact hheader.trans hrest

theorem recv_cut {s : GrpcServerStream} (hmore : s.hasMore = (true, ⟨chunks.map .ok, buf⟩))
    (hcut : ¬ Complete (buf ++ chunks.flatten)) : ∃ err, s.recv.1 = .error err := by
  by_cases hlength : 5 ≤ (buf ++ chunks.flatten).length
  · obtain ⟨chunks₁, buf₁, hheader, hbytes₁, -⟩ := readExact_enough chunks buf hlength
    have hshort := ((not_complete_iff hlength).1 hcut).short
    have hlt : (buf₁ ++ chunks₁.flatten).length < declaredLength (buf ++ chunks.flatten) := by
      rw [hbytes₁, length_drop]
      omega
    obtain ⟨err, s₂, hpayload⟩ := readExact_short chunks₁ buf₁ hlt
    exact ⟨err, by simp only [recv, hmore, hheader, Go.uint32, ofBigEndian_header, hpayload]⟩
  · obtain ⟨err, s₁, hheader⟩ := readExact_short chunks buf (Nat.not_le.1 hlength)
    exact ⟨err, by simp only [recv, hmore, hheader]⟩

theorem recv_end (buf : Bytes) (chunks : List Bytes) (h : buf ++ chunks.flatten = []) :
    (recv ⟨chunks.map .ok, buf⟩).1 = .ok none ↔ NoEarlyEnd [] buf chunks := by
  obtain ⟨rfl, hflat⟩ := append_eq_nil_iff.1 h
  refine iff_of_true (recv_blocked ?_) (noEarlyEnd_of_flatten hflat _)
  cases chunks with
  | nil => rfl
  | cons chunk chunks =>
    obtain ⟨rfl, -⟩ := append_eq_nil_iff.1 hflat
    rfl

theorem recv_rest {cut : Bytes} (hcut : CutOf m cut) (buf : Bytes) (chunks : List Bytes)
    (h : buf ++ chunks.flatten = cut) :
    (∃ err, (recv ⟨chunks.map .ok, buf⟩).1 = .error err) ↔ NoEarlyEnd [] buf chunks := by
  have hne := h ▸ hcut.some
  rcases hasMore_cases hne with ⟨rfl, ⟨chunks, rfl⟩, hmore⟩ | ⟨chunks', buf', hbuf, hmore, hbytes, hno⟩
  · refine iff_of_false ?_ (@not_noEarlyEnd chunks _ hne)
    rw [recv_blocked hmore]
    rintro ⟨err, ⟨⟩⟩
  · refine iff_of_true (recv_cut hmore ?_) ((hno []).2 (noEarlyEnd_nil hbuf _))
    rw [hbytes, h]
    exact hcut.not_complete

/-- Frames and what follows them: `recv` returns the payloads and then what `Last` asks for exactly
if it never sees an empty chunk too early. -/
theorem results_iff (Last : Except Go.Text (Option Bytes) → Prop) (hlast : ∀ buf chunks, buf ++ chunks.flatten = rest →
      (Last (recv ⟨chunks.map .ok, buf⟩).1 ↔ NoEarlyEnd [] buf chunks))
    (buf : Bytes) (h : buf ++ chunks.flatten = ms.flatMap FramedMessage.bytes ++ rest) :
    (∃ r, Last r ∧ results recv (ms.length + 1) ⟨chunks.map .ok, buf⟩ =
      ms.map (fun m => .ok (some m.payload)) ++ [r]) ↔ NoEarlyEnd ms buf chunks := by
  induction ms generalizing buf chunks with
  | nil =>
    rw [← hlast buf chunks h]
    simp [results]
  | cons m ms ih =>
    rw [flatMap_cons, append_assoc] at h
    have hne : buf ++ chunks.flatten ≠ [] := by
      rw [h]
      exact cons_ne_nil _ _
    rcases hasMore_cases hne with ⟨rfl, ⟨chunks, rfl⟩, hmore⟩ | ⟨chunks', buf', hbuf, hmore, hbytes, hno⟩
    · refine iff_of_false ?_ (@not_noEarlyEnd chunks _ hne)
      rintro ⟨r, -, hresults⟩
      rw [length_cons, results, recv_blocked hmore] at hresults
      cases hresults
    · obtain ⟨chunks'', buf'', hrecv, hrest, hiff⟩ := recv_message hmore hbuf (hbytes.trans h) ms
      rw [hno, hiff, ← ih _ hrest]
      simp [results, hrecv]

/-- `recv` returns the payloads in their order and then `None`, or an error if the bytes end inside
of a frame, exactly if no chunk is empty where a frame ends and bytes follow. -/
theorem recv_independent_iff (ms : List FramedMessage) (chunks : List Bytes) :
    (chunks.flatten = ms.flatMap FramedMessage.bytes →
      (results recv (ms.length + 1) ⟨chunks.map .ok, []⟩ = ms.map (fun m => .ok (some m.payload)) ++ [.ok none] ↔
        NoEarlyEnd ms [] chunks)) ∧
    ∀ m cut, CutOf m cut → chunks.flatten = ms.flatMap FramedMessage.bytes ++ cut →
      ((∃ err, results recv (ms.length + 1) ⟨chunks.map .ok, []⟩ =
        ms.map (fun m => .ok (some m.payload)) ++ [.error err]) ↔ NoEarlyEnd ms [] chunks) := by
  constructor
  · intro hflat
    rw [← append_nil (ms.flatMap _)] at hflat
    have hiff := results_iff (· = .ok none) recv_end [] hflat
    simpa using hiff
  · intro m cut hcut hflat
    have hiff := results_iff (fun r => ∃ err, r = .error err) (recv_rest hcut) [] hflat
    simpa using hiff

theorem recv_independent_iff_byte :
    results recv 2 ⟨[.ok [0, 0, 0], .ok [], .ok [0, 1, 7], .ok []], []⟩ = [.ok (some [7]), .ok none] :=
  ((recv_independent_iff [⟨0, [7], by decide⟩] [[0, 0, 0], [], [0, 1, 7], []]).1 rfl).2
    ⟨by simp, fun _ hboundary => absurd hboundary (not_boundary (by simp) (by decide)), by simp, fun _ _ => rfl, trivial⟩

theorem empty_chunk_ends_stream :
    results recv 2 ⟨[.ok [0, 0, 0, 0, 1, 7], .ok [], .ok [0, 0, 0, 0, 1, 8]], []⟩ = [.ok (some [7]), .ok none] := by
  decide

end HelixRpc.Runtime.Rust.GrpcServerStream
