import HelixRpc.Codegen.Transpilers

/-!
# `View::parse` of the generated Rust code

Model of the zero-copy view that `GenerateRust` writes for a struct without complex fields.
-/

namespace HelixRpc.Codegen.Rust

open Foundation Compiler Codegen.Go List Outcome Function

def ViewVar : Kind → Type
  | .int32 => BitVec 32
  | .int64 => BitVec 64
  | .string => Bytes
  | .binary => Bytes
  | _ => Unit

def ViewVal : Kind → Type
  | .int32 => BitVec 32
  | .int64 => BitVec 64
  | .string => String
  | .binary => Bytes
  | _ => Unit

variable (s : StructNode)

abbrev View := (i : Fin s.fields.length) → ViewVal (kindAt s i)

def declared : Kind → Bool
  | .int32 | .int64 | .string | .binary => true
  | _ => false

def borrowed : Kind → Bool
  | .string | .binary => true
  | _ => false

/-- The compiler accepts the view and its `parse`: all variables are declared, and the lifetime
parameter of the view is used. -/
def viewCompiles : Bool :=
  s.fields.all (fun f => declared f.kind) && s.fields.any (fun f => borrowed f.kind)

def ViewVar.initial : (k : Kind) → ViewVar k
  | .int32 => (0 : BitVec 32)
  | .int64 => (0 : BitVec 64)
  | .string => ([] : Bytes)
  | .binary => ([] : Bytes)
  | .bool | .double | .void | .map | .list | .struct | .enum => ()

variable (checks : Bool)

def parseSlice (buf : Bytes) (idx : Nat) : Outcome Failure (Bytes × Nat) := do
  let (len, idx) ← readVarint checks buf idx
  let stop ← addIndex checks idx len.toNat
  if buf.length < stop then .error (.raised "unexpected EOF")
  -- without overflow checks the sum may have wrapped around
  else if stop < idx then .fault .slice
  else pure ((buf.take stop).drop idx, stop)

def parseArm : (k : Kind) → Bytes → Nat → Outcome Failure (ViewVar k × Nat)
  | .int32, buf, idx => do
      let (v, idx) ← readVarint checks buf idx
      pure (v.setWidth 32, idx)
  | .int64, buf, idx => do
      let (v, idx) ← readVarint checks buf idx
      pure (v, idx)
  | .string, buf, idx => parseSlice checks buf idx
  | .binary, buf, idx => parseSlice checks buf idx
  | .bool, _, idx | .double, _, idx | .void, _, idx | .map, _, idx | .list, _, idx
  | .struct, _, idx | .enum, _, idx => pure ((), idx)

def parseUnknown (wireType : Nat) (buf : Bytes) (idx : Nat) : Outcome Failure Nat :=
  if wireType = 0 then do
    let (_, idx) ← readVarint checks buf idx
    pure idx
  else if wireType = 2 then do
    let (len, idx) ← readVarint checks buf idx
    addIndex checks idx len.toNat
  else .error (.raised ("unsupported wire_type " ++ toString wireType))

def finishField : (k : Kind) → ViewVar k → Option (ViewVal k)
  | .int32, v => some v
  | .int64, v => some v
  | .string, v => decodeUtf8 v
  | .binary, v => some v
  | .bool, _ | .double, _ | .void, _ | .map, _ | .list, _ | .struct, _ | .enum, _ => some ()

structure ParseState (s : StructNode) where
  idx : Nat
  vars : (i : Fin s.fields.length) → ViewVar (kindAt s i)

def finish (vars : (i : Fin s.fields.length) → ViewVar (kindAt s i)) : Outcome Failure (View s) :=
  if h : ∀ i, (finishField (kindAt s i) (vars i)).isSome = true then
    .ok fun i => (finishField (kindAt s i) (vars i)).get (h i)
  else .error .decode

def parseStep (s : StructNode) (buf : Bytes) (st : ParseState s) :
    Outcome Failure (Flow (ParseState s) (View s)) :=
  if st.idx < buf.length then do
    let (tag, idx) ← readVarint checks buf st.idx
    let fieldNum := (tag >>> 3).setWidth 32
    let wireType := (tag &&& 7).toNat
    match caseOf s fieldNum with
    | some c => do
        let (v, idx) ← parseArm checks (kindAt s c) buf idx
        pure (.next ⟨idx, update st.vars c v⟩)
    | none => do
        let idx ← parseUnknown checks wireType buf idx
        pure (.next { st with idx := idx })
  else do
    let view ← finish s st.vars
    pure (.ret view)

/-- `View::parse(buf)` compiles and returns the outcome `r`. -/
def Parses (s : StructNode) (buf : Slice) (r : Outcome Failure (View s)) : Prop :=
  s.hasFallback = false ∧ viewCompiles s = true ∧
    Returns (parseStep checks s buf.bytes) ⟨0, fun i => ViewVar.initial (kindAt s i)⟩ r

inductive SameVar : (k : Kind) → GoVal k → ViewVar k → Prop where
  | int32 (v : BitVec 32) : SameVar .int32 v v
  | int64 (v : BitVec 64) : SameVar .int64 v v
  | string (v : Slice) : SameVar .string v v.bytes

inductive SameValue : (k : Kind) → GoVal k → ViewVal k → Prop where
  | int32 (v : BitVec 32) : SameValue .int32 v v
  | int64 (v : BitVec 64) : SameValue .int64 v v
  | string (v : Slice) (text : String) (h : v.bytes = utf8Bytes text) : SameValue .string v text

variable (pre post : Bytes)

theorem readVarint_varint (raw : Varint) :
    readVarint checks (pre ++ (raw.bytes ++ post)) pre.length = .ok (raw.value, pre.length + raw.bytes.length) := by
  rw [readVarint, drop_left]
  apply varintLoop_word
  intro acc p s hs
  rw [accumulate, if_neg (by omega), Nat.mod_eq_of_lt hs]

theorem parseSlice_delimited {len : Varint} {payload : Slice} (size : len.value.toNat = payload.bytes.length)
    (hlen : (pre ++ (len.bytes ++ payload.bytes ++ post)).length < 2 ^ 63) : parseSlice checks
    (pre ++ (len.bytes ++ payload.bytes ++ post)) pre.length = .ok (payload.bytes,
    pre.length + (len.bytes ++ payload.bytes).length) := by
  simp only [length_append] at hlen
  have hread := readVarint_varint checks pre (payload.bytes ++ post) len
  rw [← append_assoc len.bytes] at hread
  have hadd : addIndex checks (pre.length + len.bytes.length) len.value.toNat =
      .ok (pre ++ len.bytes ++ payload.bytes).length := by
    rw [addIndex, size, if_pos (by omega), length_append, length_append]
  have hsplit : pre ++ (len.bytes ++ payload.bytes ++ post) = (pre ++ len.bytes ++ payload.bytes) ++ post := by
    simp
  have hcut : ((pre ++ (len.bytes ++ payload.bytes ++ post)).take
      (pre ++ len.bytes ++ payload.bytes).length).drop (pre.length + len.bytes.length) = payload.bytes := by
    rw [hsplit, take_left, ← length_append, drop_left]
  unfold parseSlice
  simp only [hread, ok_bind, hadd]
  rw [if_neg (by simp only [length_append]; omega), if_neg (by simp only [length_append]; omega), hcut]
  simp only [length_append, Nat.add_assoc]
  rfl

theorem parseArm_body {k : Kind} (hk : Codable k) {body : Body} (hwt : body.wireType = wireTypeOf k)
    (hlen : (pre ++ (body.bytes ++ post)).length < 2 ^ 63) : ∃ v, SameVar k (bodyValue k body) v ∧ parseArm checks k
    (pre ++ (body.bytes ++ post)) pre.length = .ok (v, pre.length + body.bytes.length) := by
  cases kindBody_of_wireType hk hwt with
  | int32 raw =>
    refine ⟨_, .int32 _, ?_⟩
    simp only [parseArm, Body.bytes, readVarint_varint, ok_bind]
    rfl
  | int64 raw =>
    refine ⟨_, .int64 _, ?_⟩
    simp only [parseArm, Body.bytes, readVarint_varint, ok_bind]
    rfl
  | string len payload size =>
    exact ⟨_, .string payload, parseSlice_delimited checks pre post size hlen⟩

theorem parseUnknown_body {body : Body} (hwt : body.wireType = 0 ∨ body.wireType = 2)
    (hlen : (pre ++ (body.bytes ++ post)).length < 2 ^ 63) : parseUnknown checks body.wireType
    (pre ++ (body.bytes ++ post)) pre.length = .ok (pre.length + body.bytes.length) := by
  cases body with
  | varint raw =>
    show parseUnknown checks 0 (pre ++ (raw.bytes ++ post)) pre.length = _
    rw [parseUnknown, if_pos rfl]
    simp only [readVarint_varint, ok_bind]
    rfl
  | fixed64 raw size => simp [Body.wireType] at hwt
  | delimited len payload size =>
    simp only [Body.bytes, length_append] at hlen
    have hread := readVarint_varint checks pre (payload.bytes ++ post) len
    rw [← append_assoc len.bytes] at hread
    show parseUnknown checks 2 (pre ++ (len.bytes ++ payload.bytes ++ post)) pre.length = _
    rw [parseUnknown, if_neg (by decide), if_pos rfl]
    simp only [hread, ok_bind]
    rw [addIndex, size, if_pos (by omega)]
    simp [Body.bytes, Nat.add_assoc]

def Tracks (x : GoStruct s) (vars : (i : Fin s.fields.length) → ViewVar (kindAt s i)) : Prop :=
  ∀ i, SameVar (kindAt s i) (x i) (vars i)

variable {s : StructNode} {x : GoStruct s} {vars : (i : Fin s.fields.length) → ViewVar (kindAt s i)}

theorem tracks_zero (hcod : AllCodable s) : Tracks s (GoStruct.zero s) fun i => ViewVar.initial (kindAt s i) := by
  intro i
  have hk := allCodable_at hcod i
  show SameVar (kindAt s i) (GoVal.zero (kindAt s i)) (ViewVar.initial (kindAt s i))
  generalize kindAt s i = k at hk
  cases k with
  | int32 => exact .int32 0
  | int64 => exact .int64 0
  | string => exact .string Slice.empty
  | _ => exact hk.elim

theorem Tracks.update (h : Tracks s x vars) {c : Fin s.fields.length} {a : GoVal (kindAt s c)}
    {v : ViewVar (kindAt s c)} (hv : SameVar (kindAt s c) a v) : Tracks s (update x c a) (update vars c v) := by
  intro i
  by_cases hi : i = c
  · subst hi
    rw [update_self, update_self]
    exact hv
  · rw [update_of_ne hi, update_of_ne hi]
    exact h i

theorem parseStep_record (checks : Bool) (hcod : AllCodable s) {r : Record} (hr : Declared s r) (pre post : Bytes)
    (hlen : (pre ++ (r.bytes ++ post)).length < 2 ^ 63) (htrack : Tracks s x vars) : ∃ vars', Tracks s
    (applyRecord s x r) vars' ∧ Steps (parseStep checks s (pre ++ (r.bytes ++ post))) ⟨pre.length, vars⟩
    ⟨(pre ++ r.bytes).length, vars'⟩ := by
  have hpos := r.key.length_pos
  have hinput : pre ++ (r.bytes ++ post) = (pre ++ r.key.bytes) ++ (r.body.bytes ++ post) := by
    simp [Record.bytes]
  have hread := readVarint_varint checks pre (r.body.bytes ++ post) r.key
  rw [← append_assoc, ← length_append] at hread
  have hend : (pre ++ r.key.bytes).length + r.body.bytes.length = (pre ++ r.bytes).length := by
    simp [Record.bytes, Nat.add_assoc]
  rw [hinput] at hlen ⊢
  cases hf : fieldOf s r with
  | some c =>
    have hwt : r.body.wireType = wireTypeOf (kindAt s c) := by simpa [Declared, hf] using hr
    obtain ⟨v, hv, harm⟩ := parseArm_body checks (pre ++ r.key.bytes) post (allCodable_at hcod c) hwt hlen
    refine ⟨update vars c v, ?_, ?_⟩
    · simp only [applyRecord, hf]
      exact htrack.update hv
    · have hsel : caseOf s (BitVec.ofNat 32 r.num) = some c := hf
      rw [Steps, parseStep, if_pos (by simp only [length_append]; omega)]
      simp only [hread, ok_bind, r.key_num, hsel, harm, hend]
      rfl
  | none =>
    have hwt : r.body.wireType = 0 ∨ r.body.wireType = 2 := by simpa [Declared, hf] using hr
    have hskip := parseUnknown_body checks (pre ++ r.key.bytes) post hwt hlen
    refine ⟨vars, ?_, ?_⟩
    · simp only [applyRecord, hf]
      exact htrack
    · have hsel : caseOf s (BitVec.ofNat 32 r.num) = none := hf
      rw [Steps, parseStep, if_pos (by simp only [length_append]; omega)]
      simp only [hread, ok_bind, r.key_num, hsel, r.key_wireType, hskip, hend]
      rfl

theorem parse_reaches (checks : Bool) (hcod : AllCodable s) {rs : List Record} (hrs : ∀ r ∈ rs, Declared s r)
    (pre post : Bytes) (hlen : (pre ++ (encodeRecords rs ++ post)).length < 2 ^ 63) (htrack : Tracks s x vars) :
    ∃ vars', Tracks s (rs.foldl (applyRecord s) x) vars' ∧
      Reaches (parseStep checks s (pre ++ (encodeRecords rs ++ post))) ⟨pre.length, vars⟩
        ⟨(pre ++ encodeRecords rs).length, vars'⟩ := by
  induction rs generalizing pre x vars with
  | nil =>
    rw [encodeRecords_nil, append_nil]
    exact ⟨vars, htrack, Relation.ReflTransGen.refl⟩
  | cons r rs ih =>
    rw [encodeRecords_cons, append_assoc] at hlen ⊢
    obtain ⟨mid, hmid, hstep⟩ := parseStep_record checks hcod (hrs r (by simp)) pre
      (encodeRecords rs ++ post) hlen htrack
    obtain ⟨vars', hvars', hrest⟩ := ih (fun q hq => hrs q (by simp [hq])) (pre ++ r.bytes)
      (by rw [append_assoc]; exact hlen) hmid
    rw [append_assoc, append_assoc] at hrest
    exact ⟨vars', hvars', Relation.ReflTransGen.head hstep hrest⟩

theorem finish_of_tracks (htrack : Tracks s x vars) (htext : ∀ i, IsText (kindAt s i) (x i)) :
    ∃ y, finish s vars = .ok y ∧ ∀ i, SameValue (kindAt s i) (x i) (y i) := by
  have hfield : ∀ i, ∃ v, finishField (kindAt s i) (vars i) = some v ∧ SameValue (kindAt s i) (x i) v := by
    intro i
    have hsame := htrack i
    have hutf := htext i
    generalize kindAt s i = k, x i = a, vars i = b at hsame hutf
    cases hsame with
    | int32 v => exact ⟨v, rfl, .int32 v⟩
    | int64 v => exact ⟨v, rfl, .int64 v⟩
    | string v =>
      obtain ⟨text, hbytes⟩ := hutf
      exact ⟨text, decodeUtf8_eq_some_iff.2 hbytes, .string v text hbytes.symm⟩
  have hall : ∀ i, (finishField (kindAt s i) (vars i)).isSome = true := by
    intro i
    obtain ⟨v, hv, -⟩ := hfield i
    rw [hv]
    rfl
  refine ⟨_, dif_pos hall, ?_⟩
  intro i
  obtain ⟨v, hv, hsame⟩ := hfield i
  rwa [Option.get_of_eq_some (hall i) hv]

theorem viewCompiles_iff (hcod : AllCodable s) : viewCompiles s = true ↔ ∃ f ∈ s.fields, f.kind = .string := by
  have hdeclared : s.fields.all (fun f => declared f.kind) = true := by
    rw [all_eq_true]
    intro f hf
    have hk := hcod f hf
    cases h : f.kind with
    | int32 => rfl
    | int64 => rfl
    | string => rfl
    | _ => rw [h] at hk; exact hk.elim
  rw [viewCompiles, hdeclared, Bool.true_and, any_eq_true]
  constructor
  · rintro ⟨f, hf, hb⟩
    have hk := hcod f hf
    refine ⟨f, hf, ?_⟩
    cases h : f.kind with
    | string => rfl
    | int32 => rw [h] at hb; cases hb
    | int64 => rw [h] at hb; cases hb
    | _ => rw [h] at hk; exact hk.elim
  · rintro ⟨f, hf, hk⟩
    exact ⟨f, hf, by rw [hk]; rfl⟩

def Agree (checks : Bool) (s : StructNode) (buf : Slice) : Prop :=
  ∃ x y, Unmarshals s buf (.ok x) ∧ Parses checks s buf (.ok y) ∧ ∀ i, SameValue (kindAt s i) (x i) (y i)

/-- On a message of well-formed records whose last strings are UTF-8, `View::parse` and the Go
`Unmarshal` agree exactly if the struct has a string field; the view of a struct without one does not
compile. -/
theorem parse_agrees_iff (checks : Bool) {s : StructNode} (hfb : s.hasFallback = false) (hcod : AllCodable s)
    (hids : DistinctIds s) {rs : List Record} (hrs : ∀ r ∈ rs, Declared s r) {buf : Slice}
    (h : buf.bytes = encodeRecords rs) (htext : ∀ i, IsText (kindAt s i) (lastValue s rs i)) : Agree checks s buf ↔
    ∃ f ∈ s.fields, f.kind = .string := by
  rw [← viewCompiles_iff hcod]
  constructor
  · rintro ⟨x, y, -, ⟨-, hcompiles, -⟩, -⟩
    exact hcompiles
  · intro hcompiles
    have hgo : Unmarshals s buf (.ok (rs.foldl (applyRecord s) (GoStruct.zero s))) :=
      unmarshal_records (fun r hr => readable_of_allCodable hcod (hrs r hr)) h
    rw [← foldl_applyRecord hids] at htext
    have hlen := buf.len_lt
    rw [h] at hlen
    obtain ⟨vars, htrack, hreach⟩ := parse_reaches checks hcod hrs [] [] (by simpa using hlen) (tracks_zero hcod)
    obtain ⟨y, hfinish, hsame⟩ := finish_of_tracks htrack htext
    refine ⟨_, y, hgo, ⟨hfb, hcompiles, ?_⟩, hsame⟩
    have hend : parseStep checks s buf.bytes ⟨(encodeRecords rs).length, vars⟩ = .ok (.ret y) := by
      rw [parseStep, h, if_neg (Nat.lt_irrefl _), hfinish]
      rfl
    simp only [nil_append, append_nil] at hreach
    rw [← h] at hreach
    exact (returns_reaches_iff hreach _).2 (returns_of_ret (h ▸ hend))

theorem parse_agrees_iff_profile : Agree true userProfile ⟨[0x08, 7, 0x48, 5, 0x12, 1, 0x61, 0x08, 8], by decide⟩ := by
  have htext : ∀ i, IsText (kindAt userProfile i) (lastValue userProfile profileRecords i)
    | ⟨0, _⟩ => trivial
    | ⟨1, _⟩ => ⟨"a", rfl⟩
    | ⟨2, _⟩ => ⟨"", rfl⟩
  exact (parse_agrees_iff true rfl (by decide) (by decide)
    (show ∀ r ∈ profileRecords, Declared userProfile r by decide) rfl htext).2
    ⟨_, mem_cons_of_mem _ (mem_cons_self ..), rfl⟩

def point : StructNode where
  name := "Point"
  fields := [⟨"x", 1, ⟨.int32, "", none, none⟩, false⟩, ⟨"y", 2, ⟨.int32, "", none, none⟩, false⟩]

theorem point_view_rejected : AllCodable point ∧ DistinctIds point ∧
      (∀ r ∈ [Record.ofIndex 0 (Record.wordBody 1)], Declared point r) ∧
      encodeRecords [Record.ofIndex 0 (Record.wordBody 1)] = [0x08, 1] ∧
      (∃ x, Unmarshals point ⟨[0x08, 1], by decide⟩ (.ok x)) ∧ viewCompiles point = false ∧
      ∀ checks, ¬ Agree checks point ⟨[0x08, 1], by decide⟩ := by
  refine ⟨by decide, by decide, by decide, by decide, ⟨_, ⟨2, rfl⟩⟩, by decide, ?_⟩
  rintro checks ⟨x, y, -, ⟨-, hcompiles, -⟩, -⟩
  exact absurd hcompiles (by decide)

end HelixRpc.Codegen.Rust
