import HelixRpc.Codegen.Go.Unmarshal

/-!
# Lazy access in the generated Go code

Model of `fastScanField` and of the getters of the `Lazy` struct.
-/

namespace HelixRpc.Codegen.Go

open Foundation Compiler List Outcome Function
variable (dAtA : Slice)

def scanTarget (iNdEx : Int) (wireType : Nat) : GoOutcome (Slice × Nat) :=
  if wireType = 2 then do
    let (b, _) ← cutPayload dAtA iNdEx
    pure (b, wireType)
  else if wireType = 0 then do
    let start := iNdEx
    let (_, iNdEx) ← readVarint dAtA iNdEx
    let b ← dAtA.extract start iNdEx
    pure (b, wireType)
  else .error .scanWireType

def scanSkip (iNdEx : Int) (wireType : Nat) : GoOutcome Int :=
  if wireType = 0 then do
    let (_, iNdEx) ← readVarint dAtA iNdEx
    pure iNdEx
  else if wireType = 2 then do
    let (length, iNdEx) ← readVarint dAtA iNdEx
    pure (wrapInt (iNdEx + length.toInt))
  else .error .scanSkip

def fastScanStep (targetFieldNum : BitVec 32) (iNdEx : Int) : GoOutcome (Flow Int (Slice × Nat)) :=
  if iNdEx < dAtA.len then do
    let (i, iNdEx) ← readVarint dAtA iNdEx
    let fieldNum := (i >>> 3).setWidth 32
    let wireType := (i &&& 7).toNat
    if fieldNum = targetFieldNum then do
      let r ← scanTarget dAtA iNdEx wireType
      pure (.ret r)
    else do
      let iNdEx ← scanSkip dAtA iNdEx wireType
      pure (.next iNdEx)
  else .error .fieldNotFound

def FastScans (targetFieldNum : BitVec 32) (r : GoOutcome (Slice × Nat)) : Prop :=
  Returns (fastScanStep dAtA targetFieldNum) 0 r

def lazyDecode : (k : Kind) → Slice → GoOutcome (GoVal k)
  | .int32, b => do
      let (v, _) ← readVarint b 0
      pure (v.setWidth 32)
  | .int64, b => do
      let (v, _) ← readVarint b 0
      pure v
  | .string, b => pure (unsafeString b)
  | _, _ => .error .unsupportedLazyType

/-- The struct after `Unmarshal` has ended, with or without an error: an iteration that returns an
error has not assigned anything. -/
def Decodes (s : StructNode) (raw : Slice) (x : GoStruct s) : Prop :=
  ∃ st : DecodeState s, Reaches (unmarshalStep s raw) ⟨0, GoStruct.zero s⟩ st ∧ st.x = x ∧
    (unmarshalStep s raw st = .ok (.ret x) ∨ ∃ e, unmarshalStep s raw st = .error e)

def LazyGets (s : StructNode) (raw : Slice) (c : Fin s.fields.length) (r : GoOutcome (GoVal (kindAt s c))) : Prop :=
  if s.hasFallback then ∃ x, Decodes s raw x ∧ r = .ok (x c)
  else ∃ q, FastScans raw (s.fields.get c).id q ∧ r = (q >>= fun b => lazyDecode (kindAt s c) b.1)

abbrev Assignment (s : StructNode) := (c : Fin s.fields.length) × GoVal (kindAt s c)

inductive Walk (s : StructNode) (raw : Slice) : Int → List (Assignment s) → Prop where
  | done {o : Int} (hend : raw.len ≤ o) : Walk s raw o []
  | known {o p q : Int} {fieldNum : BitVec 32} {wireType : Nat} {c : Fin s.fields.length}
      {v : GoVal (kindAt s c)} {es : List (Assignment s)} (hlt : o < raw.len)
      (hkey : KeyAt raw o fieldNum wireType p) (hc : caseOf s fieldNum = some c)
      (hread : CaseRead raw p (kindAt s c) wireType v q) (hrest : Walk s raw q es) :
      Walk s raw o (⟨c, v⟩ :: es)
  | unknown {o p q : Int} {fieldNum : BitVec 32} {wireType : Nat} {es : List (Assignment s)}
      (hlt : o < raw.len) (hkey : KeyAt raw o fieldNum wireType p)
      (hc : caseOf s fieldNum = none) (hread : DefaultRead raw p wireType q)
      (hrest : Walk s raw q es) : Walk s raw o es

variable {s : StructNode}

def valueAt (c : Fin s.fields.length) (e : Assignment s) : Option (GoVal (kindAt s c)) :=
  if h : e.1 = c then some (h ▸ e.2) else none

def firstOf (es : List (Assignment s)) (c : Fin s.fields.length) :
    Option (GoVal (kindAt s c)) := es.findSome? (valueAt c)

def lastOf (es : List (Assignment s)) (c : Fin s.fields.length) :
    Option (GoVal (kindAt s c)) := firstOf es.reverse c

def assignAll (x : GoStruct s) (es : List (Assignment s)) : GoStruct s :=
  es.foldl (fun x e => update x e.1 e.2) x

variable {raw : Slice} {s : StructNode} {p q : Int} {wireType : Nat} {c : Fin s.fields.length}

theorem firstOf_cons (e : Assignment s) (es : List (Assignment s)) (c : Fin s.fields.length) :
    firstOf (e :: es) c = (valueAt c e).or (firstOf es c) := by
  rw [firstOf, findSome?_cons]
  cases valueAt c e <;> rfl

variable {es : List (Assignment s)} {st : DecodeState s} {x : GoStruct s} {o : Int} {k : Kind} {v : GoVal k}

theorem firstOf_eq_none_iff : firstOf es c = none ↔ lastOf es c = none := by
  simp [firstOf, lastOf, findSome?_eq_none_iff]

theorem assignAll_apply (x : GoStruct s) (es : List (Assignment s)) (c : Fin s.fields.length) :
    assignAll x es c = (lastOf es c).getD (x c) := by
  induction es using reverseRecOn with
  | nil => rfl
  | append_singleton es e ih =>
    obtain ⟨d, v⟩ := e
    have hlast : lastOf (es ++ [⟨d, v⟩]) c = (valueAt c ⟨d, v⟩).or (lastOf es c) := by
      rw [lastOf, reverse_append]
      exact firstOf_cons _ _ _
    have happ : assignAll x (es ++ [⟨d, v⟩]) = update (assignAll x es) d v := by
      rw [assignAll, foldl_append]
      rfl
    rw [hlast, happ]
    by_cases hd : d = c
    · subst hd
      simp [valueAt]
    · rw [update_of_ne (Ne.symm hd), ih]
      simp [valueAt, hd]

theorem unmarshalStep_ret (h : unmarshalStep s raw st = .ok (.ret x)) : raw.len ≤ st.iNdEx ∧ x = st.x := by
  by_cases hlt : st.iNdEx < raw.len
  · rw [unmarshalStep, if_pos hlt] at h
    obtain ⟨⟨i, p⟩, -, h⟩ := bind_eq_ok.1 h
    dsimp only at h
    split at h
    · cases h
    · obtain ⟨t, -, h⟩ := bind_eq_ok.1 h
      cases h
  · rw [unmarshalStep, if_neg hlt] at h
    exact ⟨by omega, (Flow.ret.inj (ok.inj h)).symm⟩

theorem walk_of_unmarshal (hcod : AllCodable s) {n : Nat}
    (h : runLoop (unmarshalStep s raw) n st = some (.ok x)) : ∃ es, Walk s raw st.iNdEx es ∧ x = assignAll st.x es := by
  induction n generalizing st with
  | zero => simp [runLoop] at h
  | succ n ih =>
    rcases runLoop_succ_ok h with hret | ⟨t, hstep, hrun⟩
    · obtain ⟨hend, rfl⟩ := unmarshalStep_ret hret
      exact ⟨[], .done hend, rfl⟩
    -- what the iteration has read comes in front of the walk of the rest
    · obtain ⟨es, hwalk, rfl⟩ := ih hrun
      cases (steps_unmarshal_iff hcod).1 hstep with
      | known hlt hkey hc hread => exact ⟨_, .known hlt hkey hc hread hwalk, rfl⟩
      | unknown hlt hkey hc hread => exact ⟨_, .unknown hlt hkey hc hread hwalk, rfl⟩

theorem fastScanStep_of_key {fieldNum target : BitVec 32} (hlt : o < raw.len) (hkey : KeyAt raw o fieldNum wireType p) :
    fastScanStep raw target o = if fieldNum = target then scanTarget raw p wireType >>= fun r => pure
    (.ret r) else scanSkip raw p wireType >>= fun q => pure (.next q) := by
  obtain ⟨i, hread, rfl, rfl⟩ := hkey
  rw [fastScanStep, if_pos hlt, hread]
  rfl

theorem steps_fastScan_of_skip (target : BitVec 32) {fieldNum : BitVec 32} (hlt : o < raw.len)
    (hkey : KeyAt raw o fieldNum wireType p) (hne : fieldNum ≠ target) (hskip : scanSkip raw p wireType = .ok q) :
    Steps (fastScanStep raw target) o q := by
  rw [Steps, fastScanStep_of_key hlt hkey, if_neg hne, hskip]
  rfl

theorem scanSkip_of_caseRead (h : CaseRead raw p k wireType v q) : scanSkip raw p wireType = .ok q := by
  cases h with
  | int32 v q hread => simp [scanSkip, hread]
  | int64 v q hread => simp [scanSkip, hread]
  | string n q hread b hcut => simp [scanSkip, hread]

theorem scanSkip_of_defaultRead (h : DefaultRead raw p wireType q) : scanSkip raw p wireType = .ok q := by
  cases h with
  | varint v q hread => simp [scanSkip, hread]
  | delimited n q hread => simp [scanSkip, hread]

theorem readVarint_extract {v : BitVec 64} (h : readVarint raw p = .ok (v, q)) :
    ∃ b n, raw.extract (ε := CodecError) p q = .ok b ∧ readVarint b 0 = .ok (v, n) := by
  have hb := readVarint_bounds h
  -- the word depends on the bytes of the group only, so they may stand alone
  obtain ⟨pre, g, rest, hraw, rfl, rfl, -, hall⟩ := readVarint_ok h
  have hsub : (raw.sub pre.length (pre.length + g.length)).bytes = g :=
    Slice.sub_append raw pre g rest (by rw [hraw, append_assoc])
  refine ⟨_, _, Slice.extract_eq_ok hb.1 (by omega) hb.2.2, hall _ [] [] ?_⟩
  rw [Int.toNat_natCast, show ((pre.length : Int) + g.length).toNat = pre.length + g.length by omega, hsub]
  simp

theorem scanTarget_of_caseRead (h : CaseRead raw p k wireType v q) :
    ∃ b, scanTarget raw p wireType = .ok b ∧ lazyDecode k b.1 = .ok v := by
  cases h with
  | int32 v q hread =>
    obtain ⟨b, n, hb, hv⟩ := readVarint_extract hread
    exact ⟨(b, 0), by simp [scanTarget, hread, hb], by rw [lazyDecode, hv]; rfl⟩
  | int64 v q hread =>
    obtain ⟨b, n, hb, hv⟩ := readVarint_extract hread
    exact ⟨(b, 0), by simp [scanTarget, hread, hb], by rw [lazyDecode, hv]; rfl⟩
  | string n q hread b hcut =>
    refine ⟨(b, 2), ?_, by rw [lazyDecode, unsafeString_eq]; rfl⟩
    rw [scanTarget, if_pos rfl, cutPayload_eq_ok.2 ⟨n, q, b, hread, hcut, rfl⟩]
    rfl

theorem scan_of_walk (hdist : DistinctIds s) (h : Walk s raw o es) (c : Fin s.fields.length) : (firstOf es c = none →
    Returns (fastScanStep raw (s.fields.get c).id) o (.error .fieldNotFound)) ∧ ∀ v, firstOf es c = some v → ∃ b,
    Returns (fastScanStep raw (s.fields.get c).id) o (.ok b) ∧ lazyDecode (kindAt s c) b.1 = .ok v := by
  induction h with
  | done hend =>
    refine ⟨fun _ => returns_of_error ?_, fun v hv => by simp [firstOf] at hv⟩
    rw [fastScanStep, if_neg (by omega)]
  -- at the target the scan ends with this record, elsewhere it steps over it
  | known hlt hkey hc hread hrest ih =>
    rename_i d w es
    by_cases hd : d = c
    · subst hd
      have hfirst : firstOf (⟨d, w⟩ :: es) d = some w := by simp [firstOf_cons, valueAt]
      rw [hfirst]
      obtain ⟨b, hb, hdec⟩ := scanTarget_of_caseRead hread
      refine ⟨fun hn => (by cases hn), ?_⟩
      intro v hv
      cases hv
      refine ⟨b, returns_of_ret ?_, hdec⟩
      rw [fastScanStep_of_key hlt hkey, if_pos (id_of_caseOf hc).symm, hb]
      rfl
    · have hfirst : firstOf (⟨d, w⟩ :: es) c = firstOf es c := by simp [firstOf_cons, valueAt, hd]
      have hstep := steps_fastScan_of_skip (s.fields.get c).id hlt hkey
        (fun he => hd (eq_of_id_eq hdist ((id_of_caseOf hc).trans he)))
        (scanSkip_of_caseRead hread)
      rw [hfirst]
      simp only [returns_step_iff hstep]
      exact ih
  | unknown hlt hkey hc hread hrest ih =>
    have hstep := steps_fastScan_of_skip (s.fields.get c).id hlt hkey
      (fun he => caseOf_eq_none_iff.1 hc c he.symm) (scanSkip_of_defaultRead hread)
    simp only [returns_step_iff hstep]
    exact ih

theorem lazyGets_iff (hfb : s.hasFallback = false) {r : GoOutcome (GoVal (kindAt s c))} : LazyGets s raw c r ↔ ∃ q,
    FastScans raw (s.fields.get c).id q ∧ r = (q >>= fun b => lazyDecode (kindAt s c) b.1) := by simp [LazyGets, hfb]

theorem lazyGets_unique (hfb : s.hasFallback = false) {r r' : GoOutcome (GoVal (kindAt s c))} (h : LazyGets s raw c r)
    (h' : LazyGets s raw c r') : r = r' := by
  obtain ⟨q, hq, rfl⟩ := (lazyGets_iff hfb).1 h
  obtain ⟨q', hq', rfl⟩ := (lazyGets_iff hfb).1 h'
  rw [returns_unique hq hq']

/-- A getter on an input that `Unmarshal` accepts. -/
theorem lazy_getter_first {s : StructNode} (hfb : s.hasFallback = false) (hcod : AllCodable s) (hdist : DistinctIds s)
    {raw : Slice} {x : GoStruct s} (h : Unmarshals s raw (.ok x)) : ∃ es, Walk s raw 0 es ∧ ∀ c, (firstOf es c = none →
    LazyGets s raw c (.error .fieldNotFound) ∧ x c = GoVal.zero (kindAt s c)) ∧ (∀ v, firstOf es c = some v →
    LazyGets s raw c (.ok v) ∧ lastOf es c = some (x c)) ∧ (LazyGets s raw c (.ok (x c)) ↔ firstOf es c =
    some (x c)) := by
  obtain ⟨n, hn⟩ := h
  obtain ⟨es, hwalk, rfl⟩ := walk_of_unmarshal hcod hn
  refine ⟨es, hwalk, fun c => ?_⟩
  obtain ⟨habsent, hpresent⟩ := scan_of_walk hdist hwalk c
  have hnone : firstOf es c = none → LazyGets s raw c (.error .fieldNotFound) :=
    fun hf => (lazyGets_iff hfb).2 ⟨_, habsent hf, rfl⟩
  have hsome : ∀ v, firstOf es c = some v → LazyGets s raw c (.ok v) := by
    intro v hv
    obtain ⟨b, hb, hdec⟩ := hpresent v hv
    exact (lazyGets_iff hfb).2 ⟨_, hb, hdec.symm⟩
  have hval := assignAll_apply (GoStruct.zero s) es c
  refine ⟨fun hf => ⟨hnone hf, ?_⟩, fun v hv => ⟨hsome v hv, ?_⟩, ?_, hsome _⟩
  · rw [hval, firstOf_eq_none_iff.1 hf]
    rfl
  · cases hl : lastOf es c with
    | none => exact absurd (firstOf_eq_none_iff.2 hl) (by simp [hv])
    | some w =>
      rw [hval, hl]
      rfl
  · intro hget
    cases hf : firstOf es c with
    | none => exact absurd (lazyGets_unique hfb hget (hnone hf)) (by simp)
    | some v =>
      have := lazyGets_unique hfb hget (hsome v hf)
      rw [ok.inj this]

def idProfile (v : BitVec 64) : GoStruct userProfile
  | ⟨0, _⟩ => v
  | ⟨1, _⟩ => Slice.empty
  | ⟨2, _⟩ => Slice.empty

theorem lazy_getter_first_profile : ∃ es, Walk userProfile ⟨[0x08, 7], by decide⟩ 0 es ∧ ∀ c, (firstOf es c = none →
        LazyGets userProfile ⟨[0x08, 7], by decide⟩ c (.error .fieldNotFound) ∧
          idProfile 7 c = GoVal.zero (kindAt userProfile c)) ∧ (∀ v, firstOf es c = some v →
        LazyGets userProfile ⟨[0x08, 7], by decide⟩ c (.ok v) ∧ lastOf es c = some (idProfile 7 c)) ∧
      (LazyGets userProfile ⟨[0x08, 7], by decide⟩ c (.ok (idProfile 7 c)) ↔ firstOf es c = some (idProfile 7 c)) :=
  lazy_getter_first rfl (by decide) (by decide)
    ⟨2, congrArg (fun x => some (ok x)) (funext fun i => by
      match i with
      | ⟨0, _⟩ => rfl
      | ⟨1, _⟩ => rfl
      | ⟨2, _⟩ => rfl)⟩

theorem lazy_getter_differs : (Unmarshals userProfile Slice.empty (.ok (GoStruct.zero userProfile)) ∧
      LazyGets userProfile Slice.empty ⟨0, by decide⟩ (.error .fieldNotFound)) ∧
    ((∃ x, Unmarshals userProfile ⟨[0x08, 7, 0x08, 8], by decide⟩ (.ok x) ∧ x ⟨0, by decide⟩ = (8 : BitVec 64)) ∧
      LazyGets userProfile ⟨[0x08, 7, 0x08, 8], by decide⟩ ⟨0, by decide⟩
        (.ok (7 : BitVec 64))) :=
  ⟨⟨⟨1, rfl⟩, ⟨.error .fieldNotFound, ⟨1, rfl⟩, rfl⟩⟩, ⟨⟨_, ⟨3, rfl⟩, rfl⟩, ⟨.ok (⟨[7], by decide⟩, 0), ⟨1, rfl⟩, rfl⟩⟩⟩

end HelixRpc.Codegen.Go
