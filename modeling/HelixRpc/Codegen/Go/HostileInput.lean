import HelixRpc.Codegen.Go.Lazy

/-!
# Hostile input of the generated Go decoders

`Unmarshal` and `fastScanField` add a 64-bit length, converted to a signed `int`, to their read offset.
-/

namespace HelixRpc.Codegen.Go

open Foundation Compiler Outcome

inductive FieldClass where
  | skipped
  | varint
  | delimited
  | target
  deriving DecidableEq

def unmarshalClass (s : StructNode) (fieldNum : BitVec 32) : FieldClass :=
  match caseOf s fieldNum with
  | none => .skipped
  | some c => if kindAt s c = .string then .delimited else .varint

def scanClass (targetFieldNum fieldNum : BitVec 32) : FieldClass :=
  if fieldNum = targetFieldNum then .target else .skipped

inductive Moves (cls : BitVec 32 → FieldClass) (dAtA : Slice) (o : Int) : Int → Prop where
  | varint {fieldNum : BitVec 32} {p q : Int} {v : BitVec 64} (hkey : KeyAt dAtA o fieldNum 0 p)
      (hread : readVarint dAtA p = .ok (v, q))
      (hcls : cls fieldNum = .skipped ∨ cls fieldNum = .varint) : Moves cls dAtA o q
  | skip {fieldNum : BitVec 32} {p q : Int} {n : BitVec 64} (hkey : KeyAt dAtA o fieldNum 2 p)
      (hread : readVarint dAtA p = .ok (n, q)) (hcls : cls fieldNum = .skipped) :
      Moves cls dAtA o (wrapInt (q + n.toInt))
  | cut {fieldNum : BitVec 32} {p q : Int} {n : BitVec 64} (hkey : KeyAt dAtA o fieldNum 2 p)
      (hread : readVarint dAtA p = .ok (n, q)) (hcls : cls fieldNum = .delimited)
      (hlo : q ≤ wrapInt (q + n.toInt)) (hhi : wrapInt (q + n.toInt) ≤ dAtA.len) :
      Moves cls dAtA o (wrapInt (q + n.toInt))

/-- A payload whose end wraps around to a place in front of its start: the bound check of the code
accepts it, and the slice expression faults. -/
def Overruns (cls : BitVec 32 → FieldClass) (dAtA : Slice) (o : Int) : Prop :=
  ∃ fieldNum p n q, KeyAt dAtA o fieldNum 2 p ∧ readVarint dAtA p = .ok (n, q) ∧
    (cls fieldNum = .delimited ∨ cls fieldNum = .target) ∧ 0 ≤ wrapInt (q + n.toInt) ∧ wrapInt (q + n.toInt) < q

structure ScansBy {σ ρ : Type} (cls : BitVec 32 → FieldClass) (dAtA : Slice)
    (step : σ → GoOutcome (Flow σ ρ)) (off : σ → Int) : Prop where
  moves : ∀ t t', Steps step t t' → Moves cls dAtA (off t) (off t')
  steps : ∀ t o, Moves cls dAtA (off t) o → ∃ t', Steps step t t' ∧ off t' = o
  faults : ∀ t, 0 ≤ off t → ((∃ f, step t = .fault f) ↔ Overruns cls dAtA (off t))

inductive RecordStart (cls : BitVec 32 → FieldClass) (dAtA : Slice) : Int → Prop where
  | start : RecordStart cls dAtA 0
  | varint {o p q : Int} {fieldNum : BitVec 32} {v : BitVec 64} (ho : RecordStart cls dAtA o)
      (hkey : KeyAt dAtA o fieldNum 0 p) (hread : readVarint dAtA p = .ok (v, q))
      (hcls : cls fieldNum = .skipped ∨ cls fieldNum = .varint) : RecordStart cls dAtA q
  | delimited {o p q : Int} {fieldNum : BitVec 32} {n : BitVec 64} (ho : RecordStart cls dAtA o)
      (hkey : KeyAt dAtA o fieldNum 2 p) (hread : readVarint dAtA p = .ok (n, q))
      (hcls : cls fieldNum = .skipped ∧ q + n.toNat < 2 ^ 63 ∨ cls fieldNum = .delimited ∧ q + n.toNat ≤ dAtA.len) :
      RecordStart cls dAtA (q + n.toNat)
  | wrapped {o p q : Int} {fieldNum : BitVec 32} {n : BitVec 64} (ho : RecordStart cls dAtA o)
      (hkey : KeyAt dAtA o fieldNum 2 p) (hread : readVarint dAtA p = .ok (n, q))
      (hcls : cls fieldNum = .skipped) (hwrap : 2 ^ 64 + o < q + n.toNat) :
      RecordStart cls dAtA (q + n.toNat - 2 ^ 64)

/-- The lengths of the input are harmless for a loop. -/
def LengthsSafe (cls : BitVec 32 → FieldClass) (dAtA : Slice) : Prop :=
  ∀ o fieldNum p n q, RecordStart cls dAtA o → KeyAt dAtA o fieldNum 2 p → readVarint dAtA p = .ok (n, q) →
    (cls fieldNum = .skipped → q + n.toNat < 2 ^ 63 ∨ 2 ^ 64 + o < q + n.toNat) ∧
    (cls fieldNum = .delimited ∨ cls fieldNum = .target → q + n.toNat < 2 ^ 64)

variable {dAtA : Slice} {p o q : Int} {fieldNum target : BitVec 32} {wireType : Nat} {s : StructNode}
  {cls : BitVec 32 → FieldClass} {k : Kind}

theorem Moves.lt_len {o' : Int} (h : Moves cls dAtA o o') : o < dAtA.len := by
  cases h with
  | varint hkey hread hcls =>
    have := hkey.bounds
    omega
  | skip hkey hread hcls =>
    have := hkey.bounds
    omega
  | cut hkey hread hcls hlo hhi =>
    have := hkey.bounds
    omega

theorem wrapInt_length {n : BitVec 64} (hread : readVarint dAtA p = .ok (n, q)) : q + n.toNat < 2 ^ 63 ∧ wrapInt
    (q + n.toInt) = q + n.toNat ∨ 2 ^ 63 ≤ q + n.toNat ∧ wrapInt (q + n.toInt) = q + n.toNat - 2 ^ 64 := by
  have hb := readVarint_bounds hread
  have hlen : dAtA.len < 2 ^ 63 := by
    have := dAtA.len_lt
    simp only [Slice.len]
    omega
  obtain ⟨m, rfl⟩ := Int.eq_ofNat_of_zero_le (show 0 ≤ q by omega)
  have hw := wrapInt_add_word m (by omega) n
  split at hw
  · exact Or.inl ⟨by omega, hw⟩
  · exact Or.inr ⟨by omega, hw⟩

theorem recordStart_nonneg (h : RecordStart cls dAtA o) : 0 ≤ o := by
  induction h with
  | start => omega
  | varint ho hkey hread hcls ih =>
    have := readVarint_bounds hread
    omega
  | delimited ho hkey hread hcls ih =>
    have := readVarint_bounds hread
    omega
  | wrapped ho hkey hread hcls hwrap ih => omega

section
variable {σ ρ : Type} {cls : BitVec 32 → FieldClass} {dAtA : Slice}
  {step : σ → GoOutcome (Flow σ ρ)} {off : σ → Int} {s₀ : σ}

theorem reaches_of_recordStart (h : ScansBy cls dAtA step off) (h₀ : off s₀ = 0) {o : Int}
    (ho : RecordStart cls dAtA o) : ∃ t, Reaches step s₀ t ∧ off t = o := by
  induction ho with
  | start => exact ⟨s₀, Relation.ReflTransGen.refl, h₀⟩
  | varint ho hkey hread hcls ih =>
    obtain ⟨t, ht, rfl⟩ := ih
    obtain ⟨t', hst, hoff⟩ := h.steps t _ (.varint hkey hread hcls)
    exact ⟨t', ht.tail hst, hoff⟩
  | delimited ho hkey hread hcls ih =>
    obtain ⟨t, ht, rfl⟩ := ih
    have hlen := dAtA.len_lt
    have hb := readVarint_bounds hread
    rcases wrapInt_length hread with ⟨-, hw⟩ | ⟨hbig, -⟩
    · rw [← hw]
      rcases hcls with ⟨hskip, -⟩ | ⟨hcut, hle⟩
      · obtain ⟨t', hst, hoff⟩ := h.steps t _ (.skip hkey hread hskip)
        exact ⟨t', ht.tail hst, hoff⟩
      · obtain ⟨t', hst, hoff⟩ := h.steps t _ (.cut hkey hread hcut (by omega) (by omega))
        exact ⟨t', ht.tail hst, hoff⟩
    · simp only [Slice.len] at hb hcls
      omega
  | wrapped ho hkey hread hcls hwrap ih =>
    obtain ⟨t, ht, rfl⟩ := ih
    have hpos := recordStart_nonneg ho
    rcases wrapInt_length hread with ⟨hsmall, -⟩ | ⟨-, hw⟩
    · omega
    · rw [← hw]
      obtain ⟨t', hst, hoff⟩ := h.steps t _ (.skip hkey hread hcls)
      exact ⟨t', ht.tail hst, hoff⟩

theorem recordStart_of_moves (hsafe : LengthsSafe cls dAtA) {o o' : Int} (ho : RecordStart cls dAtA o)
    (hm : Moves cls dAtA o o') : RecordStart cls dAtA o' ∧ o < o' := by
  cases hm with
  | varint hkey hread hcls =>
    have h1 := hkey.bounds
    have h2 := readVarint_bounds hread
    exact ⟨.varint ho hkey hread hcls, by omega⟩
  | skip hkey hread hcls =>
    have h1 := hkey.bounds
    have h2 := readVarint_bounds hread
    rcases (hsafe _ _ _ _ _ ho hkey hread).1 hcls with hsmall | hwrap
    · rcases wrapInt_length hread with ⟨-, hw⟩ | ⟨hbig, -⟩
      · rw [hw]
        exact ⟨.delimited ho hkey hread (Or.inl ⟨hcls, hsmall⟩), by omega⟩
      · omega
    · rcases wrapInt_length hread with ⟨hlt, -⟩ | ⟨-, hw⟩
      · omega
      · rw [hw]
        exact ⟨.wrapped ho hkey hread hcls hwrap, by omega⟩
  | cut hkey hread hcls hlo hhi =>
    rename_i n
    have h1 := hkey.bounds
    have h2 := readVarint_bounds hread
    have hn := n.isLt
    rcases wrapInt_length hread with ⟨-, hw⟩ | ⟨-, hw⟩
    · rw [hw] at hhi ⊢
      exact ⟨.delimited ho hkey hread (Or.inr ⟨hcls, hhi⟩), by omega⟩
    · omega

theorem safeRun_iff_lengthsSafe (h : ScansBy cls dAtA step off) (h₀ : off s₀ = 0) :
    SafeRun step off s₀ ↔ LengthsSafe cls dAtA := by
  rw [safeRun_iff dAtA.len fun t t' hst => (h.moves t t' hst).lt_len]
  constructor
  · intro hall o fieldNum p n q ho hkey hread
    obtain ⟨t, ht, rfl⟩ := reaches_of_recordStart h h₀ ho
    obtain ⟨hnofault, hadv⟩ := hall t ht
    have hpos := recordStart_nonneg ho
    refine ⟨fun hskip => ?_, fun hcut => ?_⟩
    · obtain ⟨t', hst, hoff⟩ := h.steps t _ (.skip hkey hread hskip)
      have hlt := hadv t' hst
      rw [hoff] at hlt
      rcases wrapInt_length hread with ⟨hsmall, -⟩ | ⟨-, hw⟩
      · exact Or.inl hsmall
      · exact Or.inr (by omega)
    -- an end beyond `2 ^ 64` wraps around to a place between 0 and the start of the payload
    · by_contra hbig
      have hn := n.isLt
      have hover : Overruns cls dAtA (off t) := by
        rcases wrapInt_length hread with ⟨hsmall, -⟩ | ⟨-, hw⟩
        · omega
        · exact ⟨fieldNum, p, n, q, hkey, hread, hcut, by omega, by omega⟩
      obtain ⟨f, hf⟩ := (h.faults t hpos).2 hover
      exact hnofault f hf
  · intro hsafe
    -- invariant of the run: the offset is a record start
    have hstart : ∀ t, Reaches step s₀ t → RecordStart cls dAtA (off t) := by
      intro t ht
      induction ht with
      | refl => exact h₀ ▸ .start
      | tail _ hst ih => exact (recordStart_of_moves hsafe ih (h.moves _ _ hst)).1
    intro t ht
    have ho := hstart t ht
    refine ⟨fun f hf => ?_, fun t' hst => (recordStart_of_moves hsafe ho (h.moves _ _ hst)).2⟩
    obtain ⟨fieldNum, p, n, q, hkey, hread, hcls, hlo, hhi⟩ := (h.faults t (recordStart_nonneg ho)).1 ⟨f, hf⟩
    have hlt := (hsafe _ _ _ _ _ ho hkey hread).2 hcls
    rcases wrapInt_length hread with ⟨-, hw⟩ | ⟨-, hw⟩
    all_goals omega
end

theorem fault_iff_overruns {β : Type} {r : GoOutcome β} (hkeyed : ∀ f, r = .fault f → ∃ fieldNum wireType p,
    KeyAt dAtA o fieldNum wireType p) (hfault : ∀ fieldNum wireType p, KeyAt dAtA o fieldNum wireType p →
    ((∃ f, r = .fault f) ↔ (cls fieldNum = .delimited ∨ cls fieldNum = .target) ∧ wireType = 2 ∧ ∃ f,
    cutPayload dAtA p = .fault f)) : (∃ f, r = .fault f) ↔ Overruns cls dAtA o := by
  constructor
  · rintro ⟨f, hf⟩
    obtain ⟨fieldNum, wireType, p, hkey⟩ := hkeyed f hf
    obtain ⟨hcls, hwt, hcut⟩ := (hfault _ _ _ hkey).1 ⟨f, hf⟩
    have hp := hkey.bounds
    obtain ⟨n, q, hread, hlo, hhi⟩ := (cutPayload_fault (by omega)).1 hcut
    exact ⟨fieldNum, p, n, q, hwt ▸ hkey, hread, hcls, hlo, hhi⟩
  · rintro ⟨fieldNum, p, n, q, hkey, hread, hcls, hlo, hhi⟩
    have hp := hkey.bounds
    apply (hfault _ _ _ hkey).2
    exact ⟨hcls, rfl, (cutPayload_fault (by omega)).2 ⟨n, q, hread, hlo, hhi⟩⟩

theorem unmarshalClass_eq_skipped : unmarshalClass s fieldNum = .skipped ↔ caseOf s fieldNum = none := by
  unfold unmarshalClass
  cases hc : caseOf s fieldNum with
  | none => simp
  | some c =>
    simp only [reduceCtorEq, iff_false]
    split <;> simp

theorem unmarshalClass_of_some {c : Fin s.fields.length} (hc : caseOf s fieldNum = some c) :
    unmarshalClass s fieldNum = if kindAt s c = .string then .delimited else .varint := by
  simp only [unmarshalClass, hc]

theorem unmarshalClass_ne_target (s : StructNode) (fieldNum : BitVec 32) : unmarshalClass s fieldNum ≠ .target := by
  unfold unmarshalClass
  cases caseOf s fieldNum with
  | none => simp
  | some c =>
    dsimp only
    split <;> simp

theorem kind_of_delimited (h : unmarshalClass s fieldNum = .delimited) :
    ∃ c, caseOf s fieldNum = some c ∧ kindAt s c = .string := by
  cases hc : caseOf s fieldNum with
  | none => rw [unmarshalClass_eq_skipped.2 hc] at h; cases h
  | some c =>
    rw [unmarshalClass_of_some hc] at h
    split at h
    · exact ⟨c, rfl, by assumption⟩
    · cases h

theorem kind_of_varint (h : unmarshalClass s fieldNum = .varint) :
    ∃ c, caseOf s fieldNum = some c ∧ kindAt s c ≠ .string := by
  cases hc : caseOf s fieldNum with
  | none => rw [unmarshalClass_eq_skipped.2 hc] at h; cases h
  | some c =>
    rw [unmarshalClass_of_some hc] at h
    split at h
    · cases h
    · exact ⟨c, rfl, by assumption⟩

theorem moves_of_caseRead {v : GoVal k} (hcls : cls fieldNum = if k = .string then .delimited else .varint)
    (hkey : KeyAt dAtA o fieldNum wireType p) (h : CaseRead dAtA p k wireType v q) : Moves cls dAtA o q := by
  cases h with
  | int32 v q hread => exact .varint hkey hread (Or.inr hcls)
  | int64 v q hread => exact .varint hkey hread (Or.inr hcls)
  | string n q hread b hcut =>
    have hb := Slice.bounds_of_extract hcut
    exact .cut hkey hread hcls hb.2.1 hb.2.2

theorem caseRead_of_varint {v : BitVec 64} (hk : Codable k) (hs : k ≠ .string)
    (hread : readVarint dAtA p = .ok (v, q)) : ∃ a, CaseRead dAtA p k 0 a q := by
  cases k with
  | int32 => exact ⟨_, .int32 v q hread⟩
  | int64 => exact ⟨_, .int64 v q hread⟩
  | string => exact absurd rfl hs
  | _ => exact hk.elim

theorem caseRead_of_payload {n : BitVec 64} (hs : k = .string) (hread : readVarint dAtA p = .ok (n, q))
    (hlo : q ≤ wrapInt (q + n.toInt)) (hhi : wrapInt (q + n.toInt) ≤ dAtA.len) :
    ∃ a, CaseRead dAtA p k 2 a (wrapInt (q + n.toInt)) := by
  subst hs
  have hb := readVarint_bounds hread
  exact ⟨_, .string n q hread _ (Slice.extract_eq_ok (by omega) hlo hhi)⟩

theorem unmarshalCase_fault (hk : Codable k) (field : String) (dAtA : Slice) (hp : 0 ≤ p) (wireType : Nat) :
    (∃ f, unmarshalCase k field dAtA p wireType = .fault f) ↔
      k = .string ∧ wireType = 2 ∧ ∃ f, cutPayload dAtA p = .fault f := by
  have hint : ∀ {α : Type} (convert : BitVec 64 → α), ¬ ∃ f, unmarshalInt convert field dAtA p wireType = .fault f := by
    rintro α convert ⟨f, hf⟩
    unfold unmarshalInt at hf
    split at hf
    · cases hf
    · rcases bind_eq_fault.1 hf with hread | ⟨a, -, h⟩
      · exact readVarint_ne_fault hp f hread
      · cases h
  cases k with
  | int32 => exact ⟨fun h => absurd h (hint _), fun h => absurd h.1 (by decide)⟩
  | int64 => exact ⟨fun h => absurd h (hint (fun v => v)), fun h => absurd h.1 (by decide)⟩
  | string =>
    show (∃ f, unmarshalString field dAtA p wireType = .fault f) ↔ _
    unfold unmarshalString
    by_cases hwt : wireType = 2
    · rw [if_neg (not_not.2 hwt), exists_bind_fault_iff (by simp)]
      simp [hwt]
    · simp [hwt]
  | _ => exact hk.elim

theorem unmarshalDefault_ne_fault (hp : 0 ≤ p) (f : Fault) : unmarshalDefault dAtA p wireType ≠ .fault f := by
  intro hf
  rcases bind_eq_fault.1 hf with hread | ⟨a, -, h⟩
  · exact readVarint_ne_fault hp f hread
  · dsimp only at h
    split at h
    · cases h
    · split at h <;> cases h

theorem unmarshalStep_fault (hcod : AllCodable s) {x : GoStruct s} (hkey : KeyAt dAtA o fieldNum wireType p) :
    (∃ f, unmarshalStep s dAtA ⟨o, x⟩ = .fault f) ↔ unmarshalClass s fieldNum = .delimited ∧ wireType = 2 ∧
        ∃ f, cutPayload dAtA p = .fault f := by
  have hb := hkey.bounds
  rw [unmarshalStep_of_key (by omega) hkey]
  by_cases hwt : wireType = 4
  · simp [hwt]
  · rw [if_neg hwt]
    cases hc : caseOf s fieldNum with
    | none =>
      rw [unmarshalClass_eq_skipped.2 hc, exists_bind_fault_iff (by simp), unmarshalSwitch,
        exists_bind_fault_iff (by simp)]
      refine ⟨?_, fun h => by cases h.1⟩
      rintro ⟨f, hf⟩
      exact absurd hf (unmarshalDefault_ne_fault (by omega) f)
    | some c =>
      have hcase := unmarshalCase_fault (allCodable_at hcod c) (s.fields.get c).name dAtA (show 0 ≤ p by omega) wireType
      have hcls : unmarshalClass s fieldNum = .delimited ↔ kindAt s c = .string := by
        rw [unmarshalClass_of_some hc]
        split <;> simp [*]
      rw [hcls, ← hcase, exists_bind_fault_iff (by simp), unmarshalSwitch, exists_bind_fault_iff (by simp)]

theorem unmarshal_scansBy (hcod : AllCodable s) (dAtA : Slice) :
    ScansBy (unmarshalClass s) dAtA (unmarshalStep s dAtA) DecodeState.iNdEx where
  moves := by
    intro t t' hst
    cases (steps_unmarshal_iff hcod).1 hst with
    | known hlt hkey hc hread => exact moves_of_caseRead (unmarshalClass_of_some hc) hkey hread
    | unknown hlt hkey hc hread =>
      have hcls := unmarshalClass_eq_skipped.2 hc
      cases hread with
      | varint v q hread => exact .varint hkey hread (Or.inl hcls)
      | delimited n q hread => exact .skip hkey hread hcls
  steps := by
    rintro ⟨o, x⟩ o' hm
    have hlt := hm.lt_len
    cases hm with
    | varint hkey hread hcls =>
      rcases hcls with hskip | hvar
      · exact ⟨_, (steps_unmarshal_iff hcod).2 (.unknown hlt hkey
          (unmarshalClass_eq_skipped.1 hskip) (.varint _ _ hread)), rfl⟩
      · obtain ⟨c, hc, hs⟩ := kind_of_varint hvar
        obtain ⟨a, ha⟩ := caseRead_of_varint (allCodable_at hcod c) hs hread
        exact ⟨_, (steps_unmarshal_iff hcod).2 (.known hlt hkey hc ha), rfl⟩
    | skip hkey hread hcls =>
      exact ⟨_, (steps_unmarshal_iff hcod).2 (.unknown hlt hkey
        (unmarshalClass_eq_skipped.1 hcls) (.delimited _ _ hread)), rfl⟩
    | cut hkey hread hcls hlo hhi =>
      obtain ⟨c, hc, hs⟩ := kind_of_delimited hcls
      obtain ⟨a, ha⟩ := caseRead_of_payload hs hread hlo hhi
      exact ⟨_, (steps_unmarshal_iff hcod).2 (.known hlt hkey hc ha), rfl⟩
  faults := by
    rintro ⟨o, x⟩ hpos
    apply fault_iff_overruns
    · intro f hf
      exact keyAt_of_fault hpos (by simp) hf
    · intro fieldNum wireType p hkey
      rw [unmarshalStep_fault hcod hkey, or_iff_left (unmarshalClass_ne_target s fieldNum)]

theorem scanClass_eq_target : scanClass target fieldNum = .target ↔ fieldNum = target := by
  unfold scanClass
  split <;> simp [*]

theorem scanClass_eq_skipped : scanClass target fieldNum = .skipped ↔ fieldNum ≠ target := by
  unfold scanClass
  split <;> simp [*]

theorem scanClass_ne : scanClass target fieldNum ≠ .varint ∧ scanClass target fieldNum ≠ .delimited := by
  unfold scanClass
  split <;> simp

theorem scanSkip_eq_ok : scanSkip dAtA p wireType = .ok q ↔ DefaultRead dAtA p wireType q := by
  refine ⟨fun h => ?_, scanSkip_of_defaultRead⟩
  unfold scanSkip at h
  split at h
  · rename_i hwt
    obtain ⟨⟨v, q'⟩, hread, h⟩ := bind_eq_ok.1 h
    obtain rfl := ok.inj h
    exact hwt ▸ .varint v q' hread
  · split at h
    · rename_i hwt
      obtain ⟨⟨n, q'⟩, hread, h⟩ := bind_eq_ok.1 h
      cases h
      exact hwt ▸ .delimited n q' hread
    · cases h

theorem scanSkip_ne_fault (hp : 0 ≤ p) (f : Fault) : scanSkip dAtA p wireType ≠ .fault f := by
  intro hf
  unfold scanSkip at hf
  split at hf
  · rcases bind_eq_fault.1 hf with hread | ⟨a, -, h⟩
    · exact readVarint_ne_fault hp f hread
    · cases h
  · split at hf
    · rcases bind_eq_fault.1 hf with hread | ⟨a, -, h⟩
      · exact readVarint_ne_fault hp f hread
      · cases h
    · cases hf

theorem scanTarget_fault (hp : 0 ≤ p) : (∃ f, scanTarget dAtA p wireType = .fault f) ↔
      wireType = 2 ∧ ∃ f, cutPayload dAtA p = .fault f := by
  unfold scanTarget
  by_cases h2 : wireType = 2
  · rw [if_pos h2, exists_bind_fault_iff (by simp), and_iff_right h2]
  · rw [if_neg h2]
    refine ⟨?_, fun h => absurd h.1 h2⟩
    rintro ⟨f, hf⟩
    split at hf
    · rcases bind_eq_fault.1 hf with hread | ⟨⟨v, q⟩, hread, h⟩
      · exact absurd hread (readVarint_ne_fault hp f)
      · have hb := readVarint_bounds hread
        dsimp only at h
        rw [Slice.extract_eq_ok hb.1 (by omega) hb.2.2] at h
        cases h
    · cases hf

theorem fastScanStep_fault (hkey : KeyAt dAtA o fieldNum wireType p) : (∃ f, fastScanStep dAtA target o = .fault f) ↔
      scanClass target fieldNum = .target ∧ wireType = 2 ∧ ∃ f, cutPayload dAtA p = .fault f := by
  have hb := hkey.bounds
  have hp : 0 ≤ p := by omega
  rw [fastScanStep_of_key (by omega) hkey, scanClass_eq_target, ← scanTarget_fault hp]
  by_cases ht : fieldNum = target
  · rw [if_pos ht, exists_bind_fault_iff (by simp), and_iff_right ht]
  · rw [if_neg ht, exists_bind_fault_iff (by simp)]
    refine ⟨?_, fun h => absurd h.1 ht⟩
    rintro ⟨f, hf⟩
    exact absurd hf (scanSkip_ne_fault hp f)

theorem fastScan_scansBy (target : BitVec 32) (dAtA : Slice) :
    ScansBy (scanClass target) dAtA (fastScanStep dAtA target) id where
  moves := by
    intro o o' hst
    obtain ⟨hlt, fieldNum, wireType, p, hkey⟩ := keyAt_of_ok (by simp) hst
    rw [Steps, fastScanStep_of_key hlt hkey] at hst
    split at hst
    · -- at the target the function returns
      obtain ⟨a, -, h⟩ := bind_eq_ok.1 hst
      cases h
    · rename_i hne
      obtain ⟨q, hq, h⟩ := bind_eq_ok.1 hst
      obtain rfl := Flow.next.inj (ok.inj h)
      have hcls := scanClass_eq_skipped.2 hne
      cases scanSkip_eq_ok.1 hq with
      | varint v q hread => exact .varint hkey hread (Or.inl hcls)
      | delimited n q hread => exact .skip hkey hread hcls
  steps := by
    intro o o' hm
    have hlt := hm.lt_len
    cases hm with
    | varint hkey hread hcls =>
      have hskip := hcls.resolve_right scanClass_ne.1
      exact ⟨_, steps_fastScan_of_skip target hlt hkey (scanClass_eq_skipped.1 hskip)
        (scanSkip_eq_ok.2 (.varint _ _ hread)), rfl⟩
    | skip hkey hread hcls =>
      exact ⟨_, steps_fastScan_of_skip target hlt hkey (scanClass_eq_skipped.1 hcls)
        (scanSkip_eq_ok.2 (.delimited _ _ hread)), rfl⟩
    | cut hkey hread hcls hlo hhi => exact absurd hcls scanClass_ne.2
  faults := by
    intro o hpos
    show (∃ f, fastScanStep dAtA target o = .fault f) ↔ Overruns (scanClass target) dAtA o
    apply fault_iff_overruns
    · intro f hf
      exact keyAt_of_fault (show 0 ≤ o from hpos) (by simp) hf
    · intro fieldNum wireType p hkey
      rw [fastScanStep_fault hkey, or_iff_right scanClass_ne.2]

/-- `Unmarshal` and `fastScanField` end without a fault and move their offset forward in every
iteration, exactly on inputs whose lengths are harmless for both. -/
theorem decoders_safe_iff {s : StructNode} (hcod : AllCodable s) (dAtA : Slice) :
    (SafeRun (unmarshalStep s dAtA) DecodeState.iNdEx ⟨0, GoStruct.zero s⟩ ∧
      ∀ target, SafeRun (fastScanStep dAtA target) id 0) ↔
    LengthsSafe (unmarshalClass s) dAtA ∧ ∀ target, LengthsSafe (scanClass target) dAtA := by
  rw [safeRun_iff_lengthsSafe (unmarshal_scansBy hcod dAtA) rfl]
  exact and_congr_right fun _ => forall_congr' fun target =>
    safeRun_iff_lengthsSafe (fastScan_scansBy target dAtA) rfl

theorem lengthsSafe_of_small (cls : BitVec 32 → FieldClass) (hlen : dAtA.len < 2 ^ 62)
    (h : ∀ p n q, 0 ≤ p → p < dAtA.len → readVarint dAtA p = .ok (n, q) → n.toNat < 2 ^ 62) : LengthsSafe cls dAtA := by
  intro o fieldNum p n q ho hkey hread
  have hb := readVarint_bounds hread
  have hn := h p n q hb.1 (by omega) hread
  exact ⟨fun _ => Or.inl (by omega), fun _ => by omega⟩

theorem decoders_safe_iff_name : SafeRun (unmarshalStep userProfile ⟨[0x12, 1, 0x61], by decide⟩) DecodeState.iNdEx
        ⟨0, GoStruct.zero userProfile⟩ ∧ ∀ target, SafeRun (fastScanStep ⟨[0x12, 1, 0x61], by decide⟩ target) id 0 := by
  have hsmall : ∀ cls, LengthsSafe cls ⟨[0x12, 1, 0x61], by decide⟩ := by
    intro cls
    refine lengthsSafe_of_small cls (by decide) fun p n q h0 h3 hread => ?_
    have hlt : p < 3 := h3
    have hp : p = 0 ∨ p = 1 ∨ p = 2 := by omega
    rcases hp with rfl | rfl | rfl <;> cases hread <;> decide
  exact (decoders_safe_iff (by decide) _).2 ⟨hsmall _, fun target => hsmall _⟩

def loopInput : Slice := ⟨[0x4a, 0xf5, 0xff, 0xff, 0xff, 0xff, 0xff, 0xff, 0xff, 0xff, 0x01], by decide⟩

def faultInput : Slice := ⟨[0x12, 0xff, 0xff, 0xff, 0xff, 0xff, 0xff, 0xff, 0xff, 0xff, 0x01], by decide⟩

theorem decoders_unsafe : Steps (unmarshalStep userProfile loopInput) ⟨0, GoStruct.zero userProfile⟩ ⟨0,
    GoStruct.zero userProfile⟩ ∧ (∀ r, ¬ Unmarshals userProfile loopInput r) ∧ (∀ r, ¬ FastScans loopInput 1 r) ∧
    Unmarshals userProfile faultInput (.fault .slice) ∧ FastScans faultInput 2 (.fault .slice) :=
  have hloop : Steps (unmarshalStep userProfile loopInput) ⟨0, GoStruct.zero userProfile⟩
      ⟨0, GoStruct.zero userProfile⟩ := rfl
  have hscan : Steps (fastScanStep loopInput 1) 0 0 := rfl
  ⟨hloop, not_returns_of_steps_self hloop, not_returns_of_steps_self hscan, ⟨1, rfl⟩, ⟨1, rfl⟩⟩

end HelixRpc.Codegen.Go
