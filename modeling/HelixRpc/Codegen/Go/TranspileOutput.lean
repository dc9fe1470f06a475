import HelixRpc.Codegen.Go.Transpile

/-!
# Reading the output of the transpiler

A Compact reader on the bytes that `TranspileProtobufToThriftCompact` writes.
-/

namespace HelixRpc.Codegen.Go

open Foundation Compiler List Outcome

inductive Represents : (k : Kind) → GoVal k → CompactValue → Prop where
  | int32 (v : BitVec 32) : Represents .int32 v (.i32 v)
  | int64 (v : BitVec 64) : Represents .int64 v (.i64 v)
  | string (v : Slice) : Represents .string v (.binary v.bytes)

theorem readValue_valueBytes {k : Kind} {body : Body} (h : EncodesKind k body) : ∃ v, Represents k
    (bodyValue k body) v ∧ ∀ rest, readValue (compactType k) (valueBytes body ++ rest) = some (v, rest) := by
  cases h with
  | int32 n raw hraw =>
    have hlow : bodyValue .int32 (.varint raw) = n := by
      show raw.value.setWidth 32 = n
      rw [hraw, setWidth_signExtend]
    refine ⟨.i32 n, hlow ▸ .int32 n, ?_⟩
    intro rest
    rw [valueBytes, hraw]
    exact readValue_i32 n rest
  | int64 raw => exact ⟨.i64 raw.value, .int64 raw.value, readValue_i64 raw.value⟩
  | string len payload size =>
    refine ⟨.binary payload.bytes, .string payload, ?_⟩
    intro rest
    rw [valueBytes, append_assoc]
    exact readValue_binary size rest

def readIds (s : StructNode) : BitVec 16 → BitVec 16 → List Record → List (BitVec 16)
  | _, _, [] => []
  | seen, last, r :: rs =>
    let id := seen + BitVec.ofNat 16 (r.num - last.toNat)
    id :: readIds s id (nextLast s last r) rs

def ShowsBody (s : StructNode) (r : Record) (f : CompactField) : Prop :=
  ∃ c, fieldOf s r = some c ∧ Represents (kindAt s c) (bodyValue (kindAt s c) r.body) f.2

variable {s : StructNode} {rs : List Record} {last : BitVec 16} {r : Record}

/-- A reader takes the bytes of one record apart and goes on with the rest. -/
theorem readFields_emitted (hids : IdsUpTo 15 s) {c : Fin s.fields.length} (hc : fieldOf s r = some c)
    (hk : EncodesKind (kindAt s c) r.body) (hlast : last.toNat < r.num) {seen id : BitVec 16}
    (hid : seen + BitVec.ofNat 16 (r.num - last.toNat) = id) {fuel : Nat} {rest left : Bytes}
    {fields : List CompactField} (hrest : readFields fuel id rest = some (fields, left)) : ∃ v, ShowsBody s r (id, v) ∧
      readFields (fuel + 1) seen (emitted s last r ++ rest) = some ((id, v) :: fields, left) := by
  have hnum := num_of_fieldOf hc
  have hup := idsUpTo_at hids c
  obtain ⟨v, hv, hread⟩ := readValue_valueBytes hk
  have hbytes : emitted s last r ++ rest = UInt8.ofNat (16 * (r.num - last.toNat) + (compactType (kindAt s c)).code) ::
      (valueBytes r.body ++ rest) := by simp [emitted, hc]
  have hheader := readFieldHeader_short seen (compactType (kindAt s c)) (d := r.num - last.toNat) (by omega)
    (by omega) (valueBytes r.body ++ rest)
  rw [hid] at hheader
  refine ⟨v, ⟨c, hc, hv⟩, ?_⟩
  rw [hbytes, readFields_cons hheader (hread _), hrest]
  rfl

theorem readFields_emittedAll (hids : IdsUpTo 15 s) (hrs : EncodesValue s rs) (hlast : ∀ r ∈ rs, last.toNat < r.num)
    (seen : BitVec 16) (fuel : Nat) (hfuel : rs.length < fuel) :
    ∃ fields, readFields fuel seen (emittedAll s last rs ++ [0]) = some (fields, []) ∧
      fields.map Prod.fst = readIds s seen last rs ∧ Forall₂ (ShowsBody s) rs fields := by
  -- induction on the records; `seen` is the state of the reader and `last` that of the writer
  induction rs generalizing seen last fuel with
  | nil =>
    obtain ⟨fuel, rfl⟩ := Nat.exists_eq_add_one_of_ne_zero (Nat.ne_of_gt hfuel)
    exact ⟨[], readFields_stop fuel seen [], rfl, Forall₂.nil⟩
  | cons r rs ih =>
    obtain ⟨fuel, rfl⟩ := Nat.exists_eq_add_one_of_ne_zero (Nat.ne_of_gt (Nat.zero_lt_of_lt hfuel))
    obtain ⟨c, hc, hk⟩ := hrs.fields r (by simp)
    obtain ⟨fields, hfields, hmap, hshow⟩ := ih hrs.tail (hrs.nextLast_lt hlast)
      (seen + BitVec.ofNat 16 (r.num - last.toNat)) fuel (by rw [length_cons] at hfuel; omega)
    obtain ⟨v, hv, hread⟩ := readFields_emitted hids hc hk (hlast r (by simp)) rfl hfields
    rw [← append_assoc] at hread
    refine ⟨_, hread, ?_, Forall₂.cons hv hshow⟩
    rw [map_cons, hmap]
    rfl

def IsString (s : StructNode) (r : Record) : Prop := ∃ c, fieldOf s r = some c ∧ kindAt s c = .string

def StringsLast (s : StructNode) (rs : List Record) : Prop := ∀ r ∈ rs.dropLast, ¬ IsString s r

theorem nextLast_of_string (h : IsString s r) (last : BitVec 16) : nextLast s last r = last := by
  obtain ⟨c, hc, hk⟩ := h
  simp only [nextLast, hc]
  exact if_pos hk

theorem nextLast_of_not_string {c : Fin s.fields.length} (hc : fieldOf s r = some c) (h : ¬ IsString s r)
    (last : BitVec 16) : nextLast s last r = BitVec.ofNat 16 r.num := by
  simp only [nextLast, hc]
  exact if_neg fun hk => h ⟨c, hc, hk⟩

theorem add_difference {n : Nat} (h : last.toNat < n) :
    last + BitVec.ofNat 16 (n - last.toNat) = BitVec.ofNat 16 n := by
  apply BitVec.eq_of_toNat_eq
  rw [BitVec.toNat_add, BitVec.toNat_ofNat, BitVec.toNat_ofNat, Nat.add_mod_mod]
  congr 1
  omega

theorem readIds_eq_iff (hids : IdsUpTo 15 s) (hrs : EncodesValue s rs) (hlast : ∀ r ∈ rs, last.toNat < r.num) :
    readIds s last last rs = rs.map (fun r => BitVec.ofNat 16 r.num) ↔ StringsLast s rs := by
  induction rs generalizing last with
  | nil => simp [readIds, StringsLast]
  | cons r rs ih =>
    obtain ⟨c, hc, -⟩ := hrs.fields r (by simp)
    have hbelow := hlast r (by simp)
    rw [readIds, add_difference hbelow, map_cons, cons.injEq]
    by_cases hstr : IsString s r
    · rw [nextLast_of_string hstr]
      cases rs with
      | nil => simp [readIds, StringsLast]
      | cons q qs =>
        -- the difference of `q` is taken from the id before the string
        have hne : BitVec.ofNat 16 r.num + BitVec.ofNat 16 (q.num - last.toNat) ≠ BitVec.ofNat 16 q.num := by
          intro heq
          obtain ⟨d, hd, -⟩ := hrs.fields q (by simp)
          have hr := num_of_fieldOf hc
          have hr' := idsUpTo_at hids c
          have hq := num_of_fieldOf hd
          have hq' := idsUpTo_at hids d
          have hnat := congrArg BitVec.toNat heq
          rw [BitVec.toNat_add, BitVec.toNat_ofNat, BitVec.toNat_ofNat, BitVec.toNat_ofNat] at hnat
          omega
        constructor
        · rintro ⟨-, hrest⟩
          rw [readIds, map_cons, cons.injEq] at hrest
          exact absurd hrest.1 hne
        · intro hl
          exact absurd hstr (hl r (by simp))
    · rw [nextLast_of_not_string hc hstr]
      have hnext := hrs.nextLast_lt hlast
      rw [nextLast_of_not_string hc hstr] at hnext
      rw [ih hrs.tail hnext]
      cases rs with
      | nil => simp [StringsLast]
      | cons q qs => simp [StringsLast, hstr]

/-- A field of the output shows the id of a record and the value that `Unmarshal` gave its field. -/
def Shows (s : StructNode) (x : GoStruct s) (r : Record) (f : CompactField) : Prop :=
  f.1 = BitVec.ofNat 16 r.num ∧ ∃ c, fieldOf s r = some c ∧ Represents (kindAt s c) (x c) f.2

/-- The transpiled message, read by a Compact reader, has the ids and the values that `Unmarshal`
yields for the records of the message. -/
def Faithful (s : StructNode) (inp : Slice) (spare out : Bytes) (rs : List Record) : Prop :=
  ∃ x, Unmarshals s inp (.ok x) ∧ ∃ out' n fields, Transpiles s inp spare out (.ok (out', n)) ∧
    readStruct (out'.take n) = some (fields, []) ∧ Forall₂ (Shows s x) rs fields

theorem transpiles_unique {inp : Slice} {spare out : Bytes} {q r : GoOutcome (Bytes × Nat)}
    (hq : Transpiles s inp spare out q) (hr : Transpiles s inp spare out r) : q = r := by
  unfold Transpiles at hq hr
  split at hq
  · rename_i hfb
    rw [if_pos hfb] at hr
    rw [hq, hr]
  · rename_i hfb
    rw [if_neg hfb] at hr
    exact returns_unique hq hr

theorem EncodesValue.lastValue_eq (h : EncodesValue s rs) (hr : r ∈ rs) {c : Fin s.fields.length}
    (hc : fieldOf s r = some c) : lastValue s rs c = bodyValue (kindAt s c) r.body := by
  have hnodup : (rs.map Record.num).Nodup := pairwise_map.2 (h.ascending.imp fun hlt => Nat.ne_of_lt hlt)
  have hnum := num_of_fieldOf hc
  have hlast : lastRecord rs (s.fields.get c).id = some r := by
    apply lastRecord_eq_some hr hnum
    intro q hq hqnum
    exact inj_on_of_nodup_map hnodup hq hr (hqnum.trans hnum.symm)
  rw [lastValue, hlast]

theorem forall₂_shows_iff {x : GoStruct s} {fields : List CompactField} (hshow : Forall₂ (ShowsBody s) rs fields)
    (hx : ∀ r ∈ rs, ∀ c, fieldOf s r = some c → x c = bodyValue (kindAt s c) r.body) :
    Forall₂ (Shows s x) rs fields ↔ fields.map Prod.fst = rs.map fun r => BitVec.ofNat 16 r.num := by
  induction hshow with
  | nil => simp
  | cons hhead htail ih =>
    rename_i r f rs fields
    rw [forall₂_cons, ih fun q hq => hx q (mem_cons_of_mem r hq), map_cons, map_cons, cons.injEq]
    obtain ⟨c, hc, hv⟩ := hhead
    have hvalue : Represents (kindAt s c) (x c) f.2 := by
      rw [hx r (by simp) c hc]
      exact hv
    constructor
    · rintro ⟨⟨hid, -⟩, hrest⟩
      exact ⟨hid, hrest⟩
    · rintro ⟨hid, hrest⟩
      exact ⟨⟨hid, c, hc, hvalue⟩, hrest⟩

/-- The transpiler preserves the meaning of a message exactly if no string is followed by another
field. -/
theorem transpile_faithful_iff {s : StructNode} (hfb : s.hasFallback = false) (hdist : DistinctIds s)
    (hids : IdsUpTo 15 s) {inp : Slice} (spare : Bytes) {rs : List Record} (hrs : EncodesValue s rs)
    (h : inp.bytes = encodeRecords rs) {out : Bytes} (hroom : (emittedAll s 0 rs).length < out.length) :
    Faithful s inp spare out rs ↔ StringsLast s rs := by
  have hlast : ∀ r ∈ rs, (0 : BitVec 16).toNat < r.num := fun r _ => r.num_pos
  have hrun := transpile_records hfb hids spare hrs h hroom
  have hun : Unmarshals s inp (.ok (lastValue s rs)) := by
    rw [← foldl_applyRecord hdist]
    apply unmarshal_records _ h
    intro r hr
    obtain ⟨c, hc, hk⟩ := hrs.fields r hr
    exact readable_of_encodesKind hc hk
  have hknown : rs.filter (Known s) = rs := by
    refine filter_eq_self.2 fun r hr => ?_
    obtain ⟨c, hc, -⟩ := hrs.fields r hr
    simp [Known, hc]
  have hfuel := length_known_lt (s := s) (nextLast s) rs 0
  rw [hknown] at hfuel
  obtain ⟨fields, hread, hmap, hshow⟩ := readFields_emittedAll hids hrs hlast 0 _ hfuel
  have hstruct : readStruct ((overwrite out 0 (emittedAll s 0 rs ++ [0])).take
      (emittedAll s 0 rs ++ [0]).length) = some (fields, []) := by
    rw [take_overwrite]
    exact hread
  -- the values are right in any case, so the question is one about ids
  have hiff := forall₂_shows_iff hshow fun r hr c hc => hrs.lastValue_eq hr hc
  rw [← readIds_eq_iff hids hrs hlast, ← hmap, ← hiff]
  constructor
  · rintro ⟨x, hx, out', n, fields', hrun', hread', hshow'⟩
    obtain ⟨rfl, rfl⟩ := Prod.mk.inj (ok.inj (transpiles_unique hrun' hrun))
    obtain ⟨rfl, -⟩ := Prod.mk.inj (Option.some.inj (hread'.symm.trans hstruct))
    obtain rfl := ok.inj (returns_unique hx hun)
    exact hshow'
  · intro hall
    exact ⟨_, hun, _, _, fields, hrun, hstruct, hall⟩

def emailRecord : Record := .ofIndex 2 (Record.sliceBody ⟨[0x62], by decide⟩)

theorem encodesValue_profile : EncodesValue userProfile [idRecord, nameRecord, emailRecord] := by
  refine ⟨?_, by decide⟩
  intro r hr
  simp only [mem_cons, not_mem_nil, or_false] at hr
  rcases hr with rfl | rfl | rfl
  · exact ⟨⟨0, by decide⟩, rfl, .int64 _⟩
  · exact ⟨⟨1, by decide⟩, rfl, .string _ _ _⟩
  · exact ⟨⟨2, by decide⟩, rfl, .string _ _ _⟩

theorem transpile_faithful_iff_name :
    Faithful userProfile ⟨[0x08, 7, 0x12, 5, 0x61, 0x62, 0x63, 0x64, 0x65], by decide⟩ []
      (replicate 16 0) [idRecord, nameRecord] := by
  have hrs : EncodesValue userProfile [idRecord, nameRecord] :=
    ⟨fun r hr => encodesValue_profile.fields r (by revert r hr; decide), by decide⟩
  refine (transpile_faithful_iff rfl (by decide) (by decide) [] hrs rfl (by decide)).2 ?_
  rintro r hr ⟨c, hc, hk⟩
  rw [mem_singleton.1 hr] at hc
  cases hc
  cases hk

theorem transpile_shifts_email : EncodesValue userProfile [idRecord, nameRecord, emailRecord] ∧
      encodeRecords [idRecord, nameRecord, emailRecord] =
        [0x08, 7, 0x12, 5, 0x61, 0x62, 0x63, 0x64, 0x65, 0x1a, 1, 0x62] ∧ Transpiles userProfile
        ⟨[0x08, 7, 0x12, 5, 0x61, 0x62, 0x63, 0x64, 0x65, 0x1a, 1, 0x62], by decide⟩ []
        (replicate 13 0)
        (.ok ([0x16, 14, 0x18, 5, 0x61, 0x62, 0x63, 0x64, 0x65, 0x28, 1, 0x62, 0], 13)) ∧
      readStruct [0x16, 14, 0x18, 5, 0x61, 0x62, 0x63, 0x64, 0x65, 0x28, 1, 0x62, 0] =
        some ([(1, .i64 7), (2, .binary [0x61, 0x62, 0x63, 0x64, 0x65]), (4, .binary [0x62])], []) ∧
      ¬ Faithful userProfile
        ⟨[0x08, 7, 0x12, 5, 0x61, 0x62, 0x63, 0x64, 0x65, 0x1a, 1, 0x62], by decide⟩ []
        (replicate 13 0) [idRecord, nameRecord, emailRecord] := by
  have hrun : Transpiles userProfile ⟨[0x08, 7, 0x12, 5, 0x61, 0x62, 0x63, 0x64, 0x65, 0x1a, 1, 0x62], by decide⟩ []
    (replicate 13 0) (.ok ([0x16, 14, 0x18, 5, 0x61, 0x62, 0x63, 0x64, 0x65, 0x28, 1, 0x62, 0], 13)) := ⟨4, rfl⟩
  have hread : readStruct [0x16, 14, 0x18, 5, 0x61, 0x62, 0x63, 0x64, 0x65, 0x28, 1, 0x62, 0] =
      some ([(1, .i64 7), (2, .binary [0x61, 0x62, 0x63, 0x64, 0x65]), (4, .binary [0x62])], []) := by decide
  refine ⟨encodesValue_profile, rfl, hrun, hread, ?_⟩
  rintro ⟨x, -, out', n, fields, hrun', hread', hshow⟩
  obtain ⟨rfl, rfl⟩ := Prod.mk.inj (ok.inj (transpiles_unique hrun' hrun))
  obtain ⟨rfl, -⟩ := Prod.mk.inj (Option.some.inj (hread'.symm.trans hread))
  rw [forall₂_cons, forall₂_cons, forall₂_cons] at hshow
  exact absurd hshow.2.2.1.1 (by decide)

end HelixRpc.Codegen.Go
