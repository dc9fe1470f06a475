import HelixRpc.Runtime.Go.Router
import Mathlib.Data.List.Nodup

/-!
# Headers, metadata and contexts of the Go server

Model of `MD` with its two functions for contexts (`runtimes/go/metadata.go`).
-/

namespace HelixRpc.Runtime.Go

open List Function

def toLower (s : Text) : Text := s.map Char.toLower

theorem toLower_eq_colon {ch : Char} (h : ch.toLower = ':') : ch = ':' := by
  unfold Char.toLower at h
  split at h
  · rename_i hupper
    -- a letter in lower case stands behind the colon
    have hval : ch.val + 32 = 58 := congrArg Char.val h
    have hlow : 65 ≤ ch.val.toNat := UInt32.le_iff_toNat_le.1 hupper.1
    have hsum : (ch.val.toNat + 32) % 2 ^ 32 = 58 := congrArg UInt32.toNat hval
    have hhigh : ch.val.toNat ≤ 90 := UInt32.le_iff_toNat_le.1 hupper.2
    omega
  · exact h

theorem colon_mem_toLower {s : Text} (h : ':' ∈ toLower s) : ':' ∈ s := by
  obtain ⟨ch, hmem, heq⟩ := mem_map.1 h
  exact toLower_eq_colon heq ▸ hmem

structure Header where
  fields : List (Text × List Text)
  distinct : (fields.map fun field => toLower field.1).Nodup
  names : ∀ field ∈ fields, ':' ∉ field.1

namespace Header

def values (h : Header) (name : Text) : List Text :=
  ((h.fields.find? fun field => decide (toLower field.1 = name)).map Prod.snd).getD []

def get (h : Header) (name : Text) : Text := (h.values name).headD []

theorem values_of_notMem {h : Header} {name : Text}
    (hname : name ∉ h.fields.map fun field => toLower field.1) : h.values name = [] := by
  have hnone : h.fields.find? (fun field => decide (toLower field.1 = name)) = none := by
    refine find?_eq_none.2 fun field hfield heq => hname ?_
    exact mem_map.2 ⟨field, hfield, of_decide_eq_true heq⟩
  rw [values, hnone]
  rfl

theorem values_of_mem {h : Header} {field : Text × List Text} (hfield : field ∈ h.fields) :
    h.values (toLower field.1) = field.2 := by
  obtain ⟨found, hfound⟩ : ∃ found,
      h.fields.find? (fun other => decide (toLower other.1 = toLower field.1)) = some found := by
    refine Option.isSome_iff_exists.1 (find?_isSome.2 ⟨field, hfield, ?_⟩)
    exact decide_eq_true rfl
  have hsome := find?_some hfound
  have hname : toLower found.1 = toLower field.1 := of_decide_eq_true hsome
  have heq := inj_on_of_nodup_map h.distinct (mem_of_find?_eq_some hfound) hfield hname
  rw [values, hfound, heq]
  rfl

theorem values_of_colon (h : Header) {name : Text} (hcolon : ':' ∈ name) : h.values name = [] := by
  refine values_of_notMem fun hname => ?_
  obtain ⟨field, hfield, heq⟩ := mem_map.1 hname
  exact h.names field hfield (colon_mem_toLower (heq ▸ hcolon))

end Header

abbrev MD := Text → List Text

def metadata (fields : List (Text × List Text)) : MD :=
  fields.foldl (fun md field => update md (toLower field.1) field.2) fun _ => []

section
variable {fields : List (Text × List Text)}

theorem foldl_update_of_notMem {name : Text} (hname : name ∉ fields.map fun field => toLower field.1) (md : MD) :
    fields.foldl (fun md field => update md (toLower field.1) field.2) md name = md name := by
  induction fields generalizing md with
  | nil => rfl
  | cons field fields ih =>
    rw [map_cons, mem_cons, not_or] at hname
    rw [foldl_cons, ih hname.2, update_of_ne hname.1]

theorem foldl_update_of_mem (hdistinct : (fields.map fun field => toLower field.1).Nodup)
    {field : Text × List Text} (hfield : field ∈ fields) (md : MD) :
    fields.foldl (fun md field => update md (toLower field.1) field.2) md (toLower field.1) = field.2 := by
  induction fields generalizing md with
  | nil => cases hfield
  | cons first fields ih =>
    rw [map_cons, nodup_cons] at hdistinct
    rw [foldl_cons]
    rcases mem_cons.1 hfield with rfl | hmem
    · rw [foldl_update_of_notMem hdistinct.1, update_self]
    · exact ih hdistinct.2 hmem _

theorem Header.metadata_eq (h : Header) {order : List (Text × List Text)} (horder : order.Perm h.fields) :
    metadata order = h.values := by
  have hnames := horder.map fun field => toLower field.1
  have hdistinct := hnames.nodup_iff.2 h.distinct
  funext name
  by_cases hname : name ∈ order.map fun field => toLower field.1
  · obtain ⟨field, hfield, rfl⟩ := mem_map.1 hname
    rw [metadata, foldl_update_of_mem hdistinct hfield, values_of_mem (horder.mem_iff.1 hfield)]
  · rw [metadata, foldl_update_of_notMem hname, values_of_notMem (mt hnames.mem_iff.2 hname)]
end

structure Context (Values : Type) where
  md : Option MD
  values : Values

def newContext {Values : Type} (ctx : Context Values) (md : MD) : Context Values := { ctx with md := some md }

def fromContext {Values : Type} (ctx : Context Values) : MD := ctx.md.getD fun _ => []

end HelixRpc.Runtime.Go
