import HelixRpc.Foundation.Varint

/-!
# Text as bytes

Text is a `String`: a sequence of Unicode scalar values.
-/

namespace HelixRpc.Foundation

def utf8Bytes (s : String) : Bytes := s.toByteArray.data.toList

def decodeUtf8 (b : Bytes) : Option String := String.fromUTF8? ⟨b.toArray⟩

theorem decodeUtf8_eq_some_iff {b : Bytes} {s : String} : decodeUtf8 b = some s ↔ utf8Bytes s = b := by
  constructor
  · intro h
    unfold decodeUtf8 String.fromUTF8? at h
    split at h
    · cases h
      rfl
    · cases h
  · rintro rfl
    have hvalid : (⟨(utf8Bytes s).toArray⟩ : ByteArray).IsValidUTF8 := s.isValidUTF8
    rw [decodeUtf8, String.fromUTF8?, dif_pos hvalid]
    rfl

theorem decodeUtf8_utf8Bytes (s : String) : decodeUtf8 (utf8Bytes s) = some s := decodeUtf8_eq_some_iff.2 rfl

theorem utf8Bytes_inj {s t : String} : utf8Bytes s = utf8Bytes t ↔ s = t := by
  constructor
  · intro h
    have hs := decodeUtf8_utf8Bytes s
    rw [h, decodeUtf8_utf8Bytes t] at hs
    exact (Option.some.inj hs).symm
  · rintro rfl
    rfl

theorem utf8Bytes_eq_nil_iff (s : String) : utf8Bytes s = [] ↔ s = "" := utf8Bytes_inj (t := "")

end HelixRpc.Foundation
