import HelixRpc.Compiler.Layout
import HelixRpc.Compiler.ParserBase

/-!
# The words of a schema

Names, type words and numbers as they stand in a schema, and what the parsers make of them.
-/

namespace HelixRpc.Compiler

open List

def isIdent : List Char → Bool
  | [] => false
  | ch :: cs => isIdentStart ch && cs.all isIdentChar && (ch :: cs).all (·.toNat < 128)

structure Ident where
  val : String
  isIdent : isIdent val.toList = true

structure TypeWord (keywords : List String) extends Ident where
  notKeyword : val ∉ keywords

structure Digits where
  val : String
  nonempty : val.toList ≠ []
  isDigits : val.toList.all isDigit = true

structure Number where
  negative : Bool
  digits : Digits

def Number.val (n : Number) : String := if n.negative then "-" ++ n.digits.val else n.digits.val

def Digits.value (d : Digits) : Nat := decimal d.val.toList

theorem TypeWord.ne {keywords : List String} {w : TypeWord keywords} {word : String}
    (h : word ∈ keywords) : w.val ≠ word := by
  rintro rfl
  exact w.notKeyword h

variable {ch : Char} {w : List Char}

theorem isIdentChar_of_isIdentStart (h : isIdentStart ch = true) : isIdentChar ch = true := by
  rcases Bool.or_eq_true_iff.1 h with hletter | hunder
  · simp [isIdentChar, hletter]
  · simp [isIdentChar, hunder]

theorem isIdent_chars {t : List Char} (h : isIdent t = true) : ∀ ch ∈ t, isIdentChar ch = true ∧ ch.toNat < 128 := by
  cases t with
  | nil => cases h
  | cons c cs =>
    simp only [isIdent, Bool.and_eq_true, all_eq_true, decide_eq_true_eq] at h
    obtain ⟨⟨hstart, hchars⟩, hascii⟩ := h
    intro ch hch
    refine ⟨?_, hascii ch hch⟩
    rcases mem_cons.1 hch with rfl | hmem
    · exact isIdentChar_of_isIdentStart hstart
    · exact hchars ch hmem

theorem Ident.isIdentChar (w : Ident) : ∀ ch ∈ w.val.toList, isIdentChar ch = true :=
  fun ch hch => (isIdent_chars w.isIdent ch hch).1

theorem Ident.spells (w : Ident) : Spells (.ident w.val) w.val.toList := by
  have h := w.isIdent
  cases hval : w.val.toList with
  | nil =>
    rw [hval] at h
    cases h
  | cons c cs =>
    rw [hval, Compiler.isIdent, Bool.and_eq_true, Bool.and_eq_true] at h
    have hspell := Spells.ident h.1.1 (all_eq_true.1 h.1.2)
    rwa [← hval, String.ofList_toList, hval] at hspell

theorem isTrimmed_of_isIdentChar (h : isIdentChar ch = true) : isTrimmed ch = false := by
  have hspace : isSpace ch = false := isSpace_eq_false h (by decide)
  have hvt : ch ≠ Char.ofNat 11 := by
    rintro rfl
    exact absurd h (by decide)
  have hff : ch ≠ Char.ofNat 12 := by
    rintro rfl
    exact absurd h (by decide)
  rw [isTrimmed, hspace, decide_eq_false hvt, decide_eq_false hff]
  rfl

theorem trimSpace_eq {t : List Char} (hhead : ∀ ch, t.head? = some ch → isTrimmed ch = false)
    (hlast : ∀ ch, t.getLast? = some ch → isTrimmed ch = false) : trimSpace t = t := by
  rw [trimSpace, (takeWhile_eq_nil hhead).2, (takeWhile_eq_nil ?_).2, reverse_reverse]
  intro ch hch
  rw [head?_reverse] at hch
  exact hlast ch hch

theorem trimSpace_word (hw : ∀ ch ∈ w, isIdentChar ch = true) : trimSpace w = w := by
  apply trimSpace_eq
  · intro ch hch
    exact isTrimmed_of_isIdentChar (hw ch (mem_of_head? hch))
  · intro ch hch
    exact isTrimmed_of_isIdentChar (hw ch (mem_of_getLast? hch))

theorem trimSpace_arguments {start : List Char} (hstart : start.head? = some ch) (hch : isIdentChar ch = true)
    (t : List Char) : trimSpace (start ++ (t ++ ['>'])) = start ++ (t ++ ['>']) := by
  apply trimSpace_eq
  · intro c hc
    rw [head?_append, hstart, Option.some_or] at hc
    cases hc
    exact isTrimmed_of_isIdentChar hch
  · intro c hc
    rw [← append_assoc, getLast?_concat] at hc
    cases hc
    rfl

theorem typeArgument_word (start : List Char) (hw : ∀ ch ∈ w, isIdentChar ch = true) : typeArgument start w = none := by
  refine if_neg ?_
  rintro ⟨-, hlast⟩
  have hangle := hw '>' (mem_of_getLast? hlast)
  exact absurd hangle (by decide)

theorem typeArgument_eq (start body : List Char) : typeArgument start (start ++ (body ++ ['>'])) = some body := by
  rw [typeArgument, if_pos, drop_left, dropLast_concat]
  refine ⟨ isPrefixOf_iff_prefix.2 (prefix_append _ _), ?_⟩
  rw [← append_assoc, getLast?_concat]

theorem parseTypeChars_word (hw : ∀ ch ∈ w, isIdentChar ch = true) {fuel : Nat} (hfuel : 0 < fuel) :
    parseTypeChars fuel w = wordType (String.ofList w) := by
  obtain ⟨fuel, rfl⟩ : ∃ n, fuel = n + 1 := ⟨fuel - 1, by omega⟩
  simp [parseTypeChars, trimSpace_word hw, typeArgument_word _ hw]

theorem parseTypeNode_word (w : Ident) : parseTypeNode w.val = wordType w.val := by
  rw [parseTypeNode, parseTypeChars_word w.isIdentChar (Nat.succ_pos _), String.ofList_toList]

theorem parseTypeNode_list (w : Ident) :
    parseTypeNode ("list<" ++ w.val ++ ">") = ⟨.list, "", none, some (wordType w.val)⟩ := by
  have htext : ("list<" ++ w.val ++ ">").toList = "list<".toList ++ (w.val.toList ++ ['>']) := by
    rw [String.toList_append, String.toList_append, append_assoc]
    rfl
  have htrim : trimSpace ("list<".toList ++ (w.val.toList ++ ['>'])) = "list<".toList ++ (w.val.toList ++ ['>']) :=
    trimSpace_arguments (show "list<".toList.head? = some 'l' from rfl) (by decide) _
  have hfuel : 0 < ("list<".toList ++ (w.val.toList ++ ['>'])).length := by
    simp only [length_append, length_singleton]
    omega
  rw [parseTypeNode, htext, parseTypeChars]
  simp only [htrim, typeArgument_eq]
  rw [parseTypeChars_word w.isIdentChar hfuel, String.ofList_toList]

theorem splitComma_eq {k : List Char} (hk : ∀ ch ∈ k, isIdentChar ch = true) (v : List Char) :
    splitComma (k ++ ',' :: v) = some (k, v) := by
  have hne : ∀ ch ∈ k, decide (ch ≠ ',') = true := by
    intro ch hch
    apply decide_eq_true
    rintro rfl
    exact absurd (hk ',' hch) (by decide)
  have hend : ∀ ch, (',' :: v).head? = some ch → decide (ch ≠ ',') = false := by
    intro ch hch
    cases hch
    rfl
  obtain ⟨htake, hdrop⟩ := takeWhile_word hne hend
  rw [splitComma, if_pos (mem_append_right _ mem_cons_self), htake, hdrop]
  rfl

theorem parseTypeNode_map (k v : Ident) : parseTypeNode ("map<" ++ k.val ++ "," ++ v.val ++ ">") =
      ⟨.map, "", some (wordType k.val), some (wordType v.val)⟩ := by
  have htext : ("map<" ++ k.val ++ "," ++ v.val ++ ">").toList =
      "map<".toList ++ (k.val.toList ++ ',' :: v.val.toList ++ ['>']) := by
    simp only [String.toList_append, append_assoc]
    rfl
  have htrim : trimSpace ("map<".toList ++ (k.val.toList ++ ',' :: v.val.toList ++ ['>'])) =
      "map<".toList ++ (k.val.toList ++ ',' :: v.val.toList ++ ['>']) :=
    trimSpace_arguments (show "map<".toList.head? = some 'm' from rfl) (by decide) _
  have hlist : typeArgument "list<".toList
      ("map<".toList ++ (k.val.toList ++ ',' :: v.val.toList ++ ['>'])) = none := by
    refine if_neg ?_
    rintro ⟨hstart, -⟩
    cases hstart
  have hfuel : 0 < ("map<".toList ++ (k.val.toList ++ ',' :: v.val.toList ++ ['>'])).length := by
    simp only [length_append, length_singleton]
    omega
  rw [parseTypeNode, htext, parseTypeChars]
  simp only [htrim, hlist, typeArgument_eq, Option.bind_some, splitComma_eq k.isIdentChar]
  rw [parseTypeChars_word k.isIdentChar hfuel, parseTypeChars_word v.isIdentChar hfuel,
    String.ofList_toList, String.ofList_toList]

theorem wordType_ne_map (word : String) : (wordType word).kind ≠ .map := by
  unfold wordType
  repeat' split
  all_goals nofun

theorem Digits.spells (d : Digits) : Spells (.int d.val) d.val.toList := by
  have h := d.isDigits
  cases hval : d.val.toList with
  | nil => exact absurd hval d.nonempty
  | cons c cs =>
    rw [hval, all_cons, Bool.and_eq_true] at h
    have hspell := Spells.int (Bool.or_eq_true_iff.2 (.inl h.1)) (all_eq_true.1 h.2)
    rwa [← hval, String.ofList_toList, hval] at hspell

theorem Number.exists_cons (n : Number) : ∃ ch cs, n.val.toList = ch :: cs ∧ (isDigit ch || ch = '-') = true := by
  cases hval : n.digits.val.toList with
  | nil => exact absurd hval n.digits.nonempty
  | cons c cs =>
    have hdigit : isDigit c = true := all_eq_true.1 n.digits.isDigits c (by rw [hval]; exact mem_cons_self)
    unfold Number.val
    split
    · exact ⟨'-', c :: cs, by rw [String.toList_append, hval]; rfl, rfl⟩
    · exact ⟨c, cs, hval, by rw [hdigit]; rfl⟩

theorem atoi_digits (d : Digits) : atoi d.val = min (d.value : Int) (2 ^ 63 - 1) := by
  have h := d.isDigits
  unfold atoi Digits.value
  split
  · rename_i digits heq
    rw [heq, all_cons, Bool.and_eq_true] at h
    exact absurd h.1 (by decide)
  · rfl

theorem readID_digits {d : Digits} (h : d.value ≤ 2 ^ 31 - 1) : readID d.val = BitVec.ofNat 32 d.value := by
  have hmin : min (d.value : Int) (2 ^ 63 - 1) = d.value := by omega
  rw [readID, atoi_digits, hmin, BitVec.ofInt_natCast]

end HelixRpc.Compiler
