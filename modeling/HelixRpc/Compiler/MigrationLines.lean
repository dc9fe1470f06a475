import HelixRpc.Compiler.Migration
import HelixRpc.Compiler.Words

/-!
# What the line patterns match

The regular expressions of `TranspileThriftToProto` on lines that are printed from tokens.
-/

namespace HelixRpc.Compiler.Migration

open List

def Spaces (g : List Char) : Prop := ∀ ch ∈ g, isSpace ch = true ∧ ch ≠ '\n'

variable {ch : Char} {g : List Char}

theorem Spaces.isBlank (hg : Spaces g) : ∀ ch ∈ g, isBlank ch = true := by
  intro ch hch
  rcases isSpace_cases (hg ch hch).1 with rfl | rfl | rfl | rfl
  all_goals rfl

theorem Spaces.isTrimmed (hg : Spaces g) : ∀ ch ∈ g, isTrimmed ch = true := by
  intro ch hch
  rw [Compiler.isTrimmed, (hg ch hch).1]
  rfl

theorem isBlank_of_isIdentChar (h : isIdentChar ch = true) : isBlank ch = false := by
  have hne : ∀ c, isIdentChar c = false → ch ≠ c := by
    rintro c hc rfl
    rw [hc] at h
    cases h
  rw [isBlank, decide_eq_false (hne _ rfl), decide_eq_false (hne _ rfl), decide_eq_false (hne _ rfl),
    decide_eq_false (hne _ rfl), decide_eq_false (hne _ rfl)]
  rfl

theorem isIdentChar_of_isWordChar (h : isWordChar ch = true) : isIdentChar ch = true := by
  simp only [isWordChar, Bool.or_eq_true] at h
  simp only [isIdentChar, isLetter, Bool.or_eq_true]
  tauto

theorem isWordChar_of_isDigit (h : isDigit ch = true) : isWordChar ch = true := by
  simp [isWordChar, h]

theorem isWordChar_or_dot (h : isIdentChar ch = true) (hascii : ch.toNat < 128) : isWordChar ch = true ∨ ch = '.' := by
  simp only [isIdentChar, Bool.or_eq_true, decide_eq_true_eq] at h
  rcases h with ((hletter | hdigit) | hunder) | hdot
  · simp only [isLetter, Bool.or_eq_true, Bool.and_eq_true, decide_eq_true_eq] at hletter
    have hascii_letter : (65 ≤ ch.toNat ∧ ch.toNat ≤ 90) ∨ (97 ≤ ch.toNat ∧ ch.toNat ≤ 122) := by omega
    left
    simp only [isWordChar, Bool.or_eq_true, Bool.and_eq_true, decide_eq_true_eq]
    exact .inl (.inl hascii_letter)
  · exact .inl (isWordChar_of_isDigit hdigit)
  · obtain rfl := hunder
    exact .inl rfl
  · exact .inr hdot

variable {t : List Char} {p : Char → Bool}

theorem dropBlanks (hg : Spaces g) (ht : ∀ ch, t.head? = some ch → isBlank ch = false) :
    (g ++ t).dropWhile isBlank = t :=
  (takeWhile_word hg.isBlank ht).2

theorem dropBlanks_cons (hg : Spaces g) (hch : isBlank ch = false) (rest : List Char) :
    (g ++ ch :: rest).dropWhile isBlank = ch :: rest := by
  refine dropBlanks hg ?_
  intro c hc
  cases hc
  exact hch

theorem run_eq {w rest : List Char} (hne : w ≠ []) (hw : ∀ ch ∈ w, p ch = true)
    (hrest : ∀ ch, rest.head? = some ch → p ch = false) : run p (w ++ rest) = some (w, rest) := by
  obtain ⟨htake, hdrop⟩ := takeWhile_word hw hrest
  rw [run, htake, hdrop, if_neg hne]

theorem run_eq_none (h : ∀ ch, t.head? = some ch → p ch = false) : run p t = none :=
  if_pos (takeWhile_eq_nil h).1

theorem endsWord_isWordChar {rest : List Char} (h : EndsWord rest) :
    ∀ ch, rest.head? = some ch → isWordChar ch = false := by
  intro ch hch
  rw [Bool.eq_false_iff]
  intro hword
  have hident := h ch hch
  rw [isIdentChar_of_isWordChar hword] at hident
  cases hident

end HelixRpc.Compiler.Migration

namespace HelixRpc.Compiler

open Migration List
variable (w : Ident)

def Ident.isPlain : Bool := w.val.toList.all isWordChar

theorem Ident.exists_cons : ∃ ch cs, w.val.toList = ch :: cs ∧ isIdentStart ch = true ∧ isWordChar ch = true ∧ ∀ c ∈ cs,
    Compiler.isIdentChar c = true := by
  have h := w.isIdent
  cases hval : w.val.toList with
  | nil =>
    rw [hval] at h
    cases h
  | cons ch cs =>
    rw [hval, Compiler.isIdent, Bool.and_eq_true, Bool.and_eq_true, all_cons, Bool.and_eq_true] at h
    obtain ⟨⟨hstart, hcs⟩, hascii, -⟩ := h
    have hchar := isIdentChar_of_isIdentStart hstart
    refine ⟨ch, cs, rfl, hstart, ?_, all_eq_true.1 hcs⟩
    rcases isWordChar_or_dot hchar (of_decide_eq_true hascii) with hword | rfl
    · exact hword
    · cases hstart

theorem Ident.isAscii : ∀ ch ∈ w.val.toList, ch.toNat < 128 :=
  fun ch hch => (isIdent_chars w.isIdent ch hch).2

def Ident.cut : Ident where
  val := String.ofList (w.val.toList.takeWhile isWordChar)
  isIdent := by
    obtain ⟨ch, cs, hval, hstart, hword, hcs⟩ := w.exists_cons
    have hascii := w.isAscii
    have hsub := ( takeWhile_prefix isWordChar (l := cs)).subset
    rw [hval] at hascii
    rw [String.toList_ofList, hval, takeWhile_cons_of_pos hword, Compiler.isIdent, hstart,
      Bool.true_and, Bool.and_eq_true, all_eq_true, all_eq_true]
    refine ⟨fun c hc => hcs c (hsub hc), ?_⟩
    intro c hc
    exact decide_eq_true (hascii c (cons_subset_cons ch hsub hc))

theorem Ident.toList_cut : w.cut.val.toList = w.val.toList.takeWhile isWordChar := String.toList_ofList

theorem Ident.cut_eq_iff : w.cut.val = w.val ↔ w.isPlain = true := by
  rw [← String.toList_inj, w.toList_cut, isPlain, takeWhile_eq_self_iff, all_eq_true]

theorem Ident.head_dropWhile {ch : Char} (h : (w.val.toList.dropWhile isWordChar).head? = some ch) : ch = '.' := by
  have hmem : ch ∈ w.val.toList := (dropWhile_suffix isWordChar).subset (mem_of_head? h)
  have hnot : isWordChar ch = false := by
    have hhead := head?_dropWhile_not isWordChar w.val.toList
    rw [h] at hhead
    exact hhead
  rcases isWordChar_or_dot (w.isIdentChar ch hmem) (w.isAscii ch hmem) with hword | hdot
  · rw [hword] at hnot
    cases hnot
  · exact hdot

theorem Ident.run_eq {rest : List Char} (hend : EndsWord rest) : run isWordChar (w.val.toList ++ rest) =
      some (w.cut.val.toList, w.val.toList.dropWhile isWordChar ++ rest) := by
  have hsplit : w.val.toList ++ rest = w.cut.val.toList ++ (w.val.toList.dropWhile isWordChar ++ rest) := by
    rw [w.toList_cut, ← append_assoc, takeWhile_append_dropWhile]
  obtain ⟨ch, cs, hval, -⟩ := w.cut.exists_cons
  rw [hsplit]
  refine Migration.run_eq (by rw [hval]; nofun) ?_ ?_
  · intro c hc
    rw [w.toList_cut] at hc
    exact mem_takeWhile_imp hc
  · intro c hc
    cases hdrop : w.val.toList.dropWhile isWordChar with
    | nil =>
      rw [hdrop] at hc
      exact endsWord_isWordChar hend c hc
    | cons d ds =>
      rw [hdrop] at hc
      cases hc
      have hdot := w.head_dropWhile (by rw [hdrop]; rfl)
      rw [hdot]
      rfl

theorem Ident.dropWhile_of_isPlain {w : Ident} (h : w.isPlain = true) : w.val.toList.dropWhile isWordChar = [] :=
  dropWhile_eq_nil_iff.2 (all_eq_true.1 h)

end HelixRpc.Compiler

namespace HelixRpc.Compiler.Migration

open List
variable {line : List Char} {toks : List Token}

theorem line_ident {w : Ident} (h : Line (.ident w.val :: toks) line) :
    ∃ g rest, line = g ++ (w.val.toList ++ rest) ∧ Spaces g ∧ EndsWord rest ∧ Line toks rest := by
  obtain ⟨g, rest, htext, hg, hword, hrest⟩ := h.token rfl
  exact ⟨g, rest, htext, hg, hword rfl, hrest⟩

theorem line_punct {ch : Char} (h : Line (.punct ch :: toks) line) :
    ∃ g rest, line = g ++ ch :: rest ∧ Spaces g ∧ Line toks rest := by
  obtain ⟨g, rest, htext, hg, -, hrest⟩ := h.token rfl
  exact ⟨g, rest, htext, hg, hrest⟩

theorem head_ident (w : Ident) (rest : List Char) :
    ∀ ch, (w.val.toList ++ rest).head? = some ch → isIdentChar ch = true := by
  obtain ⟨c, cs, hval, hstart, -⟩ := w.exists_cons
  intro ch hch
  rw [hval] at hch
  cases hch
  exact isIdentChar_of_isIdentStart hstart

theorem dropBlanks_ident {g : List Char} (hg : Spaces g) (w : Ident) (rest : List Char) :
    (g ++ (w.val.toList ++ rest)).dropWhile isBlank = w.val.toList ++ rest :=
  dropBlanks hg fun ch hch => isBlank_of_isIdentChar (head_ident w rest ch hch)

theorem run_isBlank {g : List Char} (hg : Spaces g) (w : Ident) (rest : List Char)
    (hend : EndsWord (g ++ (w.val.toList ++ rest))) :
    run isBlank (g ++ (w.val.toList ++ rest)) = some (g, w.val.toList ++ rest) := by
  refine run_eq ?_ hg.isBlank ?_
  -- without a space the first word would go on with the second one
  · rintro rfl
    obtain ⟨ch, cs, hval, hstart, -⟩ := w.exists_cons
    have hch := hend ch (by rw [hval]; rfl)
    rw [isIdentChar_of_isIdentStart hstart] at hch
    cases hch
  · intro ch hch
    exact isBlank_of_isIdentChar (head_ident w rest ch hch)

def structWord : Ident := ⟨"struct", by decide⟩

theorem structStart_line {name : Ident} {line : List Char}
    (h : Line [.ident structWord.val, .ident name.val, .punct '{'] line) :
    structStart line = if name.isPlain then some name.val.toList else none := by
  obtain ⟨g, rest, rfl, hg, hend, h⟩ := line_ident h
  obtain ⟨g', rest', rfl, hg', hend', h⟩ := line_ident h
  obtain ⟨g'', rest'', rfl, hg'', -⟩ := line_punct h
  have hkeyword : keyword "struct" (structWord.val.toList ++ (g' ++ (name.val.toList ++
      (g'' ++ '{' :: rest'')))) = some (g' ++ (name.val.toList ++ (g'' ++ '{' :: rest''))) := rfl
  simp only [structStart, dropBlanks_ident hg, hkeyword, run_isBlank hg' name _ hend,
    name.run_eq hend', Option.bind_eq_bind, Option.bind_some]
  -- behind the captured word stands the rest of the name, which starts with a dot, or the brace
  by_cases hplain : name.isPlain = true
  · rw [if_pos hplain, name.dropWhile_of_isPlain hplain, nil_append, dropBlanks_cons hg'' rfl, name.cut_eq_iff.2 hplain]
    rfl
  · have hdot : (name.val.toList.dropWhile isWordChar).head? = some '.' := by
      cases hdrop : name.val.toList.dropWhile isWordChar with
      | nil => exact absurd (all_eq_true.2 (dropWhile_eq_nil_iff.1 hdrop)) hplain
      | cons ch cs =>
        have hch := name.head_dropWhile (by rw [hdrop]; rfl)
        rw [hch]
        rfl
    obtain ⟨cs, hcs⟩ := head?_eq_some_iff.1 hdot
    rw [if_neg hplain, hcs]
    rfl

/-! The first byte of a line decides which patterns can match. -/

section
variable {g : List Char} {ch : Char}

theorem structStart_eq_none (hg : Spaces g) (hblank : isBlank ch = false) (hch : ch.toLower ≠ 's')
    (rest : List Char) : structStart (g ++ ch :: rest) = none := by
  have hkeyword : keyword "struct" (ch :: rest) = none := by
    refine if_neg ?_
    intro h
    exact hch (cons.inj h).1
  rw [structStart, dropBlanks_cons hg hblank, hkeyword]
  rfl

theorem structEnd_eq (hg : Spaces g) (hblank : isBlank ch = false) (rest : List Char) :
    structEnd (g ++ ch :: rest) = decide (ch = '}') := by
  rw [structEnd, dropBlanks_cons hg hblank]
  exact decide_eq_decide.2 Option.some_inj

theorem fieldMatch_eq_none (hg : Spaces g) (hblank : isBlank ch = false) (hch : isDigit ch = false)
    (rest : List Char) : fieldMatch (g ++ ch :: rest) = none := by
  have hrun : run isDigit (ch :: rest) = none := by
    refine run_eq_none ?_
    intro c hc
    cases hc
    exact hch
  rw [fieldMatch, dropBlanks_cons hg hblank, hrun]
  rfl

theorem trimSpace_spaces (hg : Spaces g) (t : List Char) : trimSpace (g ++ t) = trimSpace t := by
  rw [trimSpace, dropWhile_append_of_pos hg.isTrimmed]
  rfl

theorem trimSpace_cons (hch : isTrimmed ch = false) (t : List Char) :
    trimSpace (ch :: t) = ch :: (t.reverse.dropWhile isTrimmed).reverse := by
  have hneg : ¬ isTrimmed ch = true := by rw [hch]; decide
  have hlast : (t.reverse ++ [ch]).dropWhile isTrimmed = t.reverse.dropWhile isTrimmed ++ [ch] := by
    rw [dropWhile_append]
    split
    · rename_i hempty
      rw [List.isEmpty_iff.1 hempty, dropWhile_cons_of_neg hneg]
      rfl
    · rfl
  rw [trimSpace, dropWhile_cons_of_neg hneg, reverse_cons, hlast, reverse_append]
  rfl

theorem isSkipped_eq_false (hg : Spaces g) (htrim : isTrimmed ch = false) (hhash : ch ≠ '#')
    (hslash : ch ≠ '/') (rest : List Char) : isSkipped (g ++ ch :: rest) = false := by
  rw [isSkipped, trimSpace_spaces hg, trimSpace_cons htrim]
  have hhash' : ('#' == ch) = false := beq_false_of_ne hhash.symm
  have hslash' : ('/' == ch) = false := beq_false_of_ne hslash.symm
  simp [isPrefixOf, hhash', hslash', reduceCtorEq]
end

theorem isSkipped_blank (h : Line [] line) : isSkipped line = true := by
  obtain ⟨g, rest, rfl, hg, hrest⟩ := h.blank
  rw [isSkipped, trimSpace_spaces hg]
  rcases hrest with rfl | ⟨comment, rfl⟩
  · rfl
  · have hslash : isTrimmed '/' = false := rfl
    have htail : trimSpace ('/' :: comment) = '/' :: (comment.reverse.dropWhile isTrimmed).reverse :=
      trimSpace_cons hslash comment
    rw [trimSpace_cons hslash]
    rw [trimSpace, dropWhile_cons_of_neg (by rw [hslash]; decide)] at htail
    rw [htail]
    rfl

theorem isIdentChar_digits (d : Digits) : ∀ ch ∈ d.val.toList, isIdentChar ch = true :=
  fun ch hch => isIdentChar_of_isDigit (all_eq_true.1 d.isDigits ch hch)

theorem fieldMatch_line {id : Number} (w₁ w₂ : Ident) (hplain : w₁.isPlain = true)
    (h : Line (.int id.val :: .punct ':' :: .ident w₁.val :: .ident w₂.val :: toks) line) : fieldMatch line =
    if id.negative then none else some ⟨id.digits.val.toList, w₁.val.toList, w₂.cut.val.toList⟩ := by
  obtain ⟨g, rest, rfl, hg, hend, h⟩ := h.token rfl
  by_cases hneg : id.negative = true
  · have hminus : (Token.int id.val).spelling = '-' :: id.digits.val.toList := by
      rw [Token.spelling, Number.val, if_pos hneg, String.toList_append]
      rfl
    rw [hminus, if_pos hneg]
    exact fieldMatch_eq_none hg rfl rfl _
  · have hdigits : (Token.int id.val).spelling = id.digits.val.toList := by rw [Token.spelling, Number.val, if_neg hneg]
    have hend' : ∀ ch, rest.head? = some ch → isDigit ch = false := by
      intro ch hch
      rw [Bool.eq_false_iff]
      intro hdigit
      have hident := hend rfl ch hch
      rw [isIdentChar_of_isDigit hdigit] at hident
      cases hident
    have hrun : run isDigit (id.digits.val.toList ++ rest) = some (id.digits.val.toList, rest) :=
      run_eq id.digits.nonempty (all_eq_true.1 id.digits.isDigits) hend'
    have hdrop : (g ++ (id.digits.val.toList ++ rest)).dropWhile isBlank = id.digits.val.toList ++ rest := by
      refine dropBlanks hg ?_
      intro ch hch
      cases hval : id.digits.val.toList with
      | nil => exact absurd hval id.digits.nonempty
      | cons c cs =>
        rw [hval] at hch
        obtain rfl := Option.some.inj hch
        exact isBlank_of_isIdentChar (isIdentChar_digits id.digits c (by rw [hval]; exact mem_cons_self))
    obtain ⟨g', rest', rfl, hg', h⟩ := line_punct h
    obtain ⟨g₁, rest₁, rfl, hg₁, hend₁, h⟩ := line_ident h
    obtain ⟨g₂, rest₂, rfl, hg₂, hend₂, -⟩ := line_ident h
    rw [hdigits, if_neg hneg]
    simp only [fieldMatch, hdrop, hrun, dropBlanks_cons hg' (show isBlank ':' = false from rfl), literal, head?_cons,
      if_true, tail_cons, dropBlanks_ident hg₁, w₁.run_eq hend₁, w₁.dropWhile_of_isPlain hplain, nil_append,
      run_isBlank hg₂ w₂ _ hend₁, w₂.run_eq hend₂, Option.bind_eq_bind, Option.bind_some, w₁.cut_eq_iff.2 hplain]
    rfl

end HelixRpc.Compiler.Migration
