import HelixRpc.Compiler.Lexer

/-!
# Printed texts

How texts that spell given tokens are built.
-/

namespace HelixRpc.Compiler

open List Bool
variable {text g : List Char} {toks : List Token} {items : List (List Token)} {lines : List (List Char)} {ch : Char}
  {s : String}

theorem Gap.append {g' : List Char} (hg : Gap g) (hg' : Gap g') : Gap (g ++ g') := by
  induction hg with
  | nil => exact hg'
  | space hch _ ih => exact .space hch ih
  | comment htext _ ih =>
    have h := Gap.comment htext ih
    simpa only [cons_append, append_assoc] using h

theorem Printed.gap (hg : Gap g) (h : Printed toks text) : Printed toks (g ++ text) := by
  cases h with
  | done hlast =>
    cases hlast with
    | gap hg' => exact .done (.gap (hg.append hg'))
    | comment hg' htext =>
      rw [← append_assoc]
      exact .done (.comment (hg.append hg') htext)
  | token hg' hspell hword hrest =>
    rw [← append_assoc]
    exact .token (hg.append hg') hspell hword hrest

theorem EndsWord.append (h : EndsWord text) (rest : List Char) : EndsWord (text ++ '\n' :: rest) := by
  intro ch hch
  cases text with
  | nil =>
    cases hch
    rfl
  | cons c text => exact h ch hch

variable {toks' : List Token} {text' t : List Char} {tok : Token} {fuel : Nat}

theorem Printed.append_line (h : Printed toks text) (h' : Printed toks' text') : Printed (toks ++ toks')
    (text ++ '\n' :: text') := by
  have hnewline : Gap ['\n'] := .space rfl .nil
  induction h with
  | done hlast =>
    -- the newline ends the last comment of the first text
    cases hlast with
    | gap hg =>
      have hline := h'.gap (hg.append hnewline)
      rwa [append_assoc] at hline
    | @comment g text hg htext =>
      have hline := h'.gap (hg.append (.comment htext .nil))
      simpa only [append_assoc, cons_append, nil_append] using hline
  | token hg hspell hword _ ih =>
    rw [append_assoc, append_assoc, cons_append]
    exact .token hg hspell (fun h => (hword h).append _) ih

structure Line (toks : List Token) (text : List Char) : Prop where
  printed : Printed toks text
  oneLine : ∀ ch ∈ text, ch ≠ '\n'

theorem Gap.isSpace (hg : Gap g) (h : ∀ ch ∈ g, ch ≠ '\n') : ∀ ch ∈ g, isSpace ch = true := by
  induction hg with
  | nil => nofun
  | space hch _ ih =>
    obtain ⟨-, h⟩ := forall_mem_cons.1 h
    exact forall_mem_cons.2 ⟨hch, ih h⟩
  | comment _ _ _ =>
    refine absurd rfl (h '\n' ?_)
    exact mem_cons_of_mem _ (mem_cons_of_mem _ (mem_append_right _ mem_cons_self))

def Token.spelling : Token → List Char
  | .ident val | .int val => val.toList
  | .str val => doubleQuote :: (val.toList ++ [doubleQuote])
  | .punct ch => [ch]

def Token.isStr : Token → Bool
  | .str _ => true
  | _ => false

theorem Spells.eq_spelling {spelling : List Char} (h : Spells tok spelling)
    (hstr : tok.isStr = false) : spelling = tok.spelling := by
  cases h with
  | ident _ _ => exact String.toList_ofList.symm
  | int _ _ => exact String.toList_ofList.symm
  | str _ _ => cases hstr
  | punct _ => rfl

theorem Line.token (h : Line (tok :: toks) text) (hstr : tok.isStr = false) :
    ∃ g rest, text = g ++ (tok.spelling ++ rest) ∧ (∀ ch ∈ g, isSpace ch = true ∧ ch ≠ '\n') ∧
      (tok.isWord = true → EndsWord rest) ∧ Line toks rest := by
  obtain ⟨hprinted, hline⟩ := h
  cases hprinted with
  | @token g spelling rest _ _ hg hspell hword hrest =>
    obtain ⟨hline_g, hline_rest⟩ := forall_mem_append.1 hline
    obtain ⟨-, hline_rest⟩ := forall_mem_append.1 hline_rest
    refine ⟨g, rest, ?_, ?_, hword, hrest, hline_rest⟩
    · rw [hspell.eq_spelling hstr]
    · intro ch hch
      exact ⟨hg.isSpace hline_g ch hch, hline_g ch hch⟩

theorem Line.blank (h : Line [] text) : ∃ g rest, text = g ++ rest ∧ (∀ ch ∈ g, isSpace ch = true ∧ ch ≠ '\n') ∧
      (rest = [] ∨ ∃ comment, rest = '/' :: '/' :: comment) := by
  obtain ⟨hprinted, hline⟩ := h
  cases hprinted with
  | done hlast =>
    cases hlast with
    | gap hg =>
      exact ⟨text, [], (append_nil text).symm, fun ch hch => ⟨hg.isSpace hline ch hch, hline ch hch⟩, .inl rfl⟩
    | @comment g comment hg _ =>
      obtain ⟨hline_g, -⟩ := forall_mem_append.1 hline
      exact ⟨g, _, rfl, fun ch hch => ⟨hg.isSpace hline_g ch hch, hline_g ch hch⟩, .inr ⟨comment, rfl⟩⟩

inductive Lines : List (List Token) → List (List Char) → Prop where
  | done : Lines [] []
  | blank {items : List (List Token)} {line : List Char} {lines : List (List Char)}
      (hline : Line [] line) (hlines : Lines items lines) : Lines items (line :: lines)
  | item {toks : List Token} {items : List (List Token)} {line : List Char}
      {lines : List (List Char)} (hline : Line toks line) (hlines : Lines items lines) :
      Lines (toks :: items) (line :: lines)

theorem Lines.items_eq_nil (h : Lines items []) : items = [] := by
  cases h
  rfl

theorem Printed.line_intercalate {line : List Char} (h : Printed toks line) (hlines : Lines items lines)
    (hprinted : Printed items.flatten (['\n'].intercalate lines)) :
    Printed (toks ++ items.flatten) (['\n'].intercalate (line :: lines)) := by
  cases lines with
  | nil =>
    rw [hlines.items_eq_nil, flatten_nil, append_nil, intercalate_singleton]
    exact h
  | cons line' lines =>
    rw [intercalate_cons_cons, append_assoc]
    exact h.append_line hprinted

theorem Lines.printed (h : Lines items lines) : Printed items.flatten (['\n'].intercalate lines) := by
  induction h with
  | done => exact .done (.gap .nil)
  | blank hline hlines ih => exact hline.printed.line_intercalate hlines ih
  | item hline hlines ih => exact hline.printed.line_intercalate hlines ih

theorem Lines.oneLine (h : Lines items lines) : ∀ line ∈ lines, '\n' ∉ line := by
  induction h with
  | done => nofun
  | blank hline _ ih => exact forall_mem_cons.2 ⟨fun hmem => hline.oneLine _ hmem rfl, ih⟩
  | item hline _ ih => exact forall_mem_cons.2 ⟨fun hmem => hline.oneLine _ hmem rfl, ih⟩

/-! A text is printed from its own tokens if its strings are closed, no number runs into a word and no
single slash stands in it. This is computed, which shows for a given text that it is printed. -/

theorem gap_spaces (h : ∀ ch ∈ g, isSpace ch = true) : Gap g := by
  induction g with
  | nil => exact .nil
  | cons ch g ih =>
    obtain ⟨hch, hg⟩ := forall_mem_cons.1 h
    exact .space hch (ih hg)

def isClosed : Nat → List Char → Bool
  | 0, _ => false
  | fuel + 1, input =>
    match input.dropWhile isSpace with
    | [] => true
    | ch :: rest =>
      if isIdentStart ch then isClosed fuel (rest.dropWhile isIdentChar)
      else if isDigit ch || ch = '-' then
        ((rest.dropWhile isDigit).head?.all fun c => !isIdentChar c) &&
          isClosed fuel (rest.dropWhile isDigit)
      else if ch = doubleQuote || ch = singleQuote then
        rest.dropWhile (· ≠ ch) ≠ [] && isClosed fuel (rest.dropWhile (· ≠ ch)).tail
      else if ch = '/' then
        rest.head? = some '/' && isClosed fuel (rest.tail.dropWhile (· ≠ '\n')).tail
      else isClosed fuel rest

theorem all_takeWhile (p : Char → Bool) (t : List Char) : ∀ c ∈ t.takeWhile p, p c = true :=
  fun _ hc => mem_takeWhile_imp hc

theorem ne_of_mem_takeWhile (ch : Char) (t : List Char) : ∀ c ∈ t.takeWhile (· ≠ ch), c ≠ ch := by
  intro c hc
  exact of_decide_eq_true (all_takeWhile (fun x => decide (x ≠ ch)) t c hc)

theorem head_dropWhile {p : Char → Bool} (h : (t.dropWhile p).head? = some ch) : p ch = false := by
  have hnot := head?_dropWhile_not p t
  rw [h] at hnot
  exact hnot

theorem takeWhile_append_tail (h : t.dropWhile (· ≠ ch) ≠ []) :
    t = t.takeWhile (· ≠ ch) ++ ch :: (t.dropWhile (· ≠ ch)).tail := by
  have hhead : t.dropWhile (· ≠ ch) = ch :: (t.dropWhile (· ≠ ch)).tail := by
    cases hdrop : t.dropWhile (· ≠ ch) with
    | nil => exact absurd hdrop h
    | cons c rest =>
      have hc : decide (c ≠ ch) = false := head_dropWhile (by rw [hdrop]; rfl)
      obtain rfl := not_not.1 (of_decide_eq_false hc)
      rfl
  rw [← hhead, takeWhile_append_dropWhile]

theorem printed_comment (h : Printed (tokens (text.dropWhile (· ≠ '\n')).tail) (text.dropWhile (· ≠ '\n')).tail) :
    Printed (tokens ('/' :: '/' :: text)) ('/' :: '/' :: text) := by
  by_cases hnewline : text.dropWhile (· ≠ '\n') = []
  · have htext : ∀ c ∈ text, c ≠ '\n' :=
      fun c hc => of_decide_eq_true (dropWhile_eq_nil_iff.1 hnewline c hc)
    have hprinted : Printed [] ('/' :: '/' :: text) := .done (.comment .nil htext)
    rw [tokens_of_printed hprinted]
    exact hprinted
  · have hprinted := h.gap (.comment (ne_of_mem_takeWhile '\n' text) .nil)
    rw [cons_append, cons_append, append_assoc, singleton_append, ← takeWhile_append_tail hnewline] at hprinted
    rw [tokens_of_printed hprinted]
    exact hprinted

theorem printed_scan {rest : List Char} (ih : ∀ input, isClosed fuel input = true → Printed (tokens input) input)
    (h : isClosed (fuel + 1) (ch :: rest) = true) (hspace : isSpace ch = false) :
    Printed (tokens (ch :: rest)) (ch :: rest) := by
  have hdrop : (ch :: rest).dropWhile isSpace = ch :: rest := dropWhile_cons_of_neg (by rw [hspace]; decide)
  -- a token in front of what is printed
  have htoken : ∀ tok cs rest', Spells tok cs → (tok.isWord = true → EndsWord rest') → ch :: rest = cs ++ rest' →
    isClosed fuel rest' = true → Printed (tokens (ch :: rest)) (ch :: rest) := by
    intro tok cs rest' hspell hword htext hclosed
    rw [htext, tokens_spells hspell hword]
    exact .token .nil hspell hword (ih rest' hclosed)
  rw [isClosed, hdrop] at h
  dsimp only at h
  split at h
  -- a word: what follows the run of its bytes is no such byte
  · rename_i hident
    refine htoken _ _ _ (.ident hident (all_takeWhile isIdentChar rest)) ?_ ?_ h
    · exact fun _ c hc => head_dropWhile hc
    · rw [cons_append, takeWhile_append_dropWhile]
  split at h
  -- a number: here the check rules out a word that follows directly
  · rename_i hident hint
    obtain ⟨hend, hclosed⟩ := and_eq_true_iff.1 h
    refine htoken _ _ _ (.int hint (all_takeWhile isDigit rest)) ?_ ?_ hclosed
    · intro _ c hc
      rw [hc, Option.all_some] at hend
      simpa using hend
    · rw [cons_append, takeWhile_append_dropWhile]
  split at h
  -- a string, up to the quote that the check has found
  · rename_i hident hint hquote
    obtain ⟨hend, hclosed⟩ := and_eq_true_iff.1 h
    have hquote' : ch = doubleQuote ∨ ch = singleQuote := by simpa using hquote
    refine htoken _ _ _ (.str hquote' (ne_of_mem_takeWhile ch rest)) nofun ?_ hclosed
    rw [cons_append, append_assoc, singleton_append, ← takeWhile_append_tail (of_decide_eq_true hend)]
  split at h
  -- a comment, which is part of the gap in front of what follows
  · rename_i hident hint hquote hslash
    obtain ⟨hend, hclosed⟩ := and_eq_true_iff.1 h
    obtain ⟨text, rfl⟩ := head?_eq_some_iff.1 (of_decide_eq_true hend)
    subst hslash
    exact printed_comment (ih _ hclosed)
  -- any other byte is a token of its own
  · rename_i hident hint hquote hslash
    refine htoken (.punct ch) [ch] rest (.punct ?_) nofun rfl h
    simp only [not_eq_true] at hident hint hquote
    rw [or_eq_false_iff] at hint hquote
    rw [isPunct, hspace, hident, hint.1, hint.2, hquote.1, hquote.2, decide_eq_false hslash]
    rfl

theorem printed_of_isClosed {input : List Char} (h : isClosed fuel input = true) : Printed (tokens input) input := by
  induction fuel generalizing input with
  | zero => cases h
  | succ fuel ih =>
    have hgap : Gap (input.takeWhile isSpace) := gap_spaces (all_takeWhile isSpace input)
    have hinput := takeWhile_append_dropWhile (p := isSpace) (l := input)
    cases hdrop : input.dropWhile isSpace with
    | nil =>
      rw [hdrop, append_nil] at hinput
      rw [← hinput, tokens_of_printed (.done (.gap hgap))]
      exact .done (.gap hgap)
    | cons ch rest =>
      rw [hdrop] at hinput
      have hspace : isSpace ch = false := head_dropWhile (by rw [hdrop]; rfl)
      have hhead : (ch :: rest).dropWhile isSpace = ch :: rest := dropWhile_cons_of_neg (by rw [hspace]; decide)
      have hclosed : isClosed (fuel + 1) (ch :: rest) = true := by
        rw [isClosed, hhead, ← hdrop]
        exact h
      rw [← hinput, tokens_gap hgap]
      exact (printed_scan (fun _ => ih) hclosed hspace).gap hgap

theorem printed_literal (hs : s = String.ofList text) (hclosed : isClosed (text.length + 1) text = true)
    (htoks : tokens text = toks) : Printed toks s.toList := by
  rw [hs, String.toList_ofList, ← htoks]
  exact printed_of_isClosed hclosed

theorem line_literal (hs : s = String.ofList text) (hclosed : isClosed (text.length + 1) text = true)
    (htoks : tokens text = toks) (hline : '\n' ∉ text) : Line toks s.toList := by
  refine ⟨printed_literal hs hclosed htoks, ?_⟩
  rw [hs, String.toList_ofList]
  rintro ch hch rfl
  exact hline hch

theorem printed_literal_append (hs : s = String.ofList text) (hlast : text.getLast? = some '\n')
    (hclosed : isClosed text.length text.dropLast = true) (htoks : tokens text.dropLast = toks) (h : Printed toks' text') : Printed (toks ++ toks') (s.toList ++ text') := by
  obtain ⟨start, rfl⟩ := getLast?_eq_some_iff.1 hlast
  rw [dropLast_concat] at hclosed htoks
  rw [hs, String.toList_ofList, append_assoc, ← htoks]
  exact (printed_of_isClosed hclosed).append_line h

end HelixRpc.Compiler
