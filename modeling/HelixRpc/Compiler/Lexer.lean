import Mathlib.Data.List.TakeWhile

/-!
# The lexer of the two parsers

Model of `lexer.nextToken` and `lexer.skipWhitespace` of `compiler/parser/proto_parser.go`, which both parsers use.
-/

namespace HelixRpc.Compiler

open List

def doubleQuote : Char := Char.ofNat 34

def singleQuote : Char := Char.ofNat 39

variable (ch : Char)

def isLetter : Bool :=
  let n := ch.toNat
  (65 ≤ n && n ≤ 90) || (97 ≤ n && n ≤ 122) || n = 0xaa || n = 0xb5 || n = 0xba ||
    (0xc0 ≤ n && n ≤ 0xff && n ≠ 0xd7 && n ≠ 0xf7)

def isDigit : Bool := 48 ≤ ch.toNat && ch.toNat ≤ 57

def isIdentStart : Bool := isLetter ch || ch = '_'

def isIdentChar : Bool := isLetter ch || isDigit ch || ch = '_' || ch = '.'

def isSpace : Bool := ch = ' ' || ch = '\t' || ch = '\n' || ch = '\r'

inductive Token where
  | ident (val : String)
  | int (val : String)
  | str (val : String)
  | punct (ch : Char)
  deriving DecidableEq, Repr

def Token.val : Token → String
  | .ident val | .int val | .str val => val
  | .punct ch => ch.toString

def tokVal : List Token → String
  | [] => ""
  | tok :: _ => tok.val

variable (rest : List Char)

/-- The token that starts with a byte other than whitespace, and the text behind it. -/
def scan : Option Token × List Char :=
  if isIdentStart ch then
    (some (.ident (String.ofList (ch :: rest.takeWhile isIdentChar))), rest.dropWhile isIdentChar)
  else if isDigit ch || ch = '-' then
    (some (.int (String.ofList (ch :: rest.takeWhile isDigit))), rest.dropWhile isDigit)
  else if ch = doubleQuote || ch = singleQuote then
    -- without a closing quote the string ends with the text
    (some (.str (String.ofList (rest.takeWhile (· ≠ ch)))), (rest.dropWhile (· ≠ ch)).tail)
  else if ch = '/' && rest.head? = some '/' then
    (none, rest.tail.dropWhile (· ≠ '\n'))
  else (some (.punct ch), rest)

def lex : Nat → List Char → List Token
  | 0, _ => []
  | fuel + 1, input =>
    match input.dropWhile isSpace with
    | [] => []
    | ch :: rest =>
      match scan ch rest with
      | (some tok, rest) => tok :: lex fuel rest
      | (none, rest) => lex fuel rest

def tokens (input : List Char) : List Token := lex (input.length + 1) input

theorem length_scan : (scan ch rest).2.length ≤ rest.length := by
  unfold scan
  split
  · exact length_dropWhile_le _ _
  · split
    · exact length_dropWhile_le _ _
    · split
      · rw [length_tail]
        exact Nat.le_trans (Nat.sub_le _ _) (length_dropWhile_le _ _)
      · split
        · refine Nat.le_trans (length_dropWhile_le _ _) ?_
          rw [length_tail]
          exact Nat.sub_le _ _
        · exact Nat.le_refl _

theorem lex_fuel {fuel : Nat} {input : List Char} (h : input.length < fuel) : lex fuel input = tokens input := by
  -- both sides make the same call, and go on with less text
  have key : ∀ n m (input : List Char), input.length < n → input.length < m → lex n input = lex m input := by
    intro n
    induction n with
    | zero => intro m input hn; omega
    | succ n ih =>
      intro m input hn hm
      obtain ⟨m, rfl⟩ : ∃ k, m = k + 1 := ⟨m - 1, by omega⟩
      have hdrop := length_dropWhile_le isSpace input
      simp only [lex]
      cases hspace : input.dropWhile isSpace with
      | nil => rfl
      | cons ch rest =>
        rw [hspace, length_cons] at hdrop
        have hscan := length_scan ch rest
        obtain ⟨tok, rest', hscanned⟩ : ∃ tok rest', scan ch rest = (tok, rest') := ⟨_, _, rfl⟩
        rw [hscanned] at hscan
        have hrest := ih m rest' (by simp only at hscan; omega) (by simp only at hscan; omega)
        cases tok <;> simp only [hscanned, hrest]
  exact key _ _ _ h (Nat.lt_succ_self _)

theorem tokens_eq (input : List Char) : tokens input = match input.dropWhile isSpace with
      | [] => []
      | ch :: rest =>
        match scan ch rest with
        | (some tok, rest) => tok :: tokens rest
        | (none, rest) => tokens rest := by
  have hdrop := length_dropWhile_le isSpace input
  show lex (input.length + 1) input = _
  rw [lex]
  cases hspace : input.dropWhile isSpace with
  | nil => rfl
  | cons ch rest =>
    rw [hspace, length_cons] at hdrop
    have hscan := length_scan ch rest
    obtain ⟨tok, rest', hscanned⟩ : ∃ tok rest', scan ch rest = (tok, rest') := ⟨_, _, rfl⟩
    rw [hscanned] at hscan
    have hrest : lex input.length rest' = tokens rest' := lex_fuel (by simp only at hscan; omega)
    cases tok <;> simp only [hscanned, hrest]

inductive Gap : List Char → Prop where
  | nil : Gap []
  | space {ch : Char} {g : List Char} (hch : isSpace ch = true) (hg : Gap g) : Gap (ch :: g)
  | comment {text g : List Char} (htext : ∀ ch ∈ text, ch ≠ '\n') (hg : Gap g) : Gap ('/' :: '/' :: (text ++ '\n' :: g))

inductive LastGap : List Char → Prop where
  | gap {g : List Char} (hg : Gap g) : LastGap g
  | comment {g text : List Char} (hg : Gap g) (htext : ∀ ch ∈ text, ch ≠ '\n') : LastGap (g ++ '/' :: '/' :: text)

def isPunct : Bool :=
  !(isSpace ch || isIdentStart ch || isDigit ch || ch = '-' || ch = doubleQuote || ch = singleQuote || ch = '/')

inductive Spells : Token → List Char → Prop where
  | ident {ch : Char} {cs : List Char} (hch : isIdentStart ch = true)
      (hcs : ∀ c ∈ cs, isIdentChar c = true) : Spells (.ident (String.ofList (ch :: cs))) (ch :: cs)
  | int {ch : Char} {cs : List Char} (hch : (isDigit ch || ch = '-') = true)
      (hcs : ∀ c ∈ cs, isDigit c = true) : Spells (.int (String.ofList (ch :: cs))) (ch :: cs)
  | str {quote : Char} {cs : List Char} (hquote : quote = doubleQuote ∨ quote = singleQuote)
      (hcs : ∀ c ∈ cs, c ≠ quote) : Spells (.str (String.ofList cs)) (quote :: (cs ++ [quote]))
  | punct {ch : Char} (hch : isPunct ch = true) : Spells (.punct ch) [ch]

def Token.isWord : Token → Bool
  | .ident _ | .int _ => true
  | _ => false

def EndsWord : Prop := ∀ ch, rest.head? = some ch → isIdentChar ch = false

inductive Printed : List Token → List Char → Prop where
  | done {g : List Char} (hg : LastGap g) : Printed [] g
  | token {g spelling rest : List Char} {tok : Token} {toks : List Token} (hg : Gap g)
      (hspell : Spells tok spelling) (hword : tok.isWord = true → EndsWord rest)
      (hrest : Printed toks rest) : Printed (tok :: toks) (g ++ (spelling ++ rest))

variable {ch : Char} {rest : List Char} {p : Char → Bool}

theorem tokens_space (h : isSpace ch = true) (rest : List Char) : tokens (ch :: rest) = tokens rest := by
  rw [tokens_eq, tokens_eq rest, dropWhile_cons_of_pos h]

variable {tok : Token} {text g : List Char}

theorem tokens_scan {rest' : List Char} (hspace : isSpace ch = false)
    (hscan : scan ch rest = (some tok, rest')) : tokens (ch :: rest) = tok :: tokens rest' := by
  rw [tokens_eq, dropWhile_cons_of_neg (by rw [hspace]; decide)]
  simp only [hscan]

theorem tokens_comment (htext : ∀ ch ∈ text, ch ≠ '\n') (rest : List Char) (hrest : rest = [] ∨ ∃ rest',
    rest = '\n' :: rest') : tokens ('/' :: '/' :: (text ++ rest)) = tokens rest := by
  have hdrop : (text ++ rest).dropWhile (fun ch => decide (ch ≠ '\n')) = rest := by
    rw [dropWhile_append_of_pos (fun ch hch => decide_eq_true (htext ch hch))]
    rcases hrest with rfl | ⟨rest', rfl⟩
    · rfl
    · exact dropWhile_cons_of_neg (by decide)
  have hscan : scan '/' ('/' :: (text ++ rest)) = (none, rest) := by
    unfold scan
    rw [if_neg (by decide), if_neg (by decide), if_neg (by decide), if_pos (by simp)]
    exact congrArg (Prod.mk none) hdrop
  rw [tokens_eq, dropWhile_cons_of_neg (by decide)]
  simp only [hscan]

theorem tokens_gap (hg : Gap g) (rest : List Char) : tokens (g ++ rest) = tokens rest := by
  induction hg with
  | nil => rfl
  | space hch _ ih => rw [cons_append, tokens_space hch, ih]
  | comment htext _ ih =>
    rw [cons_append, cons_append, append_assoc, cons_append,
      tokens_comment htext _ (.inr ⟨_, rfl⟩), tokens_space (by decide), ih]

theorem tokens_lastGap (hg : LastGap g) : tokens g = [] := by
  cases hg with
  | gap hg =>
    have h := tokens_gap hg []
    rw [append_nil] at h
    exact h
  | @comment g text hg htext =>
    have h := tokens_comment htext [] (.inl rfl)
    rw [append_nil] at h
    rw [tokens_gap hg, h]
    rfl

theorem takeWhile_eq_nil (h : ∀ ch, rest.head? = some ch → p ch = false) :
    rest.takeWhile p = [] ∧ rest.dropWhile p = rest := by
  cases rest with
  | nil => exact ⟨rfl, rfl⟩
  | cons ch rest =>
    have hch : ¬ p ch = true := by rw [h ch rfl]; decide
    exact ⟨takeWhile_cons_of_neg hch, dropWhile_cons_of_neg hch⟩

theorem takeWhile_word {cs : List Char} (hcs : ∀ c ∈ cs, p c = true) (h : ∀ ch, rest.head? = some ch → p ch = false) :
    (cs ++ rest).takeWhile p = cs ∧ (cs ++ rest).dropWhile p = rest := by
  obtain ⟨htake, hdrop⟩ := takeWhile_eq_nil h
  rw [takeWhile_append_of_pos hcs, dropWhile_append_of_pos hcs, htake, hdrop, append_nil]
  exact ⟨rfl, rfl⟩

theorem isSpace_cases (h : isSpace ch = true) : ch = ' ' ∨ ch = '\t' ∨ ch = '\n' ∨ ch = '\r' := by
  simpa [isSpace, or_assoc] using h

theorem isSpace_eq_false (hch : p ch = true)
    (hspaces : p ' ' = false ∧ p '\t' = false ∧ p '\n' = false ∧ p '\r' = false) : isSpace ch = false := by
  rw [Bool.eq_false_iff]
  intro hspace
  rcases isSpace_cases hspace with rfl | rfl | rfl | rfl
  · rw [hspaces.1] at hch
    cases hch
  · rw [hspaces.2.1] at hch
    cases hch
  · rw [hspaces.2.2.1] at hch
    cases hch
  · rw [hspaces.2.2.2] at hch
    cases hch

theorem isIdentStart_of_isDigit (h : isDigit ch = true) : isIdentStart ch = false := by
  have hbounds : 48 ≤ ch.toNat ∧ ch.toNat ≤ 57 := by simpa [isDigit] using h
  have hne : ch ≠ '_' := by
    rintro rfl
    exact absurd hbounds (by decide)
  have hletter : isLetter ch = false := by
    simp only [isLetter, Bool.or_eq_false_iff, Bool.and_eq_false_iff, decide_eq_false_iff_not]
    omega
  rw [isIdentStart, hletter, decide_eq_false hne]
  rfl

theorem isIdentChar_of_isDigit (h : isDigit ch = true) : isIdentChar ch = true := by
  simp [isIdentChar, h]

theorem tokens_spells {spelling : List Char} (h : Spells tok spelling)
    (hword : tok.isWord = true → EndsWord rest) : tokens (spelling ++ rest) = tok :: tokens rest := by
  cases h with
  | @ident ch cs hch hcs =>
    obtain ⟨htake, hdrop⟩ := takeWhile_word hcs (hword rfl)
    rw [cons_append]
    refine tokens_scan (isSpace_eq_false hch (by decide)) ?_
    rw [scan, if_pos hch, htake, hdrop]
  | @int ch cs hch hcs =>
    have hend : ∀ c, rest.head? = some c → isDigit c = false := by
      intro c hc
      rw [Bool.eq_false_iff]
      intro hdigit
      have hident := hword rfl c hc
      rw [isIdentChar_of_isDigit hdigit] at hident
      cases hident
    obtain ⟨htake, hdrop⟩ := takeWhile_word hcs hend
    have hspace : isSpace ch = false := isSpace_eq_false (p := fun c => isDigit c || c = '-') hch (by decide)
    have hident : isIdentStart ch = false := by
      rcases Bool.or_eq_true_iff.1 hch with hdigit | hminus
      · exact isIdentStart_of_isDigit hdigit
      · obtain rfl := of_decide_eq_true hminus
        rfl
    rw [cons_append]
    refine tokens_scan hspace ?_
    rw [scan, hident, if_neg (by decide), if_pos hch, htake, hdrop]
  | @str quote cs hquote hcs =>
    have hclass : isSpace quote = false ∧ isIdentStart quote = false ∧ (isDigit quote || quote = '-') = false ∧
        (quote = doubleQuote || quote = singleQuote) = true := by
      rcases hquote with rfl | rfl
      all_goals decide
    obtain ⟨hspace, hident, hint, hq⟩ := hclass
    have hend : ∀ c, (quote :: rest).head? = some c → decide (c ≠ quote) = false := by
      intro c hc
      cases hc
      exact decide_eq_false (fun hne => hne rfl)
    obtain ⟨htake, hdrop⟩ := takeWhile_word (p := fun c => decide (c ≠ quote))
      (fun c hc => decide_eq_true (hcs c hc)) hend
    rw [cons_append, append_assoc, singleton_append]
    refine tokens_scan hspace ?_
    rw [scan, hident, if_neg (by decide), hint, if_neg (by decide), hq, if_pos rfl, htake, hdrop]
    rfl
  | @punct ch hch =>
    simp only [isPunct, Bool.not_eq_true', Bool.or_eq_false_iff] at hch
    obtain ⟨⟨⟨⟨⟨⟨hspace, hident⟩, hdigit⟩, hminus⟩, hdouble⟩, hsingle⟩, hslash⟩ := hch
    rw [singleton_append]
    refine tokens_scan hspace ?_
    simp [scan, hident, hdigit, hminus, hdouble, hsingle, hslash]

theorem tokens_of_printed {toks : List Token} (h : Printed toks text) : tokens text = toks := by
  induction h with
  | done hg => exact tokens_lastGap hg
  | token hg hspell hword _ ih => rw [tokens_gap hg, tokens_spells hspell hword, ih]

end HelixRpc.Compiler
