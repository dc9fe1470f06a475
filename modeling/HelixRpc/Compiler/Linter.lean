import HelixRpc.Compiler.Lexer
import HelixRpc.Compiler.Ast
import Mathlib.Data.List.Nodup

/-!
# The linter and the Go names of fields

Model of `Lint` (`compiler/linter/linter.go`).
-/

namespace HelixRpc.Compiler.Linter

open Foundation List

def lowerLetters : List Char := "abcdefghijklmnopqrstuvwxyz".toList

def upperLetters : List Char := "ABCDEFGHIJKLMNOPQRSTUVWXYZ".toList

def digitChars : List Char := "0123456789".toList

def isPascalCase : List Char → Bool
  | [] => false
  | ch :: chs => upperLetters.contains ch &&
    chs.all fun c => lowerLetters.contains c || upperLetters.contains c || digitChars.contains c

def isSnakeCase : List Char → Bool
  | [] => false
  | ch :: chs => lowerLetters.contains ch && chs.all fun c => lowerLetters.contains c || digitChars.contains c || c = '_'

inductive Violation where
  | enumName (enum : String)
  | enumValue (key enum : String)
  | structName (s : String)
  | fieldName (f s : String)
  | fieldID (f s : String) (id : Int)
  | serviceName (srv : String)
  | serviceSuffix (srv : String)
  | methodName (m srv : String)
  deriving DecidableEq

def lintEnum (enum : EnumNode) : List Violation :=
  (if isPascalCase enum.name.toList then [] else [.enumName enum.name]) ++ enum.values.flatMap fun (key, _) =>
      if isPascalCase key.toList || isSnakeCase key.toList then [] else [.enumValue key enum.name]

def lintField (s : StructNode) (f : FieldNode) : List Violation :=
  (if isSnakeCase f.name.toList then [] else [.fieldName f.name s.name]) ++
    if f.id.toInt ≤ 0 then [.fieldID f.name s.name f.id.toInt] else []

def lintStruct (s : StructNode) : List Violation :=
  (if isPascalCase s.name.toList then [] else [.structName s.name]) ++ s.fields.flatMap (lintField s)

def lintService (srv : ServiceNode) : List Violation :=
  (if isPascalCase srv.name.toList then [] else [.serviceName srv.name]) ++
    ((if "Service".toList.isSuffixOf srv.name.toList then [] else [.serviceSuffix srv.name]) ++
      srv.methods.flatMap fun m => if isPascalCase m.name.toList then [] else [.methodName m.name srv.name])

def lint (tree : AST) : List Violation :=
  tree.enums.flatMap lintEnum ++ (tree.structs.flatMap lintStruct ++ tree.services.flatMap lintService)

theorem isSnakeCase_of_lint {tree : AST} (h : lint tree = []) {s : StructNode} (hs : s ∈ tree.structs)
    {f : FieldNode} (hf : f ∈ s.fields) : isSnakeCase f.name.toList = true := by
  obtain ⟨-, h⟩ := append_eq_nil_iff.1 h
  have hstruct := flatMap_eq_nil_iff.1 (append_eq_nil_iff.1 h).1 s hs
  have hfield := flatMap_eq_nil_iff.1 (append_eq_nil_iff.1 hstruct).2 f hf
  obtain ⟨hname, -⟩ := append_eq_nil_iff.1 hfield
  cases hsnake : isSnakeCase f.name.toList with
  | true => rfl
  | false =>
    rw [hsnake] at hname
    cases hname

def capitalize : List Char → List Char
  | [] => []
  | ch :: chs => ch.toUpper :: chs

def camelPart (part : List Char) : List Char := if part = ['i', 'd'] then ['I', 'D'] else capitalize part

def camelParts (parts : List (List Char)) : List Char := parts.flatMap camelPart

def toCamelCase (s : List Char) : List Char := camelParts (s.splitOn '_')

def startsLower (part : List Char) : Bool := part.head?.any lowerLetters.contains

/-- The words that a Go identifier shows: a part of the name that is empty or starts with a digit belongs
to the word before it, and `id` is two words. -/
def words (word : List Char) : List (List Char) → List (List Char)
  | [] => [word]
  | part :: parts =>
    if part = ['i', 'd'] then word :: ['i'] :: words ['d'] parts
    else if startsLower part then word :: words part parts
    else words (word ++ part) parts

def goWords (name : List Char) : List (List Char) := words [] (name.splitOn '_')

def IsWord : List Char → Prop
  | [] => False
  | ch :: chs => ch ∈ lowerLetters ∧ ∀ c ∈ chs, c ∉ upperLetters

theorem toUpper_mem (ch : Char) (h : ch ∈ lowerLetters) : ch.toUpper ∈ upperLetters := by
  have hall : lowerLetters.all (fun ch => upperLetters.contains ch.toUpper) = true := by decide +kernel
  exact contains_iff_mem.1 (all_eq_true.1 hall ch h)

theorem toUpper_inj (ch : Char) (h : ch ∈ lowerLetters) (ch' : Char) (h' : ch' ∈ lowerLetters)
    (heq : ch.toUpper = ch'.toUpper) : ch = ch' := by
  have hnodup : (lowerLetters.map Char.toUpper).Nodup := by decide +kernel
  exact inj_on_of_nodup_map hnodup h h' heq

theorem startsLower_iff {part : List Char} : startsLower part = true ↔ ∃ ch chs, part = ch :: chs ∧ ch ∈ lowerLetters := by
  cases part <;> simp [startsLower]

theorem head_capitalize {ws : List (List Char)} (hws : ∀ w ∈ ws, IsWord w) (ch : Char)
    (hch : (ws.flatMap capitalize).head? = some ch) : decide (ch ∉ upperLetters) = false := by
  rcases ws with _ | ⟨_ | ⟨c, cs⟩, ws⟩
  · cases hch
  · exact (hws _ mem_cons_self).elim
  · cases hch
    exact decide_eq_false (not_not.2 (toUpper_mem c (hws _ mem_cons_self).1))

/-- Words can be told apart in an identifier, as each starts with its only capital letter. -/
theorem capitalize_inj {ws vs : List (List Char)} (hws : ∀ w ∈ ws, IsWord w) (hvs : ∀ v ∈ vs, IsWord v)
    (h : ws.flatMap capitalize = vs.flatMap capitalize) : ws = vs := by
  induction ws generalizing vs with
  | nil =>
    rcases vs with _ | ⟨_ | ⟨c, cs⟩, vs⟩
    · rfl
    · exact (hvs _ mem_cons_self).elim
    · cases h
  | cons w ws ih =>
    rcases w with _ | ⟨c, cs⟩
    · exact (hws _ mem_cons_self).elim
    rcases vs with _ | ⟨_ | ⟨c', cs'⟩, vs⟩
    · cases h
    · exact (hvs _ mem_cons_self).elim
    obtain ⟨⟨hc, hcs⟩, hws⟩ := forall_mem_cons.1 hws
    obtain ⟨⟨hc', hcs'⟩, hvs⟩ := forall_mem_cons.1 hvs
    obtain ⟨hhead, htail⟩ := cons.inj h
    obtain ⟨htake, hdrop⟩ := takeWhile_word (fun c hc => decide_eq_true (hcs c hc)) (head_capitalize hws)
    obtain ⟨htake', hdrop'⟩ := takeWhile_word (fun c hc => decide_eq_true (hcs' c hc)) (head_capitalize hvs)
    rw [show cs ++ ws.flatMap capitalize = cs' ++ vs.flatMap capitalize from htail] at htake hdrop
    rw [toUpper_inj c hc c' hc' hhead, htake.symm.trans htake', ih hws hvs (hdrop.symm.trans hdrop')]

theorem mem_of_mem_intercalate {parts : List (List Char)} {sep part : List Char} (h : part ∈ parts) {ch : Char}
    (hch : ch ∈ part) : ch ∈ sep.intercalate parts := by
  induction parts with
  | nil => cases h
  | cons p ps ih =>
    cases ps with
    | nil =>
      obtain rfl := mem_singleton.1 h
      rwa [intercalate_singleton]
    | cons q qs =>
      rw [intercalate_cons_cons, append_assoc, mem_append, mem_append]
      rcases mem_cons.1 h with rfl | h
      · exact .inl hch
      · exact .inr (.inr (ih h))

def snakeChars : List Char := lowerLetters ++ digitChars ++ ['_']

theorem snakeChars_spec (ch : Char) (h : ch ∈ snakeChars) :
    ch ∉ upperLetters ∧ (ch ∈ lowerLetters ∨ ch.toUpper = ch) := by
  have hall : snakeChars.all (fun ch => !upperLetters.contains ch && (lowerLetters.contains ch || ch.toUpper == ch)) =
      true := by decide +kernel
  simpa using all_eq_true.1 hall ch h

theorem mem_snakeChars {name : List Char} (h : isSnakeCase name = true) : ∀ ch ∈ name, ch ∈ snakeChars := by
  cases name with
  | nil => cases h
  | cons ch chs =>
    rw [isSnakeCase, Bool.and_eq_true, all_eq_true] at h
    intro c hc
    rcases mem_cons.1 hc with rfl | hc
    · simpa [snakeChars] using Or.inl h.1
    · simpa [snakeChars, or_assoc] using h.2 c hc

theorem words_spec {parts : List (List Char)} (hparts : ∀ part ∈ parts, ∀ ch ∈ part, ch ∈ snakeChars)
    (word : List Char) : (words word parts).flatMap capitalize = capitalize word ++ camelParts parts ∧
      (IsWord word → ∀ w ∈ words word parts, IsWord w) := by
  induction parts generalizing word with
  | nil => simp [words, camelParts]
  | cons part parts ih =>
    obtain ⟨hpart, hparts⟩ := forall_mem_cons.1 hparts
    have hupper : ∀ ch ∈ part, ch ∉ upperLetters := fun ch hch => (snakeChars_spec ch (hpart ch hch)).1
    rw [words, camelParts, flatMap_cons, camelPart, ← camelParts]
    split_ifs with hid hlower
    · obtain ⟨htext, hwords⟩ := ih hparts ['d']
      refine ⟨by rw [flatMap_cons, flatMap_cons, htext]; rfl, fun hword => ?_⟩
      exact forall_mem_cons.2 ⟨hword, forall_mem_cons.2 ⟨⟨by decide, by simp⟩, hwords ⟨by decide, by simp⟩⟩⟩
    · obtain ⟨htext, hwords⟩ := ih hparts part
      refine ⟨by rw [flatMap_cons, htext], fun hword => forall_mem_cons.2 ⟨hword, hwords ?_⟩⟩
      obtain ⟨ch, chs, rfl, hch⟩ := startsLower_iff.1 hlower
      exact ⟨hch, fun c hc => hupper c (mem_cons_of_mem _ hc)⟩
    · obtain ⟨htext, hwords⟩ := ih hparts (word ++ part)
      have hsame : capitalize part = part := by
        cases part with
        | nil => rfl
        | cons ch chs =>
          have hch := (snakeChars_spec ch (hpart ch mem_cons_self)).2.resolve_left fun hch =>
            hlower (startsLower_iff.2 ⟨ch, chs, rfl, hch⟩)
          rw [capitalize, hch]
      rw [htext, hsame, ← append_assoc]
      cases word with
      | nil => exact ⟨by rw [nil_append, hsame]; rfl, False.elim⟩
      | cons c cs =>
        refine ⟨rfl, fun hword => hwords ⟨hword.1, fun d hd => ?_⟩⟩
        exact (mem_append.1 hd).elim (hword.2 d) (hupper d)

theorem goWords_spec {name : List Char} (h : isSnakeCase name = true) : ∃ ws, goWords name = [] :: ws ∧
    (∀ w ∈ ws, IsWord w) ∧ toCamelCase name = ws.flatMap capitalize := by
  have hname : ['_'].intercalate (name.splitOn '_') = name := intercalate_splitOn _
  have hparts : ∀ part ∈ name.splitOn '_', ∀ ch ∈ part, ch ∈ snakeChars := fun part hpart ch hch =>
    mem_snakeChars h ch (hname ▸ mem_of_mem_intercalate hpart hch)
  obtain ⟨htext, -⟩ := words_spec hparts []
  -- a name starts with a small letter, and so does its first part
  obtain ⟨ch, chs, hch, rfl⟩ : ∃ ch chs, ch ∈ lowerLetters ∧ name = ch :: chs := by
    cases name with
    | nil => cases h
    | cons ch chs =>
      rw [isSnakeCase, Bool.and_eq_true, contains_iff_mem] at h
      exact ⟨ch, chs, h.1, rfl⟩
  rw [goWords, toCamelCase]
  rcases hsplit : (ch :: chs).splitOn '_' with _ | ⟨_ | ⟨c, cs⟩, parts⟩
  all_goals rw [hsplit] at hname hparts htext
  · cases hname
  · cases parts with
    | nil => cases hname
    | cons part parts =>
      rw [intercalate_cons_cons] at hname
      cases hname
      exact absurd hch (by decide)
  · obtain rfl : c = ch := by
      cases parts with
      | nil => exact (cons.inj hname).1
      | cons part parts => exact (cons.inj (intercalate_cons_cons.symm.trans hname)).1
    obtain ⟨hpart, hrest⟩ := forall_mem_cons.1 hparts
    rw [words] at htext ⊢
    split_ifs at htext ⊢ with hid hlower
    · have hd := (words_spec hrest ['d']).2 ⟨by decide, by simp⟩
      exact ⟨_, rfl, forall_mem_cons.2 ⟨⟨by decide, by simp⟩, hd⟩, htext.symm⟩
    · have hupper : ∀ d ∈ cs, d ∉ upperLetters := fun d hd => (snakeChars_spec d (hpart d (mem_cons_of_mem _ hd))).1
      exact ⟨_, rfl, (words_spec hrest _).2 ⟨hch, hupper⟩, htext.symm⟩
    · exact absurd (startsLower_iff.2 ⟨c, cs, rfl, hch⟩) hlower

theorem toCamelCase_eq_iff {name name' : List Char} (h : isSnakeCase name = true) (h' : isSnakeCase name' = true) :
    toCamelCase name = toCamelCase name' ↔ goWords name = goWords name' := by
  obtain ⟨ws, hgo, hws, hcamel⟩ := goWords_spec h
  obtain ⟨vs, hgo', hvs, hcamel'⟩ := goWords_spec h'
  rw [hcamel, hcamel', hgo, hgo', cons.injEq, and_iff_right rfl]
  exact ⟨capitalize_inj hws hvs, congrArg _⟩

/-- In a schema without violations, the case labels and the Go fields of a struct are distinct exactly
if the field numbers are distinct and no two names have the same words. -/
theorem lint_clean_distinct_iff (tree : AST) (hlint : lint tree = []) (s : StructNode) (hs : s ∈ tree.structs) :
    (s.fields.map (·.id.toInt)).Nodup ∧ (s.fields.map (toCamelCase ·.name.toList)).Nodup ↔
      (s.fields.map (·.id)).Nodup ∧ (s.fields.map (goWords ·.name.toList)).Nodup := by
  have hids : s.fields.map (·.id.toInt) = (s.fields.map (·.id)).map BitVec.toInt := by rw [map_map]; rfl
  rw [hids, nodup_map_iff fun _ _ h => BitVec.eq_of_toInt_eq h]
  refine and_congr_right fun _ => ?_
  rw [Nodup, Nodup, pairwise_map, pairwise_map]
  exact Pairwise.iff_of_mem fun hf hf' =>
    not_congr (toCamelCase_eq_iff (isSnakeCase_of_lint hlint hs hf) (isSnakeCase_of_lint hlint hs hf'))

def int32Field (name : String) (id : BitVec 32) : FieldNode := ⟨name, id, ⟨.int32, "", none, none⟩, false⟩

def oneStruct (fields : List FieldNode) : AST := ⟨"", [], [⟨"User", fields, false⟩], []⟩

theorem lint_clean_distinct_iff_user :
    ([int32Field "user_id" 1, int32Field "line_1" 2, int32Field "line_2" 3].map (toCamelCase ·.name.toList)).Nodup := by
  refine ((lint_clean_distinct_iff (oneStruct [int32Field "user_id" 1, int32Field "line_1" 2, int32Field "line_2" 3])
    (by decide +kernel) _ mem_cons_self).2 (by decide +kernel)).2

theorem lint_clean_collides :
    let fields := [int32Field "a_b" 1, int32Field "a__b" 1, int32Field "a_1" 2, int32Field "a1" 3, int32Field "id" 4,
      int32Field "i_d" 5]
    lint (oneStruct fields) = [] ∧ (fields.map (·.name)).Nodup ∧ ¬ (fields.map (·.id)).Nodup ∧
      fields.map (toCamelCase ·.name.toList) =
        ["AB".toList, "AB".toList, "A1".toList, "A1".toList, "ID".toList, "ID".toList] := by decide +kernel

end HelixRpc.Compiler.Linter
