import HelixRpc.Foundation.LittleEndian

/-!
# Blocks of header lines

A block is a list of lines `name: value`, each with a CR and an LF behind it (`fieldLine`).
-/

namespace HelixRpc.Foundation

open List

def crlf : Bytes := [13, 10]

def splitLines : Bytes → List Bytes
  | [] => [[]]
  | [x] => [[x]]
  | x :: y :: rest =>
    if x = 13 ∧ y = 10 then [] :: splitLines rest
    else (splitLines (y :: rest)).modifyHead (x :: ·)

def cutField : Bytes → Option (Bytes × Bytes)
  | x :: y :: rest =>
    if x = 58 ∧ y = 32 then some ([], rest)
    else (cutField (y :: rest)).map fun (name, value) => (x :: name, value)
  | _ => none

def parseLines : List Bytes → Option (List (Bytes × Bytes))
  | [] => none
  | [last] => if last = [] then some [] else none
  | line :: lines => do
      let field ← cutField line
      let fields ← parseLines lines
      return field :: fields

def parseFields (block : Bytes) : Option (List (Bytes × Bytes)) := parseLines (splitLines block)

def fieldLine (name value : Bytes) : Bytes := name ++ ([58, 32] ++ (value ++ crlf))

theorem splitLines_ne_nil (bytes : Bytes) : splitLines bytes ≠ [] := by
  induction bytes using splitLines.induct with
  | case1 => exact cons_ne_nil _ _
  | case2 x => exact cons_ne_nil _ _
  | case3 x y rest hbreak ih =>
    rw [splitLines, if_pos hbreak]
    exact cons_ne_nil _ _
  | case4 x y rest hbreak ih =>
    rw [splitLines, if_neg hbreak]
    cases hlines : splitLines (y :: rest) with
    | nil => exact absurd hlines ih
    | cons line lines => exact cons_ne_nil _ _

theorem splitLines_append_crlf (front back : Bytes) :
    splitLines (front ++ (crlf ++ back)) = splitLines front ++ splitLines back := by
  induction front using splitLines.induct with
  | case1 => rfl
  | case2 x =>
    have hbreak : ¬ (x = 13 ∧ (13 : UInt8) = 10) := fun h => absurd h.2 (by decide)
    change splitLines (x :: 13 :: 10 :: back) = [[x]] ++ splitLines back
    rw [splitLines, if_neg hbreak]
    rfl
  | case3 x y rest hbreak ih =>
    rw [cons_append, cons_append, splitLines, if_pos hbreak, ih, splitLines, if_pos hbreak, cons_append]
  | case4 x y rest hbreak ih =>
    rw [cons_append, cons_append, splitLines, if_neg hbreak, ← cons_append, ih, splitLines, if_neg hbreak]
    cases hlines : splitLines (y :: rest) with
    | nil => exact absurd hlines (splitLines_ne_nil _)
    | cons line lines => rfl

variable {bytes name : Bytes}

theorem splitLines_of_not_crlf (h : ¬ crlf <:+: bytes) : splitLines bytes = [bytes] := by
  induction bytes using splitLines.induct with
  | case1 => rfl
  | case2 x => rfl
  | case3 x y rest hbreak ih =>
    obtain ⟨rfl, rfl⟩ := hbreak
    exact absurd ⟨[], rest, rfl⟩ h
  | case4 x y rest hbreak ih =>
    have hrest : ¬ crlf <:+: y :: rest := fun hinside => h (hinside.trans (suffix_cons x _).isInfix)
    rw [splitLines, if_neg hbreak, ih hrest]
    rfl

theorem length_splitLines_of_crlf (h : crlf <:+: bytes) : 2 ≤ (splitLines bytes).length := by
  obtain ⟨front, back, rfl⟩ := h
  have hfront := length_pos_of_ne_nil (splitLines_ne_nil front)
  have hback := length_pos_of_ne_nil (splitLines_ne_nil back)
  rw [append_assoc, splitLines_append_crlf, length_append]
  omega

theorem cutField_line (hname : 58 ∉ name) (value : Bytes) :
    cutField (name ++ ([58, 32] ++ value)) = some (name, value) := by
  induction name with
  | nil => rfl
  | cons x name ih =>
    have hx : x ≠ 58 := fun heq => hname (heq ▸ mem_cons_self)
    have hline := ih fun hmem => hname (mem_cons_of_mem x hmem)
    -- the line behind the first character has at least one more
    obtain ⟨y, rest, hrest⟩ : ∃ y rest, name ++ ([58, 32] ++ value) = y :: rest := by
      cases name with
      | nil => exact ⟨58, _, rfl⟩
      | cons y name => exact ⟨y, _, rfl⟩
    rw [cons_append, hrest, cutField, if_neg fun h => hx h.1, ← hrest, hline]
    rfl

theorem length_parseLines {lines : List Bytes} {fields : List (Bytes × Bytes)}
    (h : parseLines lines = some fields) : lines.length = fields.length + 1 := by
  induction lines generalizing fields with
  | nil => cases h
  | cons line lines ih =>
    cases lines with
    | nil =>
      rw [parseLines] at h
      split at h
      · cases h
        rfl
      · cases h
    | cons next lines =>
      rw [parseLines] at h
      · obtain ⟨field, -, h⟩ := Option.bind_eq_some_iff.1 h
        obtain ⟨fields', hfields, h⟩ := Option.bind_eq_some_iff.1 h
        cases h
        rw [length_cons, ih hfields, length_cons]
      · exact nofun

theorem not_crlf_append {front back : Bytes} (hfront : 13 ∉ front) (hback : ¬ crlf <:+: back) :
    ¬ crlf <:+: front ++ back := by
  induction front with
  | nil => exact hback
  | cons x front ih =>
    intro hinside
    rcases infix_cons_iff.1 hinside with hhead | hinside
    · have hx : 13 = x := (cons_prefix_cons.1 hhead).1
      exact hfront (hx ▸ mem_cons_self)
    · exact ih (fun hmem => hfront (mem_cons_of_mem x hmem)) hinside

theorem fieldLine_append (name value block : Bytes) :
    fieldLine name value ++ block = (name ++ ([58, 32] ++ value)) ++ (crlf ++ block) := by
  simp [fieldLine]

theorem notMem_header (hname : 13 ∉ name) : 13 ∉ name ++ [58, 32] := by
  intro hmem
  rcases mem_append.1 hmem with hmem | hmem
  · exact hname hmem
  · exact absurd hmem (by decide)

theorem parseFields_fieldLine_append {name value : Bytes} (hcolon : 58 ∉ name) (hname : 13 ∉ name)
    (hvalue : ¬ crlf <:+: value) (block : Bytes) :
    parseFields (fieldLine name value ++ block) = (parseFields block).map fun fields => (name, value) :: fields := by
  have hline : splitLines (name ++ ([58, 32] ++ value)) = [name ++ ([58, 32] ++ value)] := by
    apply splitLines_of_not_crlf
    rw [← append_assoc]
    exact not_crlf_append (notMem_header hname) hvalue
  rw [parseFields, fieldLine_append, splitLines_append_crlf, hline, parseFields]
  cases hblock : splitLines block with
  | nil => exact absurd hblock (splitLines_ne_nil block)
  | cons next lines =>
    rw [singleton_append, parseLines, cutField_line hcolon]
    · cases parseLines (next :: lines) <;> rfl
    · exact nofun

theorem parseFields_fieldLine_iff {name value found : Bytes} (hcolon : 58 ∉ name) (hname : 13 ∉ name) :
    parseFields (fieldLine name value) = some [(name, found)] ↔ ¬ crlf <:+: value ∧ found = value := by
  rw [← append_nil (fieldLine name value)]
  constructor
  · intro hparse
    by_cases hvalue : crlf <:+: value
    · -- a line break in the value makes a second line
      have hline : crlf <:+: name ++ ([58, 32] ++ value) := by
        rw [← append_assoc]
        exact hvalue.trans (suffix_append _ _).isInfix
      have hcount := length_parseLines hparse
      have htwo := length_splitLines_of_crlf hline
      rw [fieldLine_append, splitLines_append_crlf, length_append] at hcount
      simp only [splitLines, length_cons, length_nil] at hcount
      omega
    · rw [parseFields_fieldLine_append hcolon hname hvalue] at hparse
      cases hparse
      exact ⟨hvalue, rfl⟩
  · rintro ⟨hvalue, rfl⟩
    rw [parseFields_fieldLine_append hcolon hname hvalue]
    rfl

end HelixRpc.Foundation
