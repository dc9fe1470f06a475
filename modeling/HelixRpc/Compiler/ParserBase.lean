import HelixRpc.Compiler.Ast
import HelixRpc.Compiler.Lexer
import Mathlib.Data.List.Nodup

/-!
# What the two parsers share

`parseTypeNode` of `compiler/parser/proto_parser.go` turns the text of a type into a `TypeNode`.
-/

namespace HelixRpc.Compiler

open Foundation List Outcome

def isTrimmed (ch : Char) : Bool := isSpace ch || ch = Char.ofNat 11 || ch = Char.ofNat 12

def trimSpace (t : List Char) : List Char := ((t.dropWhile isTrimmed).reverse.dropWhile isTrimmed).reverse

def wordType (word : String) : TypeNode :=
  if word = "int32" ∨ word = "i32" then ⟨.int32, "", none, none⟩
  else if word = "int64" ∨ word = "i64" then ⟨.int64, "", none, none⟩
  else if word = "string" then ⟨.string, "", none, none⟩
  else if word = "bytes" ∨ word = "binary" then ⟨.binary, "", none, none⟩
  else if word = "bool" then ⟨.bool, "", none, none⟩
  else if word = "double" then ⟨.double, "", none, none⟩
  else ⟨.struct, word, none, none⟩

def typeArgument (start t : List Char) : Option (List Char) :=
  if start.isPrefixOf t ∧ t.getLast? = some '>' then some (t.drop start.length).dropLast else none

def splitComma (t : List Char) : Option (List Char × List Char) :=
  if ',' ∈ t then some (t.takeWhile (· ≠ ','), (t.dropWhile (· ≠ ',')).tail) else none

def parseTypeChars : Nat → List Char → TypeNode
  | 0, _ => ⟨.struct, "", none, none⟩
  | fuel + 1, t =>
    let t := trimSpace t
    match typeArgument "list<".toList t with
    | some sub => ⟨.list, "", none, some (parseTypeChars fuel sub)⟩
    | none =>
      -- parameters without a comma make the whole text a name
      match (typeArgument "map<".toList t).bind splitComma with
      | some (k, v) => ⟨.map, "", some (parseTypeChars fuel k), some (parseTypeChars fuel v)⟩
      | none => wordType (String.ofList t)

def parseTypeNode (tStr : String) : TypeNode := parseTypeChars (tStr.toList.length + 1) tStr.toList

def decimal (digits : List Char) : Nat := digits.foldl (fun n ch => 10 * n + (ch.toNat - 48)) 0

def atoi (val : String) : Int :=
  match val.toList with
  | '-' :: digits => max (-(decimal digits : Int)) (-2 ^ 63)
  | digits => min (decimal digits : Int) (2 ^ 63 - 1)

def readID (val : String) : BitVec 32 := BitVec.ofInt 32 (atoi val)

def setValue (values : List (String × BitVec 32)) (key : String) (val : BitVec 32) : List (String × BitVec 32) :=
  if key ∈ values.map Prod.fst then
    values.map fun entry => if entry.1 = key then (key, val) else entry
  else values ++ [(key, val)]

theorem nodup_setValue {values : List (String × BitVec 32)} (h : (values.map Prod.fst).Nodup)
    (key : String) (val : BitVec 32) : ((setValue values key val).map Prod.fst).Nodup := by
  unfold setValue
  split
  · have hkeys : (values.map fun entry => if entry.1 = key then (key, val) else entry).map Prod.fst =
        values.map Prod.fst := by
      rw [map_map]
      apply map_congr_left
      intro entry _
      show (if entry.1 = key then (key, val) else entry).1 = entry.1
      split
      · rename_i heq
        exact heq.symm
      · rfl
    rw [hkeys]
    exact h
  · rename_i hfresh
    rw [map_append, nodup_append]
    refine ⟨h, nodup_singleton _, ?_⟩
    intro a ha b hb
    obtain rfl := mem_singleton.1 hb
    rintro rfl
    exact hfresh ha

def setEnumValue (en : EnumNode) (key : String) (val : BitVec 32) : EnumNode :=
  ⟨en.name, setValue en.values key val, nodup_setValue en.nodup key val⟩

abbrev ParseOutcome := Outcome String

def expectPunct (ch : Char) (err : String) : List Token → ParseOutcome (List Token)
  | .punct c :: rest => if c = ch then .ok rest else .error err
  | _ => .error err

def expectIdent (err : String) : List Token → ParseOutcome (String × List Token)
  | .ident val :: rest => .ok (val, rest)
  | _ => .error err

def expectInt (err : String) : List Token → ParseOutcome (String × List Token)
  | .int val :: rest => .ok (val, rest)
  | _ => .error err

def expectString (err : String) : List Token → ParseOutcome (String × List Token)
  | .str val :: rest => .ok (val, rest)
  | _ => .error err

def skipPunct (chs : List Char) : List Token → List Token
  | .punct c :: rest => if c ∈ chs then rest else .punct c :: rest
  | toks => toks

def atPunct (ch : Char) : List Token → Bool
  | .punct c :: _ => c = ch
  | _ => false

def toBrace (toks : List Token) : List Token := toks.dropWhile (· ≠ .punct '}')

/-! ## How many tokens are left

Every reader leaves at most the tokens it gets. The rules follow the `do` blocks of the parsers. -/

section
variable {β γ : Type} {n : Nat} {left : β → List Token} {left' : γ → List Token}
  {p : ParseOutcome β} {f : β → ParseOutcome γ}

/-- If the reader succeeds, at most `n` tokens are left; `left` says where they stand in its result. -/
def Leaves (n : Nat) (left : β → List Token) (p : ParseOutcome β) : Prop := ∀ b, p = .ok b → (left b).length ≤ n

theorem Leaves.ok {b : β} (h : (left b).length ≤ n) : Leaves n left (.ok b) := by
  rintro _ ⟨⟩
  exact h

theorem Leaves.error (err : String) : Leaves n left (.error err) := nofun

theorem Leaves.bind (hp : Leaves n left p) (hf : ∀ b, Leaves (left b).length left' (f b)) :
    Leaves n left' (p >>= f) := by
  intro c h
  obtain ⟨b, hread, h⟩ := bind_eq_ok.1 h
  exact Nat.le_trans (hf b c h) (hp b hread)

theorem Leaves.mono {m : Nat} (h : Leaves m left p) (hle : m ≤ n) : Leaves n left p :=
  fun b hb => Nat.le_trans (h b hb) hle

theorem Leaves.ite {c : Prop} [Decidable c] {q : ParseOutcome β} (hp : Leaves n left p) (hq : Leaves n left q) :
    Leaves n left (if c then p else q) := by
  split
  · exact hp
  · exact hq
end

theorem leaves_expectPunct (ch : Char) (err : String) (toks : List Token) :
    Leaves toks.length id (expectPunct ch err toks) := by
  unfold expectPunct
  split
  · exact .ite (.ok (Nat.le_succ _)) (.error _)
  · exact .error _

theorem leaves_expectIdent (err : String) (toks : List Token) : Leaves toks.length Prod.snd (expectIdent err toks) := by
  unfold expectIdent
  split
  · exact .ok (Nat.le_succ _)
  · exact .error _

theorem leaves_expectInt (err : String) (toks : List Token) : Leaves toks.length Prod.snd (expectInt err toks) := by
  unfold expectInt
  split
  · exact .ok (Nat.le_succ _)
  · exact .error _

theorem leaves_expectString (err : String) (toks : List Token) :
    Leaves toks.length Prod.snd (expectString err toks) := by
  unfold expectString
  split
  · exact .ok (Nat.le_succ _)
  · exact .error _

theorem length_skipPunct (chs : List Char) (toks : List Token) : (skipPunct chs toks).length ≤ toks.length := by
  unfold skipPunct
  split
  · split
    · exact Nat.le_succ _
    · exact Nat.le_refl _
  · exact Nat.le_refl _

theorem length_toBrace (toks : List Token) : (toBrace toks).length ≤ toks.length := length_dropWhile_le _ _

/-! The loops of the parsers run over the items of a block, up to its closing brace, or over the items of
a file, up to its end. An item starts with the current token and returns the tokens behind it; a token
that starts no item is an item of its own that is skipped. -/

section
variable {α : Type}

abbrev Item (α : Type) := Token → List Token → α → ParseOutcome (List Token × α)

def tokensLeft (st : List Token × α) : Nat := st.1.length

def blockStep (err : String) (item : Item α) (st : List Token × α) :
    ParseOutcome (Flow (List Token × α) (α × List Token)) :=
  match st.1 with
  | [] => .error err
  | tok :: rest =>
    if tok = .punct '}' then .ok (.ret (st.2, rest))
    -- the item decides how many tokens it takes
    else do
      let st ← item tok rest st.2
      pure (.next st)

def parseBlock (err : String) (item : Item α) (toks : List Token) (acc : α) :
    ParseOutcome (α × List Token) := loopWithin tokensLeft (blockStep err item) (toks, acc)

def fileStep (item : Item α) (st : List Token × α) : ParseOutcome (Flow (List Token × α) α) :=
  match st.1 with
  | [] => .ok (.ret st.2)
  | tok :: rest => do
      let st ← item tok rest st.2
      pure (.next st)

def parseFile (item : Item α) (toks : List Token) (acc : α) : ParseOutcome α :=
  loopWithin tokensLeft (fileStep item) (toks, acc)

/-- A declaration behind its first word: a name, and a block of items in braces. -/
def parseDecl (kind : String) (item : String → Item α) (start : String → α) (toks : List Token) :
    ParseOutcome (α × List Token) := do
  let (name, toks) ← expectIdent ("expected identifier for " ++ kind ++ " name") toks
  let toks ← expectPunct '{' ("expected '\x7b' after " ++ kind ++ " " ++ name) toks
  parseBlock ("expected '\x7d' to close " ++ kind ++ " " ++ name) (item name) toks (start name)

def Shrinks (item : Item α) : Prop := ∀ tok rest acc, Leaves rest.length Prod.fst (item tok rest acc)

variable {toks rest : List Token} {acc acc' : α}

variable {err : String} {item : Item α}

theorem blockStep_dec (h : Shrinks item) (st st' : List Token × α)
    (hstep : Steps (blockStep err item) st st') : tokensLeft st' < tokensLeft st := by
  obtain ⟨toks, acc⟩ := st
  cases toks with
  | nil => cases hstep
  | cons tok rest =>
    by_cases hbrace : tok = .punct '}'
    · cases (if_pos hbrace).symm.trans hstep
    · obtain ⟨st'', hitem, hnext⟩ := bind_eq_ok.1 ((if_neg hbrace).symm.trans hstep)
      obtain rfl := Flow.next.inj (ok.inj hnext)
      exact Nat.lt_succ_of_le (h tok rest acc _ hitem)

theorem fileStep_dec (h : Shrinks item) (st st' : List Token × α)
    (hstep : Steps (fileStep item) st st') : tokensLeft st' < tokensLeft st := by
  obtain ⟨toks, acc⟩ := st
  cases toks with
  | nil => cases hstep
  | cons tok rest =>
    obtain ⟨st'', hitem, hnext⟩ := bind_eq_ok.1 hstep
    obtain rfl := Flow.next.inj (ok.inj hnext)
    exact Nat.lt_succ_of_le (h tok rest acc _ hitem)

theorem leaves_parseBlock (h : Shrinks item) (toks : List Token) (acc : α) :
    Leaves toks.length Prod.snd (parseBlock err item toks acc) := by
  rintro ⟨acc', rest⟩ hblock
  obtain ⟨⟨toks', acc''⟩, hreach, hret⟩ := exists_ret_of_loopWithin (blockStep_dec h) hblock
  have hle : toks'.length ≤ toks.length := bound_le_of_reaches (blockStep_dec h) hreach
  cases toks' with
  | nil => cases hret
  | cons tok rest' =>
    by_cases hbrace : tok = .punct '}'
    · have hpair := Flow.ret.inj (ok.inj ((if_pos hbrace).symm.trans hret))
      obtain ⟨-, rfl⟩ := Prod.mk.inj hpair
      exact Nat.le_of_succ_le hle
    · obtain ⟨st'', -, hnext⟩ := bind_eq_ok.1 ((if_neg hbrace).symm.trans hret)
      cases hnext

theorem leaves_parseDecl {kind : String} {item : String → Item α} {start : String → α}
    (h : ∀ name, Shrinks (item name)) (toks : List Token) :
    Leaves toks.length Prod.snd (parseDecl kind item start toks) := by
  refine (leaves_expectIdent _ _).bind fun name => ?_
  refine (leaves_expectPunct _ _ _).bind fun toks => ?_
  exact leaves_parseBlock (h name.1) toks _

theorem parseBlock_item (h : Shrinks item) {tok : Token} {rest toks : List Token} {acc acc' : α}
    (htok : tok ≠ .punct '}') (hitem : item tok rest acc = .ok (toks, acc')) :
    parseBlock err item (tok :: rest) acc = parseBlock err item toks acc' := by
  -- the loop returns from the state behind the item what it returns from here
  have hstep : Steps (blockStep err item) (tok :: rest, acc) (toks, acc') := by
    refine (if_neg htok).trans ?_
    exact congrArg (fun r : ParseOutcome _ => r >>= fun st => pure (Flow.next st)) hitem
  refine (loopWithin_eq_iff (blockStep_dec h)).2 ?_
  exact (returns_step_iff hstep _).2 ((loopWithin_eq_iff (blockStep_dec h)).1 rfl)

theorem parseBlock_brace (h : Shrinks item) (rest : List Token) (acc : α) :
    parseBlock err item (.punct '}' :: rest) acc = .ok (acc, rest) :=
  (loopWithin_eq_iff (blockStep_dec h)).2 (returns_of_ret rfl)

theorem parseFile_item (h : Shrinks item) {tok : Token} (hitem : item tok rest acc = .ok (toks, acc')) :
    parseFile item (tok :: rest) acc = parseFile item toks acc' := by
  have hstep : Steps (fileStep item) (tok :: rest, acc) (toks, acc') := by
    exact congrArg (fun r : ParseOutcome _ => r >>= fun st => pure (Flow.next st)) hitem
  refine (loopWithin_eq_iff (fileStep_dec h)).2 ?_
  exact (returns_step_iff hstep _).2 ((loopWithin_eq_iff (fileStep_dec h)).1 rfl)

theorem parseFile_items {β : Type} {toks : β → List Token} {add : α → β → α} (hitem : ∀ x rest acc,
    parseFile item (toks x ++ rest) acc = parseFile item rest (add acc x)) (xs : List β) (rest : List Token) (acc :
    α) : parseFile item (xs.flatMap toks ++ rest) acc = parseFile item rest (xs.foldl add acc) := by
  induction xs generalizing acc with
  | nil => rfl
  | cons x xs ih => rw [flatMap_cons, append_assoc, hitem, ih, foldl_cons]

theorem parseFile_end (h : Shrinks item) (acc : α) : parseFile item [] acc = .ok acc :=
  (loopWithin_eq_iff (fileStep_dec h)).2 (returns_of_ret rfl)
end

def AST.addStruct (res : AST) (str : StructNode) : AST := { res with structs := res.structs ++ [str] }

theorem foldl_addStruct {β : Type} (read : β → StructNode) (xs : List β) (res : AST) :
    xs.foldl (fun res x => res.addStruct (read x)) res = { res with structs := res.structs ++ xs.map read } := by
  induction xs generalizing res with
  | nil => rw [foldl_nil, map_nil, append_nil]
  | cons x xs ih =>
    rw [foldl_cons, ih]
    simp [AST.addStruct]

theorem foldl_ns {β : Type} (ns : String → β → String) (xs : List β) (res : AST) :
    xs.foldl (fun res x => { res with ns := ns res.ns x }) res = { res with ns := xs.foldl ns res.ns } := by
  induction xs generalizing res with
  | nil => rfl
  | cons x xs ih => rw [foldl_cons, ih, foldl_cons]

end HelixRpc.Compiler
