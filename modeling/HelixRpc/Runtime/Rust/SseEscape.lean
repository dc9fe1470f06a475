import HelixRpc.Runtime.Go.Router

/-!
# The text of server-sent events in Rust

`HelixHttpService::call` (`runtimes/rust/src/server.rs`) writes each string of an SSE handler as an event with a JSON
document.
-/

namespace HelixRpc.Runtime.Rust.Sse

open List
open HelixRpc.Runtime.Go (Text)

def replace (c : Char) (new t : Text) : Text := t.flatMap fun x => if x = c then new else [x]

def textEvent (text : Text) : Text :=
  let escapedText := replace '\n' ['\\', 'n'] (replace '"' ['\\', '"'] (replace '\\' ['\\', '\\'] text))
  "data: \x7b\"choices\":[\x7b\"delta\":\x7b\"content\":\"".toList ++ escapedText ++ "\"\x7d\x7d]\x7d\n\n".toList

def errorEvent (e : Text) : Text :=
  "data: \x7b\"error\": \"".toList ++ replace '"' ['\\', '"'] e ++ "\"\x7d\n\n".toList

def event : Except Text Text → Text
  | .ok text => textEvent text
  | .error e => errorEvent e

inductive Json where
  | string (s : Text)
  | array (items : List Json)
  | object (members : List (Text × Json))

def unescape : Char → Option Char
  | '"' => some '"'
  | '\\' => some '\\'
  | '/' => some '/'
  | 'b' => some (Char.ofNat 8)
  | 'f' => some (Char.ofNat 12)
  | 'n' => some '\n'
  | 'r' => some '\r'
  | 't' => some '\t'
  | _ => none

def hexValue (c : Char) : Option Nat :=
  if c.isDigit then some (c.toNat - 48)
  else if 'a' ≤ c ∧ c ≤ 'f' then some (c.toNat - 87)
  else if 'A' ≤ c ∧ c ≤ 'F' then some (c.toNat - 55)
  else none

def unicode (digits : List Char) : Option Char := do
  let values ← digits.mapM hexValue
  let n := values.foldl (fun n v => 16 * n + v) 0
  if n.isValidChar then some (Char.ofNat n) else none

def readString : Text → Option (Text × Text)
  | [] => none
  | '"' :: t => some ([], t)
  | '\\' :: 'u' :: a :: b :: c :: d :: t => do
    let x ← unicode [a, b, c, d]
    let (s, t) ← readString t
    some (x :: s, t)
  | '\\' :: c :: t => do
    let x ← unescape c
    let (s, t) ← readString t
    some (x :: s, t)
  | c :: t =>
    if c.toNat < 0x20 ∨ c = '\\' then none
    else (readString t).map fun r => (c :: r.1, r.2)

def skipSpace (t : Text) : Text := t.dropWhile fun c => c = ' ' ∨ c = '\t' ∨ c = '\n' ∨ c = '\r'

mutual

def readValue : Nat → Text → Option (Json × Text)
  | 0, _ => none
  | fuel + 1, t =>
    match skipSpace t with
    | '"' :: t => (readString t).map fun r => (.string r.1, r.2)
    | '[' :: t =>
      match skipSpace t with
      | ']' :: t => some (.array [], t)
      | t => (readItems fuel t).map fun r => (.array r.1, r.2)
    | '\x7b' :: t =>
      match skipSpace t with
      | '\x7d' :: t => some (.object [], t)
      | t => (readMembers fuel t).map fun r => (.object r.1, r.2)
    | _ => none

def readItems : Nat → Text → Option (List Json × Text)
  | 0, _ => none
  | fuel + 1, t => do
    let (item, t) ← readValue fuel t
    match skipSpace t with
    | ',' :: t => (readItems fuel t).map fun r => (item :: r.1, r.2)
    | ']' :: t => some ([item], t)
    | _ => none

def readMembers : Nat → Text → Option (List (Text × Json) × Text)
  | 0, _ => none
  | fuel + 1, t =>
    match skipSpace t with
    | '"' :: t => do
      let (key, t) ← readString t
      match skipSpace t with
      | ':' :: t => do
        let (value, t) ← readValue fuel t
        match skipSpace t with
        | ',' :: t => (readMembers fuel t).map fun r => ((key, value) :: r.1, r.2)
        | '\x7d' :: t => some ([(key, value)], t)
        | _ => none
      | _ => none
    | _ => none
end

def parse (t : Text) : Option Json :=
  match readValue (t.length + 1) t with
  | some (value, rest) => if skipSpace rest = [] then some value else none
  | none => none

def document : Except Text Text → Json
  | .ok text => .object [("choices".toList, .array [.object [("delta".toList,
      .object [("content".toList, .string text)])]])]
  | .error e => .object [("error".toList, .string e)]

def Carries (msg : Except Text Text) : Prop :=
  ∃ line, event msg = "data: ".toList ++ line ++ "\n\n".toList ∧ '\n' ∉ line ∧ '\r' ∉ line ∧
    parse line = some (document msg)

def escapeText (c : Char) : Text :=
  if c = '\\' then ['\\', '\\'] else if c = '"' then ['\\', '"'] else if c = '\n' then ['\\', 'n'] else [c]

theorem replace_text (text : Text) :
    replace '\n' ['\\', 'n'] (replace '"' ['\\', '"'] (replace '\\' ['\\', '\\'] text)) = text.flatMap escapeText := by
  simp only [replace, flatMap_assoc]
  refine flatMap_congr fun c _ => ?_
  simp only [escapeText]
  split_ifs <;> simp_all

theorem readString_flatMap {esc : Char → Text} {ok : Char → Bool} (s rest : Text)
    (hesc : ∀ c ∈ s, ∀ t, readString (esc c ++ t) = if ok c then (readString t).map fun r => (c :: r.1, r.2) else none) :
    readString (s.flatMap esc ++ '"' :: rest) = if s.all ok then some (s, rest) else none := by
  induction s with
  | nil => rfl
  | cons c s ih =>
    rw [flatMap_cons, append_assoc, hesc c mem_cons_self, ih fun c hc => hesc c (mem_cons_of_mem _ hc), all_cons]
    cases ok c <;> cases s.all ok <;> rfl

theorem readString_plain {c : Char} (hquote : c ≠ '"') (hslash : c ≠ '\\') (t : Text) :
    readString (c :: t) = if 0x20 ≤ c.toNat then (readString t).map fun r => (c :: r.1, r.2) else none := by
  rw [readString]
  · by_cases hc : c.toNat < 0x20
    · rw [if_pos (.inl hc), if_neg (Nat.not_le.2 hc)]
    · rw [if_neg (not_or.2 ⟨hc, hslash⟩), if_pos (Nat.le_of_not_lt hc)]
  all_goals simp_all

theorem readString_escape {x c : Char} (hx : x ≠ 'u') (hc : unescape x = some c) (t : Text) :
    readString ('\\' :: x :: t) = (readString t).map fun r => (c :: r.1, r.2) := by
  rw [readString, hc]
  · cases readString t <;> rfl
  · intro a b c d t h
    exact absurd h hx

def isPlain (c : Char) : Bool := 0x20 ≤ c.toNat

theorem readString_text (text rest : Text) : readString (text.flatMap escapeText ++ '"' :: rest) =
    if text.all (fun c => isPlain c || c == '\n') then some (text, rest) else none := by
  refine readString_flatMap text rest fun c _ t => ?_
  by_cases hslash : c = '\\'
  · rw [hslash]
    exact readString_escape (by decide) rfl t
  by_cases hquote : c = '"'
  · rw [hquote]
    exact readString_escape (by decide) rfl t
  by_cases hline : c = '\n'
  · rw [hline]
    exact readString_escape (by decide) rfl t
  rw [escapeText, if_neg hslash, if_neg hquote, if_neg hline, singleton_append, readString_plain hquote hslash]
  simp [isPlain, hline]

theorem readString_error {e : Text} (hslash : '\\' ∉ e) (rest : Text) :
    readString (replace '"' ['\\', '"'] e ++ '"' :: rest) = if e.all isPlain then some (e, rest) else none := by
  refine readString_flatMap e rest fun c hc t => ?_
  by_cases hquote : c = '"'
  · rw [hquote]
    exact readString_escape (by decide) rfl t
  · have hne : c ≠ '\\' := fun h => hslash (h ▸ hc)
    rw [if_neg hquote, singleton_append, readString_plain hquote hne]
    simp [isPlain]

section
variable {p : Prop} [Decidable p] {fuel : Nat} {t rest : Text} {value : Json}

theorem readValue_string {s : Text} (h : readString t = if p then some (s, rest) else none) :
    readValue (fuel + 1) ('"' :: t) = if p then some (.string s, rest) else none := by
  by_cases hp : p <;> simp [readValue, skipSpace, h, hp]

theorem readValue_space : readValue (fuel + 1) (' ' :: t) = readValue (fuel + 1) t := rfl

theorem readValue_object (key : Text) (hkey : ∀ rest, readString (key ++ '"' :: rest) = some (key, rest))
    (h : readValue fuel t = if p then some (value, '\x7d' :: rest) else none) :
    readValue (fuel + 2) ('\x7b' :: '"' :: (key ++ '"' :: ':' :: t)) =
      if p then some (.object [(key, value)], rest) else none := by
  by_cases hp : p <;> simp [readValue, readMembers, skipSpace, hkey, h, hp]

theorem readValue_array {t : Text} (h : readValue fuel ('\x7b' :: t) = if p then some (value, ']' :: rest) else none) :
    readValue (fuel + 2) ('[' :: '\x7b' :: t) = if p then some (.array [value], rest) else none := by
  by_cases hp : p <;> simp [readValue, readItems, skipSpace, h, hp]

theorem parse_eq (h : ∀ fuel, readValue (fuel + 9) t = if p then some (value, []) else none) (hlength : 8 ≤ t.length) :
    parse t = if p then some value else none := by
  obtain ⟨fuel, hfuel⟩ := Nat.exists_eq_add_of_le hlength
  have hread := h fuel
  rw [show fuel + 9 = t.length + 1 by omega] at hread
  rw [parse, hread]
  by_cases hp : p <;> simp [hp, skipSpace]
end

def line : Except Text Text → Text
  | .ok text => '\x7b' :: '"' :: ("choices".toList ++ '"' :: ':' :: '[' :: '\x7b' :: '"' :: ("delta".toList ++ '"' :: ':' ::
      '\x7b' :: '"' :: ("content".toList ++ '"' :: ':' :: '"' :: (text.flatMap escapeText ++ "\"\x7d\x7d]\x7d".toList))))
  | .error e => '\x7b' :: '"' :: ("error".toList ++ '"' :: ':' :: ' ' :: '"' ::
      (replace '"' ['\\', '"'] e ++ "\"\x7d".toList))

theorem event_eq (msg : Except Text Text) : event msg = "data: ".toList ++ line msg ++ "\n\n".toList := by
  cases msg with
  | ok text =>
    have hstart : "data: \x7b\"choices\":[\x7b\"delta\":\x7b\"content\":\"".toList = "data: ".toList ++ '\x7b' :: '"' ::
        ("choices".toList ++ '"' :: ':' :: '[' :: '\x7b' :: '"' :: ("delta".toList ++ '"' :: ':' :: '\x7b' :: '"' ::
          ("content".toList ++ ['"', ':', '"']))) := by decide
    have hend : "\"\x7d\x7d]\x7d\n\n".toList = "\"\x7d\x7d]\x7d".toList ++ "\n\n".toList := by decide
    unfold event textEvent line
    simp [replace_text, hstart, hend]
  | error e =>
    have hstart : "data: \x7b\"error\": \"".toList = "data: ".toList ++ '\x7b' :: '"' ::
        ("error".toList ++ ['"', ':', ' ', '"']) := by decide
    have hend : "\"\x7d\n\n".toList = "\"\x7d".toList ++ "\n\n".toList := by decide
    unfold event errorEvent line
    simp [hstart, hend]

theorem parse_text (text : Text) : parse (line (.ok text)) =
    if text.all (fun c => isPlain c || c == '\n') then some (document (.ok text)) else none := by
  refine parse_eq (fun fuel => ?_) (by simp [line])
  refine readValue_object _ (fun _ => rfl) ?_
  refine readValue_array ?_
  refine readValue_object _ (fun _ => rfl) ?_
  refine readValue_object _ (fun _ => rfl) ?_
  exact readValue_string (readString_text text _)

theorem parse_error {e : Text} (hslash : '\\' ∉ e) : parse (line (.error e)) =
    if e.all isPlain then some (document (.error e)) else none := by
  refine parse_eq (fun fuel => ?_) (by simp [line])
  refine readValue_object _ (fun _ => rfl) ?_
  rw [readValue_space]
  exact readValue_string (readString_error hslash _)

def carried : Except Text Text → Bool
  | .ok text => text.all fun c => isPlain c || c == '\n'
  | .error e => e.all isPlain

variable {msg : Except Text Text}

theorem isPlain_of_mem_line (h : carried msg) : ∀ c ∈ line msg, isPlain c = true := by
  rw [← all_eq_true]
  cases msg with
  | ok text =>
    have hbody : (text.flatMap escapeText).all isPlain = true := by
      rw [all_flatMap, all_eq_true]
      intro c hc
      have hplain := all_eq_true.1 h c hc
      rw [escapeText]
      split_ifs with hslash hquote hline <;> simp_all [isPlain]
    have hline : (line (.ok text)).all isPlain = (text.flatMap escapeText ++ "\"\x7d\x7d]\x7d".toList).all isPlain := rfl
    rw [hline, all_append, hbody]
    decide
  | error e =>
    have hbody : (replace '"' ['\\', '"'] e).all isPlain = true := by
      rw [replace, all_flatMap, all_eq_true]
      intro c hc
      have hplain := all_eq_true.1 h c hc
      split_ifs with hquote <;> simp_all [isPlain]
    have hline : (line (.error e)).all isPlain = (replace '"' ['\\', '"'] e ++ "\"\x7d".toList).all isPlain := rfl
    rw [hline, all_append, hbody]
    decide

theorem parse_of_carries (h : Carries msg) : parse (line msg) = some (document msg) := by
  obtain ⟨data, hevent, -, -, hparse⟩ := h
  rw [event_eq, append_left_inj, append_right_inj] at hevent
  rw [hevent, hparse]

theorem carries_iff {p : Prop} [Decidable p] (h : parse (line msg) = if p then some (document msg) else none)
    (hcarried : p → carried msg) : Carries msg ↔ p := by
  constructor
  · intro hcarries
    have hparse := parse_of_carries hcarries
    rw [h] at hparse
    split_ifs at hparse with hp
    exact hp
  · intro hp
    refine ⟨line msg, event_eq msg, ?_, ?_, ?_⟩
    · exact fun hline => absurd (isPlain_of_mem_line (hcarried hp) _ hline) (by decide)
    · exact fun hreturn => absurd (isPlain_of_mem_line (hcarried hp) _ hreturn) (by decide)
    · rw [h, if_pos hp]

theorem count_escaped (x : Char) (s : Text) :
    (x :: s).count '"' + (x :: s).count '\\' ≤ s.count '"' + s.count '\\' + 1 := by
  by_cases hquote : x = '"'
  · subst hquote
    simp
    omega
  · rw [count_cons_of_ne hquote, count_cons]
    split_ifs <;> omega

/-- A quote or a backslash of the value comes from an escape, which is longer than one character. -/
theorem readString_length {t s rest : Text} (h : readString t = some (s, rest)) :
    s.length + s.count '"' + s.count '\\' + rest.length < t.length := by
  fun_induction readString t generalizing s rest with
  | case1 => cases h
  | case2 t => cases h; simp
  | case3 a b c d t ih =>
    simp only [Option.bind_eq_bind, Option.bind_eq_some_iff] at h
    obtain ⟨x, -, ⟨s', rest'⟩, hread, heq⟩ := h
    cases heq
    have hlength := ih hread
    have hescape := count_escaped x s'
    simp only [length_cons]
    omega
  | case4 c t hu ih =>
    simp only [Option.bind_eq_bind, Option.bind_eq_some_iff] at h
    obtain ⟨x, -, ⟨s', rest'⟩, hread, heq⟩ := h
    cases heq
    have hlength := ih hread
    have hescape := count_escaped x s'
    simp only [length_cons]
    omega
  | case5 => cases h
  | case6 c t hquote hu hescape hplain ih =>
    obtain ⟨⟨s', rest'⟩, hread, heq⟩ := Option.map_eq_some_iff.1 h
    cases heq
    have hlength := ih hread
    rw [not_or] at hplain
    dsimp only
    rw [count_cons_of_ne hquote, count_cons_of_ne hplain.2, length_cons, length_cons]
    omega

theorem readMembers_error {fuel : Nat} {t rest : Text} {members : List (Text × Json)}
    (h : readMembers (fuel + 2) ('"' :: ("error".toList ++ '"' :: ':' :: ' ' :: '"' :: t)) = some (members, rest)) :
    ∃ s c t' tail, readString t = some (s, c :: t') ∧ members = ("error".toList, .string s) :: tail := by
  rw [readMembers] at h
  simp only [skipSpace, readValue] at h
  cases hread : readString t with
  | none => simp [hread, readString] at h
  | some r =>
    obtain ⟨s, _ | ⟨c, t'⟩⟩ := r
    · simp [hread, readString] at h
    · refine ⟨s, c, t', ?_⟩
      simp [hread, readString] at h
      split at h
      · obtain ⟨r, -, hr⟩ := Option.map_eq_some_iff.1 h
        cases hr
        exact ⟨_, rfl, rfl⟩
      · cases h
        exact ⟨_, rfl, rfl⟩
      · cases h

theorem readString_of_parse {t e : Text} (h : parse ('\x7b' :: '"' :: ("error".toList ++ '"' :: ':' :: ' ' :: '"' :: t)) =
    some (document (.error e))) : ∃ c rest, readString t = some (e, c :: rest) := by
  rw [parse] at h
  split at h
  · rename_i value rest hvalue
    obtain ⟨⟨members, rest'⟩, hmembers, hr⟩ := Option.map_eq_some_iff.1 hvalue
    obtain ⟨s, c, t', tail, hread, rfl⟩ := readMembers_error hmembers
    split_ifs at h
    cases hr
    cases h
    exact ⟨c, t', hread⟩
  · cases h

theorem length_replace_quote (e : Text) : (replace '"' ['\\', '"'] e).length = e.length + e.count '"' := by
  induction e with
  | nil => rfl
  | cons c e ih =>
    rw [replace, flatMap_cons, length_append, ← replace, ih, count_cons, length_cons]
    by_cases hc : c = '"' <;> simp [hc] <;> omega

/-- In an error the quotes are escaped and the backslashes are not, so that its text is too short
to hold a string with a backslash. -/
theorem backslash_not_mem {e : Text} (h : parse (line (.error e)) = some (document (.error e))) : '\\' ∉ e := by
  obtain ⟨c, rest, hread⟩ := readString_of_parse h
  have hlength := readString_length hread
  rw [← count_pos_iff]
  rw [length_append, length_replace_quote] at hlength
  simp at hlength
  omega

/-- The event of a text gives it back exactly if line breaks are its only control characters;
the event of an error gives it back exactly if it has no control character and no backslash. -/
theorem rust_events_carry (text e : Text) : (Carries (.ok text) ↔ ∀ c ∈ text, 0x20 ≤ c.toNat ∨ c = '\n') ∧
    (Carries (.error e) ↔ ∀ c ∈ e, 0x20 ≤ c.toNat ∧ c ≠ '\\') := by
  refine ⟨(carries_iff (parse_text text) id).trans (by simp [isPlain]), ?_⟩
  by_cases hslash : '\\' ∈ e
  · exact iff_of_false (fun h => backslash_not_mem (parse_of_carries h) hslash) fun h => (h _ hslash).2 rfl
  · refine (carries_iff (parse_error hslash) id).trans ?_
    rw [all_eq_true]
    refine forall₂_congr fun c hc => ?_
    have hne : c ≠ '\\' := fun h => hslash (h ▸ hc)
    simp [isPlain, hne]

theorem tab_and_backslash_not_carried : ¬ Carries (.ok ['\t']) ∧ ¬ Carries (.error ['\\']) := by
  refine ⟨fun h => ?_, fun h => ?_⟩
  · have hnone : (parse (line (.ok ['\t']))).isSome = false := by decide
    rw [parse_of_carries h] at hnone
    cases hnone
  · have hnone : (parse (line (.error ['\\']))).isSome = false := by decide
    rw [parse_of_carries h] at hnone
    cases hnone

end HelixRpc.Runtime.Rust.Sse
