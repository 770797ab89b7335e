import Earley.RuleText.Reading
import Mathlib.Tactic.SplitIfs

/-!
# Proofs/RuleText/Scanner — rules read from left to right

Rules can be read without a parser.  A scanner skips blanks and reads a name, then an arrow, and
then, up to the end of the text, one lexeme after the other: a bar begins another alternative, and
every other lexeme is a symbol of the last one.  How far it came is its `Progress`, which says what
may come next.
-/

namespace Earley.RuleText

/-! ## Lexemes -/

/-- The characters that a name begins with. -/
def isNameStart (c : Char) : Bool := ('a' ≤ c && c ≤ 'z') || ('A' ≤ c && c ≤ 'Z') || c = '_'

/-- The characters that a name goes on with. -/
def isNameRest (c : Char) : Bool := isNameStart c || ('0' ≤ c && c ≤ '9')

/-- A name at the beginning of a text, and what stands behind it. -/
def scanName? : List Char → Option (String × List Char)
  | [] => none
  | c :: rest =>
    if isNameStart c then
      some (String.ofList (c :: rest.takeWhile isNameRest), rest.dropWhile isNameRest)
    else none

/-- **The inside of a quoted text** up to the closing quote, decoded, and what stands behind that.
A backslash and the character behind it, which is not the end of the line, stand for what `escape`
says. -/
def scanQuoted (quote : Char) (escape : Char → List Char) :
    List Char → Option (List Char × List Char)
  | [] => none
  | c :: rest =>
    if c = quote then some ([], rest)
    else if c = '\\' then
      match rest with
      | [] => none
      | escaped :: rest =>
        if escaped = '\n' then none
        else (scanQuoted quote escape rest).map (Prod.map (escape escaped ++ ·) id)
    else (scanQuoted quote escape rest).map (Prod.map (c :: ·) id)

/-- In a literal the backslash is dropped. -/
def literalEscape (c : Char) : List Char := [c]

/-- In a regular expression the backslash is dropped before a slash only. -/
def regexEscape (c : Char) : List Char := if c = '/' then ['/'] else ['\\', c]

/-- What the body of a rule is made of. -/
inductive Lexeme where
  | bar
  | symbol (atom : Atom)

/-- The kinds of lexemes. -/
def lexemeKinds : List (Pattern .standard) :=
  [.literal "|", identifier, doubleQuoted, singleQuoted, slashed]

/-- A lexeme at the beginning of a text, and what stands behind it. -/
def scanLexeme? : List Char → Option (Lexeme × List Char)
  | [] => none
  | c :: rest =>
    if c = '|' then some (.bar, rest)
    else if c = '"' ∨ c = '\'' then
      (scanQuoted c literalEscape rest).map
        (Prod.map (fun inside => .symbol (.literal (String.ofList inside))) id)
    else if c = '/' then
      (scanQuoted c regexEscape rest).map
        (Prod.map (fun inside => .symbol (.regex (String.ofList inside))) id)
    else (scanName? (c :: rest)).map (Prod.map (fun name => .symbol (.name name)) id)

/-! ## Rules -/

/-- A bar begins another alternative, a symbol belongs to the last one. -/
def addLexeme (sequences : List (List Atom)) : Lexeme → List (List Atom)
  | .bar => sequences ++ [[]]
  | .symbol atom => sequences.dropLast ++ [sequences.getLastD [] ++ [atom]]

/-- **How far a rule was read**: nothing of it, its name, or its arrow and some of its body. -/
inductive Progress where
  | start
  | named (name : String)
  | body (name : String) (sequences : List (List Atom))

/-- What reading a rule comes to: its name and its alternatives, the end of the text before the
arrow was read, or a text that begins with none of the admissible kinds. -/
inductive Outcome where
  | complete (name : String) (sequences : List (List Atom))
  | incomplete
  | stuck (rest : List Char) (admissible : List (Pattern .standard))

namespace Progress

/-- The kinds that may come next. -/
def admissible : Progress → List (Pattern .standard)
  | start => [identifier]
  | named _ => [.literal "->"]
  | body _ _ => lexemeKinds

/-- Reads what stands at the beginning of a text. -/
def scan? : Progress → List Char → Option (Progress × List Char)
  | start, text => (scanName? text).map (Prod.map named id)
  | named name, '-' :: '>' :: rest => some (body name [[]], rest)
  | named _, _ => none
  | body name sequences, text =>
    (scanLexeme? text).map (Prod.map (fun lexeme => body name (addLexeme sequences lexeme)) id)

/-- What the end of the text means. -/
def atEnd : Progress → Outcome
  | body name sequences => .complete name sequences
  | _ => .incomplete

end Progress

/-! ## Less is left -/

/-- What stands behind does not depend on what is made of the part before it. -/
theorem map_prodMap_eq_some_iff {α β γ : Type} {found : Option (α × γ)} {f : α → β} {y : β}
    {rest : γ} :
    found.map (Prod.map f id) = some (y, rest) ↔ ∃ x, found = some (x, rest) ∧ f x = y := by
  cases found with
  | none => simp
  | some pair =>
    obtain ⟨x, after⟩ := pair
    simp only [Option.map_some, Prod.map_apply, id, Option.some.injEq, Prod.mk.injEq]
    constructor
    · rintro ⟨same, rfl⟩
      exact ⟨x, ⟨rfl, rfl⟩, same⟩
    · rintro ⟨_, ⟨rfl, rfl⟩, same⟩
      exact ⟨same, rfl⟩

theorem length_lt_of_scanName? {text rest : List Char} {name : String}
    (h : scanName? text = some (name, rest)) : rest.length < text.length := by
  cases text with
  | nil => exact nomatch h
  | cons c tail =>
    rw [scanName?] at h
    split at h
    · obtain ⟨-, rfl⟩ := Prod.mk.inj (Option.some.inj h)
      exact Nat.lt_succ_of_le (List.dropWhile_suffix _).length_le
    · exact nomatch h

theorem length_lt_of_scanQuoted {quote : Char} {escape : Char → List Char}
    {text inside after : List Char} (h : scanQuoted quote escape text = some (inside, after)) :
    after.length < text.length := by
  fun_induction scanQuoted quote escape text generalizing inside with
  | case1 => exact nomatch h
  | case2 rest =>
    obtain ⟨-, rfl⟩ := Prod.mk.inj (Option.some.inj h)
    exact Nat.lt_succ_self _
  | case3 => exact nomatch h
  | case4 => exact nomatch h
  | case5 escaped rest _ _ ih =>
    obtain ⟨_, found, -⟩ := map_prodMap_eq_some_iff.1 h
    have lt := ih found
    simp only [List.length_cons]
    omega
  | case6 c rest _ _ ih =>
    obtain ⟨_, found, -⟩ := map_prodMap_eq_some_iff.1 h
    exact Nat.lt_succ_of_lt (ih found)

theorem length_lt_of_scanLexeme? {text rest : List Char} {lexeme : Lexeme}
    (h : scanLexeme? text = some (lexeme, rest)) : rest.length < text.length := by
  cases text with
  | nil => exact nomatch h
  | cons c tail =>
    rw [scanLexeme?] at h
    split_ifs at h
    · obtain ⟨-, rfl⟩ := Prod.mk.inj (Option.some.inj h)
      exact Nat.lt_succ_self _
    · obtain ⟨_, found, -⟩ := map_prodMap_eq_some_iff.1 h
      exact Nat.lt_succ_of_lt (length_lt_of_scanQuoted found)
    · obtain ⟨_, found, -⟩ := map_prodMap_eq_some_iff.1 h
      exact Nat.lt_succ_of_lt (length_lt_of_scanQuoted found)
    · obtain ⟨_, found, -⟩ := map_prodMap_eq_some_iff.1 h
      exact length_lt_of_scanName? found

/-- Whatever is read takes something of the text. -/
theorem Progress.length_lt_of_scan? {progress further : Progress} {text rest : List Char}
    (h : progress.scan? text = some (further, rest)) : rest.length < text.length := by
  fun_cases scan? progress text with
  | case1 =>
    obtain ⟨_, found, -⟩ := map_prodMap_eq_some_iff.1 h
    exact length_lt_of_scanName? found
  | case2 name after =>
    obtain ⟨-, rfl⟩ := Prod.mk.inj (Option.some.inj h)
    simp only [List.length_cons]
    omega
  | case3 name _ other =>
    rw [scan?] at h
    · exact nomatch h
    · exact other
  | case4 =>
    obtain ⟨_, found, -⟩ := map_prodMap_eq_some_iff.1 h
    exact length_lt_of_scanLexeme? found

/-- **Reading on** to the end of a text, or to where it is stuck. -/
def Progress.finish (progress : Progress) (text : List Char) : Outcome :=
  match ahead : text.dropWhile Unicode.isBlank with
  | [] => progress.atEnd
  | c :: rest =>
    match read : progress.scan? (c :: rest) with
    | none => .stuck (c :: rest) progress.admissible
    | some (further, after) =>
      have : after.length < text.length := by
        have le := (List.dropWhile_suffix Unicode.isBlank (l := text)).length_le
        rw [ahead] at le
        exact Nat.lt_of_lt_of_le (length_lt_of_scan? read) le
      further.finish after
termination_by text.length

section Finish

variable {progress further : Progress} {text rest after : List Char}

theorem Progress.finish_of_blank (h : text.dropWhile Unicode.isBlank = []) :
    progress.finish text = progress.atEnd := by
  rw [finish]
  split
  · rfl
  · rename_i ahead
    exact nomatch h.symm.trans ahead

theorem Progress.finish_of_none (ahead : text.dropWhile Unicode.isBlank = rest) (some : rest ≠ [])
    (h : progress.scan? rest = none) : progress.finish text = .stuck rest progress.admissible := by
  rw [finish]
  split
  · rename_i ends
    exact absurd (ahead.symm.trans ends) some
  · rename_i c tail same
    obtain rfl := ahead.symm.trans same
    split
    · rfl
    · rename_i read
      exact nomatch h.symm.trans read

theorem Progress.finish_of_some (ahead : text.dropWhile Unicode.isBlank = rest)
    (h : progress.scan? rest = some (further, after)) :
    progress.finish text = further.finish after := by
  rw [finish]
  split
  · rename_i ends
    obtain rfl := ahead.symm.trans ends
    exact absurd (length_lt_of_scan? h) (Nat.not_lt_zero _)
  · rename_i c tail same
    obtain rfl := ahead.symm.trans same
    split
    · rename_i read
      exact nomatch h.symm.trans read
    · rename_i read
      obtain ⟨rfl, rfl⟩ := Prod.mk.inj (Option.some.inj (h.symm.trans read))
      rfl

end Finish

/-- **Reading a rule from left to right.** -/
def scanRule (text : String) : Outcome := Progress.start.finish text.toList

example : scanRule "a -> b | 'it\\'s'c"
    = .complete "a" [[.name "b"], [.literal "it's", .name "c"]] := by
  cbv

end Earley.RuleText
