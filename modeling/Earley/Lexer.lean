import Earley.Pattern
import Earley.Token
import Earley.Unicode.Blank

/-!
# Lexer — the longest of the expected patterns

The lexer reads a text from left to right.  It skips blanks and takes the expected pattern with the
longest match; of equally long ones a literal is taken before a regular expression, and then the one
that stands first.  The token is read as the pattern that was taken and as no other, so that a
keyword is never read as a name as well.

Every call begins a new text at the place reached, and a call that fails takes nothing but the
blanks.
-/

namespace Earley

/-- A place in the text of a lexer: the number of bytes before it and the characters behind it. -/
structure Lexer where
  offset : Nat
  rest : List Char

namespace Lexer

variable {E : Engine}

/-- The beginning of a text. -/
def ofString (text : String) : Lexer := ⟨0, text.toList⟩

/-- The place behind the next `count` characters. -/
def drop (lexer : Lexer) (count : Nat) : Lexer :=
  ⟨lexer.offset + byteLength (lexer.rest.take count), lexer.rest.drop count⟩

/-- The place behind the next `size` bytes. -/
def pass (lexer : Lexer) (size : Nat) : Lexer :=
  ⟨lexer.offset + size, lexer.rest.drop (charCount lexer.rest size)⟩

/-- The place behind the blanks. -/
def skipBlanks (lexer : Lexer) : Lexer :=
  lexer.drop (lexer.rest.takeWhile Unicode.isBlank).length

/-- A match of an expected pattern: its number of bytes and the pattern. -/
structure Match (E : Engine) where
  size : Nat
  pattern : Pattern E

/-- Whether a match is taken instead of one that stands before it. -/
def Match.beats (later earlier : Match E) : Bool :=
  earlier.size < later.size
    || (later.size = earlier.size && later.pattern.isLiteral && !earlier.pattern.isLiteral)

/-- The matches of the expected patterns at the beginning of a text, in their order. -/
def matchesOf (text : List Char) (expected : List (Pattern E)) : List (Match E) :=
  expected.filterMap fun pattern => (pattern.matchEnd? text).map fun size => ⟨size, pattern⟩

/-- The match that is taken. -/
def best? : List (Match E) → Option (Match E)
  | [] => none
  | first :: others =>
    some (others.foldl (fun best later => if later.beats best then later else best) first)

/-- **The next token** among the expected patterns, and the place behind it. -/
def next (lexer : Lexer) (expected : List (Pattern E)) :
    Except (ParseError (Pattern E)) (Option (Token (Pattern E))) × Lexer :=
  let here := lexer.skipBlanks
  if here.rest.isEmpty then (.ok none, here)
  else
    match best? (matchesOf here.rest expected) with
    | none => (.error (.unexpected here.offset expected), here)
    | some ⟨size, pattern⟩ =>
      if size = 0 then (.error (.emptyToken here.offset), here)
      else
        let after := here.pass size
        (.ok (some {
          kind := pattern
          text := String.ofList (here.rest.take (charCount here.rest size))
          start := here.offset
          next := after.offset }), after)

/-- The places of the expected patterns that a token is read as. -/
def placesOf (token : Token (Pattern E)) (expected : List (Pattern E)) : List Nat :=
  (expected.zipIdx.filter fun (pattern, _) => pattern = token.kind).map Prod.snd

/-- The next token, read as its own pattern only. -/
def scan (lexer : Lexer) (expected : List (Pattern E)) :
    Except (ParseError (Pattern E)) (Option (Scan (Pattern E))) × Lexer :=
  match lexer.next expected with
  | (.ok (some token), after) => (.ok (some ⟨token, some (placesOf token expected)⟩), after)
  | (.ok none, after) => (.ok none, after)
  | (.error error, after) => (.error error, after)

theorem length_rest_drop (lexer : Lexer) (count : Nat) :
    (lexer.drop count).rest.length = lexer.rest.length - count := by
  simp [drop]

theorem length_rest_skipBlanks_le (lexer : Lexer) :
    lexer.skipBlanks.rest.length ≤ lexer.rest.length := by
  simp [skipBlanks, length_rest_drop]

theorem length_rest_pass_lt {lexer : Lexer} {size : Nat} (further : lexer.rest ≠ [])
    (pos : size ≠ 0) : (lexer.pass size).rest.length < lexer.rest.length := by
  obtain ⟨offset, rest⟩ := lexer
  cases rest with
  | nil => exact absurd rfl further
  | cons c rest =>
    simp only [pass, charCount, if_neg pos, List.drop_succ_cons, List.length_drop,
      List.length_cons]
    omega

/-- A token is not empty, and so it leaves less of the text. -/
theorem next_length_lt {lexer after : Lexer} {expected : List (Pattern E)}
    {token : Token (Pattern E)}
    (h : lexer.next expected = (.ok (some token), after)) :
    after.rest.length < lexer.rest.length := by
  have le := lexer.length_rest_skipBlanks_le
  dsimp only [next] at h
  split at h
  · simp at h
  · rename_i nonempty
    split at h
    · simp at h
    · split at h
      · simp at h
      · rename_i pos
        obtain rfl : _ = after := congrArg Prod.snd h
        exact Nat.lt_of_lt_of_le (length_rest_pass_lt (by simpa using nonempty) pos) le

/-- The tokens that the lexer reads as one pattern each. -/
def tokenizer : Tokenizer (Pattern E) Lexer where
  scan := scan
  remaining lexer := lexer.rest.length
  remaining_lt := by
    intro lexer expected answer after h
    unfold scan at h
    split at h
    · rename_i token place eq
      obtain rfl : place = after := congrArg Prod.snd h
      exact next_length_lt eq
    · simp at h
    · simp at h

/-- The next token, with the choice of how to read it left to the parser. -/
def bareScan (lexer : Lexer) (expected : List (Pattern E)) :
    Except (ParseError (Pattern E)) (Option (Scan (Pattern E))) × Lexer :=
  match lexer.next expected with
  | (.ok (some token), after) => (.ok (some { token }), after)
  | (.ok none, after) => (.ok none, after)
  | (.error error, after) => (.error error, after)

/-- The tokens of the lexer, with the choice of how to read them left to the parser. -/
def bareTokenizer : Tokenizer (Pattern E) Lexer where
  scan := bareScan
  remaining lexer := lexer.rest.length
  remaining_lt := by
    intro lexer expected answer after h
    unfold bareScan at h
    split at h
    · rename_i token place eq
      obtain rfl : place = after := congrArg Prod.snd h
      exact next_length_lt eq
    · simp at h
    · simp at h

end Lexer

end Earley
