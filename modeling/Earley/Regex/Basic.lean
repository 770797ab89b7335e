import Earley.Regex.CharSet

/-!
# Regex/Basic — regular expressions and the places where they match

A regular expression is read from a cursor in a text and leads to cursors further on; `ends` lists
them in the order of preference.  The first alternative is preferred to the second, a greedy
repetition prefers to go on and a lazy one to stop.  A cursor that is reached in several ways is
listed once, at its best place, and so the work stays polynomial in the length of the text.

Repetitions may go round without reading a character, and so the same choice may come up again at
the same place.  It is not made twice: whoever asks for the order of preference starts from a cursor
that remembers the choices passed since the last character, and a way that comes back to one of them
is given up.  Where only the existence of a match counts, nothing is remembered.
-/

namespace Earley

/-- Conditions on a place between two characters. -/
inductive Look where
  | textStart
  | textEnd
  /-- At the beginning or behind the end of a line; with `crlf` a carriage return ends a line, too,
  but not between it and a line feed. -/
  | lineStart (crlf : Bool)
  | lineEnd (crlf : Bool)
  | wordBoundary
  | noWordBoundary
  | wordStart
  | wordEnd
  | wordStartHalf
  | wordEndHalf
  deriving DecidableEq

/-- Regular expressions. -/
inductive Regex where
  /-- The empty text. -/
  | empty
  /-- One character of a set. -/
  | oneOf (chars : CharSet)
  /-- The empty text at a place that meets a condition. -/
  | look (condition : Look)
  | seq (first second : Regex)
  /-- One of two expressions, `first` preferred. -/
  | alt (first second : Regex)
  /-- One or more rounds, as many as possible if greedy and as few as possible otherwise. -/
  | plus (body : Regex) (greedy : Bool)
  /-- Any number of rounds of a body that always reads a character. -/
  | loop (body : Regex) (greedy : Bool)
  deriving DecidableEq

/-- Where a choice stands in an expression. -/
abbrev Address := List Nat

/-- A place in a text: its position, the character before it and the characters behind it, and, if
they are remembered, the choices passed there. -/
structure Cursor where
  pos : Nat
  before : Option Char
  rest : List Char
  passed : Option (List Address) := none
  deriving DecidableEq

namespace Cursor

/-- The cursor behind the next character, if that is in `chars`. -/
def step (chars : CharSet) (c : Cursor) : List Cursor :=
  match c.rest with
  | [] => []
  | x :: rest =>
    if chars.contains x then [⟨c.pos + 1, some x, rest, c.passed.map fun _ => []⟩] else []

/-- The cursor past a choice, unless it was passed there before. -/
def pass? (address : Address) (c : Cursor) : Option Cursor :=
  match c.passed with
  | none => some c
  | some passed =>
    if address ∈ passed then none else some { c with passed := some (address :: passed) }

/-- Whether a cursor stands at the position of one of `others`. -/
def among (c : Cursor) (others : List Cursor) : Bool := others.any fun d => d.pos = c.pos

/-- The cursors of a list, each position at its first place. -/
def distinct : List Cursor → List Cursor
  | [] => []
  | c :: cs => c :: (distinct cs).filter fun d => d.pos ≠ c.pos

end Cursor

/-- Whether a condition holds at a cursor. -/
def Look.holds (c : Cursor) : Look → Bool
  | textStart => c.before.isNone
  | textEnd => c.rest.isEmpty
  | lineStart crlf => c.before.all fun x =>
      x == '\n' || (crlf && x == '\r' && c.rest.head? != some '\n')
  | lineEnd crlf => c.rest.head?.all fun x =>
      if crlf then x == '\r' || (x == '\n' && c.before != some '\r') else x == '\n'
  | wordBoundary => wordBefore != wordBehind
  | noWordBoundary => wordBefore == wordBehind
  | wordStart => !wordBefore && wordBehind
  | wordEnd => wordBefore && !wordBehind
  | wordStartHalf => !wordBefore
  | wordEndHalf => !wordBehind
where
  /-- Whether a word character stands before the cursor. -/
  wordBefore : Bool := c.before.any Unicode.isWord
  /-- Whether a word character stands behind the cursor. -/
  wordBehind : Bool := c.rest.head?.any Unicode.isWord

namespace Regex

/-- Adds to `found` the cursors reached from `c` by any number of rounds, `c` itself included.
Every round moves on, so that there are no more rounds than characters. -/
def rounds (body : Cursor → List Cursor) (address : Address) (greedy : Bool) :
    Nat → List Cursor → Cursor → List Cursor
  | 0, found, _ => found
  | steps + 1, found, c =>
    if c.among found then found
    else
      match c.pass? address with
      | none => found
      | some c =>
        let further := (body c).filter fun d => c.pos < d.pos
        if greedy then further.foldl (rounds body address greedy steps) found ++ [c]
        else further.foldl (rounds body address greedy steps) (found ++ [c])

/-- Adds to `found` the cursors reached from `d`, the end of a first round from `c`.  After an empty
round there is no other. -/
def roundsAfter (body : Cursor → List Cursor) (address : Address) (greedy : Bool) (c : Cursor)
    (found : List Cursor) (d : Cursor) : List Cursor :=
  if d.pos ≤ c.pos then
    if d.among found then found else found ++ (d.pass? address).toList
  else rounds body address greedy (d.rest.length + 1) found d

/-- **The ends** of a regular expression from a cursor, best first. -/
def ends : Regex → Address → Cursor → List Cursor
  | empty, _, c => [c]
  | oneOf chars, _, c => c.step chars
  | look condition, _, c => if condition.holds c then [c] else []
  | seq first second, address, c =>
    Cursor.distinct ((first.ends (0 :: address) c).flatMap (second.ends (1 :: address)))
  | alt first second, address, c =>
    match c.pass? address with
    | none => []
    | some c => Cursor.distinct (first.ends (0 :: address) c ++ second.ends (1 :: address) c)
  | plus body greedy, address, c =>
    let body := body.ends (0 :: address)
    (body c).foldl (roundsAfter body address greedy c) []
  | loop body greedy, address, c =>
    rounds (body.ends (0 :: address)) address greedy (c.rest.length + 1) [] c

/-- The best end of the first match that begins at a position or behind it. -/
def findFrom (r : Regex) (passed : Option (List Address)) (pos : Nat) (before : Option Char) :
    List Char → Option Cursor
  | [] => (r.ends [] ⟨pos, before, [], passed⟩).head?
  | x :: rest =>
    match (r.ends [] ⟨pos, before, x :: rest, passed⟩).head? with
    | some found => some found
    | none => r.findFrom passed (pos + 1) (some x) rest

/-- **The first match** in a text: the best end of the match that begins first. -/
def find? (r : Regex) (text : List Char) : Option Cursor := r.findFrom (some []) 0 none text

/-- Whether there is a match in a text. -/
def isMatch (r : Regex) (text : List Char) : Bool := (r.findFrom none 0 none text).isSome

/-- Whether an expression may match the empty text, as far as its form tells. -/
def isNullable : Regex → Bool
  | empty => true
  | oneOf _ => false
  | look _ => true
  | seq first second => first.isNullable && second.isNullable
  | alt first second => first.isNullable || second.isNullable
  | plus body _ => body.isNullable
  | loop _ _ => true

/-! ## Derived forms -/

/-- The alternative that a repetition prefers: `more` if greedy, the empty text otherwise. -/
def orEmpty (more : Regex) (greedy : Bool) : Regex :=
  if greedy then alt more empty else alt empty more

/-- Any number of rounds. -/
def star (body : Regex) (greedy : Bool) : Regex :=
  if body.isNullable then orEmpty (plus body greedy) greedy else loop body greedy

/-- Expressions one after the other. -/
def seqAll : List Regex → Regex
  | [] => empty
  | r :: rs => rs.foldl seq r

/-- One of several expressions, the first preferred. -/
def altAll : List Regex → Regex
  | [] => empty
  | [r] => r
  | r :: rs => alt r (altAll rs)

/-- Exactly `count` rounds. -/
def exactly (body : Regex) (count : Nat) : Regex := seqAll (List.replicate count body)

/-- Up to `count` rounds. -/
def upTo (body : Regex) (greedy : Bool) : Nat → Regex
  | 0 => empty
  | count + 1 => orEmpty (if count = 0 then body else seq body (upTo body greedy count)) greedy

/-- At least `count` rounds. -/
def atLeast (body : Regex) (greedy : Bool) : Nat → Regex
  | 0 => star body greedy
  | 1 => plus body greedy
  | count + 2 => seq (exactly body (count + 1)) (plus body greedy)

/-- From `least` to `most` rounds. -/
def between (body : Regex) (greedy : Bool) (least most : Nat) : Regex :=
  if least = 0 then upTo body greedy most
  else if most ≤ least then exactly body least
  else seq (exactly body least) (upTo body greedy (most - least))

/-- The number of nodes of an expression. -/
def size : Regex → Nat
  | empty => 1
  | oneOf _ => 1
  | look _ => 1
  | seq first second => first.size + second.size + 1
  | alt first second => first.size + second.size + 1
  | plus body _ => body.size + 1
  | loop body _ => body.size + 1

end Regex

end Earley
