import Earley.Regex.Basic

/-!
# Regex/Class — reading escapes and bracketed classes

An escape stands for a character, a set of characters or a condition on the place.  A class is read
with a stack: an opened class waits for its end, a set operation for its right operand.  The set
operations have no precedence and group to the left.
-/

namespace Earley.Regex

/-! ## Flags -/

/-- How the letters of an expression are read. -/
structure Flags where
  /-- A letter stands for all of its case variants. -/
  ignoreCase : Bool := false
  /-- The line anchors match at every line. -/
  multiLine : Bool := false
  /-- The dot matches the end of a line. -/
  dotAll : Bool := false
  /-- Repetitions are lazy, and greedy with a question mark. -/
  swapGreed : Bool := false
  /-- Blanks and comments are skipped. -/
  skipBlanks : Bool := false
  /-- A carriage return ends a line, too. -/
  crlf : Bool := false
  deriving DecidableEq

/-- Drops blanks and comments; `comment` tells whether one is being read. -/
def dropBlanks (comment : Bool) : List Char → List Char
  | [] => []
  | c :: rest =>
    if comment then dropBlanks (c != '\n') rest
    else if c = '#' then dropBlanks true rest
    else if Unicode.isBlank c then dropBlanks false rest
    else c :: rest

namespace Flags

/-- Drops blanks and comments where they do not count. -/
def skip (flags : Flags) (rest : List Char) : List Char :=
  if flags.skipBlanks then dropBlanks false rest else rest

/-- The set that a set stands for. -/
def fold (flags : Flags) (set : CharSet) : CharSet :=
  if flags.ignoreCase then .folded set else set

end Flags

/-! ## Escapes -/

/-- What an escape stands for. -/
inductive Escape where
  | char (c : Char)
  | chars (set : CharSet)
  | look (condition : Look)
  deriving DecidableEq

/-- The value of a hexadecimal digit. -/
def hexValue? (c : Char) : Option Nat :=
  if '0' ≤ c && c ≤ '9' then some (c.toNat - '0'.toNat)
  else if 'a' ≤ c && c ≤ 'f' then some (c.toNat - 'a'.toNat + 10)
  else if 'A' ≤ c && c ≤ 'F' then some (c.toNat - 'A'.toNat + 10)
  else none

/-- The character with a code point in hexadecimal digits. -/
def hexChar? (digits : List Char) : Option Char := do
  let values ← digits.mapM hexValue?
  let code := values.foldl (fun code value => 16 * code + value) 0
  if digits.isEmpty || !Nat.isValidChar code then none else some (Char.ofNat code)

/-- Reads a code point of `width` digits, or one of any width between braces. -/
def readHex (width : Nat) : List Char → Option (Char × List Char)
  | '\x7b' :: rest =>
    match rest.dropWhile (· != '\x7d') with
    | [] => none
    | _ :: after => (hexChar? (rest.takeWhile (· != '\x7d'))).map (·, after)
  | rest =>
    if rest.length < width then none
    else (hexChar? (rest.take width)).map (·, rest.drop width)

/-- The characters with a property, for the properties that the library has tables of. -/
def property? (name : List Char) : Option CharSet :=
  let plain := (name.filter fun c => !(c == ' ' || c == '_' || c == '-')).map Char.toLower
  match String.ofList plain with
  | "whitespace" | "space" | "wspace" => some .blank
  | "nd" | "decimalnumber" | "digit" => some .digit
  | "any" => some .all
  | "ascii" => some (.range '\x00' '\x7F')
  | _ => none

/-- Reads the name of a property between braces.  A negated property has the characters of which no
case variant has the property. -/
def readProperty (flags : Flags) (negated : Bool) : List Char → Option (CharSet × List Char)
  | '\x7b' :: rest =>
    match rest.dropWhile (· != '\x7d') with
    | [] => none
    | _ :: after =>
      let name := rest.takeWhile (· != '\x7d')
      let inverted := name.head? == some '^'
      (property? (if inverted then name.drop 1 else name)).map fun set =>
        (if negated != inverted then .compl (flags.fold set) else flags.fold set, after)
  | _ => none

/-- The condition that a word in braces behind a word boundary names. -/
def boundary? : String → Option Look
  | "start" => some .wordStart
  | "end" => some .wordEnd
  | "start-half" => some .wordStartHalf
  | "end-half" => some .wordEndHalf
  | _ => none

/-- Reads what follows a word boundary.  Braces around anything that does not begin with a letter or
a hyphen are left to the repetition. -/
def readBoundary : List Char → Option (Escape × List Char)
  | '\x7b' :: c :: rest =>
    let isNameChar (c : Char) : Bool := c.isAlpha || c == '-'
    if isNameChar c then
      match (c :: rest).dropWhile isNameChar with
      | '\x7d' :: after =>
        (boundary? (String.ofList ((c :: rest).takeWhile isNameChar))).map fun condition =>
          (.look condition, after)
      | _ => none
    else some (.look .wordBoundary, '\x7b' :: c :: rest)
  | ['\x7b'] => none
  | rest => some (.look .wordBoundary, rest)

/-- Whether a backslash before `c` leaves the character as it is. -/
def isEscapable (c : Char) : Bool :=
  c.toNat < 0x80 && !c.isAlphanum && c != '<' && c != '>'

/-- Reads an escape behind its backslash. -/
def readEscape (flags : Flags) : List Char → Option (Escape × List Char)
  | [] => none
  | 'x' :: rest => (readHex 2 rest).map fun (c, rest) => (.char c, rest)
  | 'u' :: rest => (readHex 4 rest).map fun (c, rest) => (.char c, rest)
  | 'U' :: rest => (readHex 8 rest).map fun (c, rest) => (.char c, rest)
  | 'p' :: rest => (readProperty flags false rest).map fun (set, rest) => (.chars set, rest)
  | 'P' :: rest => (readProperty flags true rest).map fun (set, rest) => (.chars set, rest)
  | 'd' :: rest => some (.chars .digit, rest)
  | 's' :: rest => some (.chars .blank, rest)
  | 'w' :: rest => some (.chars .word, rest)
  | 'D' :: rest => some (.chars (.compl .digit), rest)
  | 'S' :: rest => some (.chars (.compl .blank), rest)
  | 'W' :: rest => some (.chars (.compl .word), rest)
  | 'a' :: rest => some (.char '\x07', rest)
  | 'f' :: rest => some (.char '\x0C', rest)
  | 't' :: rest => some (.char '\t', rest)
  | 'n' :: rest => some (.char '\n', rest)
  | 'r' :: rest => some (.char '\r', rest)
  | 'v' :: rest => some (.char '\x0B', rest)
  | 'A' :: rest => some (.look .textStart, rest)
  | 'z' :: rest => some (.look .textEnd, rest)
  | 'b' :: rest => readBoundary rest
  | 'B' :: rest => some (.look .noWordBoundary, rest)
  | '<' :: rest => some (.look .wordStart, rest)
  | '>' :: rest => some (.look .wordEnd, rest)
  | c :: rest => if isEscapable c then some (.char c, rest) else none

/-! ## Bracketed classes -/

/-- The operations between sets. -/
inductive SetOp where
  | inter
  | diff
  | symmDiff
  deriving DecidableEq

/-- Reads a set operation, a sign written twice. -/
def readSetOp? : List Char → Option (SetOp × List Char)
  | '&' :: '&' :: rest => some (.inter, rest)
  | '-' :: '-' :: rest => some (.diff, rest)
  | '~' :: '~' :: rest => some (.symmDiff, rest)
  | _ => none

/-- The result of an operation on two sets. -/
def SetOp.apply (flags : Flags) (s t : CharSet) : SetOp → CharSet
  | inter => .inter (flags.fold s) (flags.fold t)
  | diff => .diff (flags.fold s) (flags.fold t)
  | symmDiff => .symmDiff (flags.fold s) (flags.fold t)

/-- What waits while a class is read. -/
inductive ClassFrame where
  /-- A class was opened; `outer` is what the class around it holds so far. -/
  | opened (outer : CharSet) (negated : Bool)
  /-- An operation has its left operand. -/
  | operand (op : SetOp) (left : CharSet)

/-- The operands on top of the stack joined with the last one. -/
def joinOperand (flags : Flags) (right : CharSet) :
    List ClassFrame → CharSet × List ClassFrame
  | .operand op left :: frames => (op.apply flags left right, frames)
  | frames => (right, frames)

/-- Reads the head of a class behind its bracket: whether it is negated, and the characters that are
literal at its beginning. -/
def readClassHead (flags : Flags) (rest : List Char) : Bool × CharSet × List Char :=
  let rest := flags.skip rest
  let negated := rest.head? == some '^'
  let rest := if negated then flags.skip (rest.drop 1) else rest
  let rec hyphens (set : CharSet) (fuel : Nat) (rest : List Char) : CharSet × List Char :=
    match fuel, rest with
    | fuel + 1, '-' :: rest => hyphens (.single '-') fuel (flags.skip rest)
    | _, rest => (set, rest)
  match hyphens .none rest.length rest with
  | (.none, ']' :: rest) => (negated, .single ']', flags.skip rest)
  | (set, rest) => (negated, set, rest)

/-- Reads the name of an ASCII class behind its bracket, as in `[:alpha:]`.  A negated class has the
characters of which no case variant is in the class. -/
def readAsciiClass? (flags : Flags) : List Char → Option (CharSet × List Char)
  | ':' :: rest =>
    let negated := rest.head? == some '^'
    let rest := if negated then rest.drop 1 else rest
    match rest.dropWhile (· != ':') with
    | ':' :: ']' :: after =>
      (CharSet.ofAsciiName? (String.ofList (rest.takeWhile (· != ':')))).map fun set =>
        (if negated then .compl (flags.fold set) else flags.fold set, after)
    | _ => none
  | _ => none

/-- Reads a character or an escape in a class. -/
def readClassItem (flags : Flags) : List Char → Option (Escape × List Char)
  | [] => none
  | '\\' :: rest => readEscape flags rest
  | c :: rest => some (.char c, rest)

/-- Reads an item of a class or a range between two characters. -/
def readClassRange (flags : Flags) (rest : List Char) : Option (CharSet × List Char) := do
  let (first, rest) ← readClassItem flags rest
  let rest := flags.skip rest
  let single : Option (CharSet × List Char) := match first with
    | .char c => some (.single c, rest)
    | .chars set => some (set, rest)
    | .look _ => none
  match rest with
  | [] => none
  | '-' :: after =>
    match flags.skip after with
    | ']' :: _ | '-' :: _ => single
    | after =>
      let (last, after) ← readClassItem flags after
      match first, last with
      | .char low, .char high => if low ≤ high then some (.range low high, after) else none
      | _, _ => none
  | _ => single

/-- Reads a class to its end: `here` is what the innermost opened class holds since its last
operation. -/
def readClass (flags : Flags) :
    Nat → List ClassFrame → CharSet → List Char → Option (CharSet × List Char)
  | 0, _, _, _ => none
  | fuel + 1, frames, here, rest =>
    match flags.skip rest with
    | [] => none
    | '[' :: rest =>
      match readAsciiClass? flags rest with
      | some (set, rest) => readClass flags fuel frames (.union here set) rest
      | none =>
        let (negated, set, rest) := readClassHead flags rest
        readClass flags fuel (.opened here negated :: frames) set rest
    | ']' :: rest =>
      match joinOperand flags here frames with
      | (set, .opened outer negated :: frames) =>
        let set := if negated then .compl (flags.fold set) else flags.fold set
        if frames.isEmpty then some (set, rest)
        else readClass flags fuel frames (.union outer set) rest
      | _ => none
    | rest =>
      match readSetOp? rest with
      | some (op, rest) =>
        let (left, frames) := joinOperand flags here frames
        readClass flags fuel (.operand op left :: frames) .none rest
      | none =>
        match readClassRange flags rest with
        | some (set, rest) => readClass flags fuel frames (.union here set) rest
        | none => none

/-- Reads a bracketed class behind its bracket. -/
def readBracketed (flags : Flags) (rest : List Char) : Option (CharSet × List Char) :=
  let (negated, set, rest) := readClassHead flags rest
  readClass flags (rest.length + 1) [.opened .none negated] set rest

end Earley.Regex
