import Earley.Regex.Class

/-!
# Regex/Read — reading regular expressions

An expression is read from left to right with a stack of the groups that are open.  A group holds
the alternatives that are finished and the items of the one being read; flags that are set inside it
end with it.  There is no expression for a text that is not well formed.

Groups are not captured, but their names are checked.  Lookaround and references to groups are
refused, and so are expressions that would become too large.  This is less than other engines read:
there are tables of few properties, expressions are always on characters and never on bytes, and the
bound on the size is one of this reader.
-/

namespace Earley.Regex

/-- The largest size of an expression. -/
def sizeLimit : Nat := 40000

/-- A group that is open: the flags around it, its finished alternatives and the items of the last
one, both in reverse.  A setting of flags is an item that cannot be repeated. -/
structure Group where
  outerFlags : Flags := {}
  finished : List Regex := []
  items : List (Option Regex) := []

namespace Group

/-- The alternative being read. -/
def sequence (group : Group) : Regex := seqAll (group.items.filterMap id).reverse

/-- The expression of a group at its end. -/
def close (group : Group) : Regex := altAll (group.sequence :: group.finished).reverse

/-- Appends an item. -/
def push (group : Group) (item : Option Regex) : Group :=
  { group with items := item :: group.items }

/-- Begins another alternative. -/
def nextAlternative (group : Group) : Group :=
  { group with finished := group.sequence :: group.finished, items := [] }

end Group

/-! ## Flags -/

/-- Sets the flag with a letter. -/
def Flags.set? (flags : Flags) (value : Bool) : Char → Option Flags
  | 'i' => some { flags with ignoreCase := value }
  | 'm' => some { flags with multiLine := value }
  | 's' => some { flags with dotAll := value }
  | 'U' => some { flags with swapGreed := value }
  | 'x' => some { flags with skipBlanks := value }
  | 'R' => some { flags with crlf := value }
  | 'u' => if value then some flags else none
  | _ => none

/-- Reads flag letters up to a colon or the end of the group; `seen` are the letters before.  No
letter is set twice, and a hyphen clears those behind it. -/
def readFlags (flags : Flags) (seen : List Char) : List Char → Option (Flags × List Char)
  | [] => none
  | c :: rest =>
    if c == ':' || c == ')' then
      if seen.head? == some '-' then none else some (flags, c :: rest)
    else if c ∈ seen then none
    else if c == '-' then readFlags flags (c :: seen) rest
    else
      match flags.set? (!seen.contains '-') c with
      | some flags => readFlags flags (c :: seen) rest
      | none => none

/-! ## Names of groups -/

/-- Whether `c` may stand in the name of a group. -/
def isNameChar (first : Bool) (c : Char) : Bool :=
  c == '_' || (if first then Unicode.isWord c && !Unicode.isDecimalDigit c
    else Unicode.isWord c || c == '.' || c == '[' || c == ']')

/-- Reads the name of a group up to its closing angle bracket. -/
def readName (names : List (List Char)) (rest : List Char) :
    Option (List Char × List Char) :=
  let name := rest.takeWhile (· != '>')
  let valid : Bool := match name with
    | [] => false
    | c :: cs => isNameChar true c && cs.all (isNameChar false)
  match rest.dropWhile (· != '>') with
  | [] => none
  | _ :: after => if valid && name ∉ names then some (name, after) else none

/-! ## Repetitions -/

/-- Reads a decimal number between blanks. -/
def readNumber (rest : List Char) : Option Nat × List Char :=
  let rest := rest.dropWhile Unicode.isBlank
  let digits := rest.takeWhile Char.isDigit
  let number := digits.foldl (fun n c => 10 * n + (c.toNat - '0'.toNat)) 0
  (if digits.isEmpty || Nat.pow 2 32 ≤ number then none else some number,
    (rest.dropWhile Char.isDigit).dropWhile Unicode.isBlank)

/-- Reads the bounds of a counted repetition behind its brace; no upper bound is `none`. -/
def readBounds (flags : Flags) (rest : List Char) : Option (Nat × Option Nat × List Char) :=
  match readNumber (flags.skip rest) with
  | (some least, '\x7d' :: rest) => some (least, some least, rest)
  | (some least, ',' :: rest) =>
    match flags.skip rest with
    | '\x7d' :: rest => some (least, none, rest)
    | rest =>
      match readNumber rest with
      | (some most, '\x7d' :: rest) => if least ≤ most then some (least, some most, rest) else none
      | _ => none
  | _ => none

/-- Reads the mark of a repetition that is not as greedy as the flags say. -/
def readGreed (flags : Flags) : List Char → Bool × List Char
  | '?' :: rest => (flags.swapGreed, rest)
  | rest => (!flags.swapGreed, rest)

/-- The repetition of an expression between two bounds. -/
def repeated (body : Regex) (greedy : Bool) (least : Nat) : Option Nat → Option Regex
  | none => if body.size * (least + 1) ≤ sizeLimit then some (atLeast body greedy least) else none
  | some most =>
    if body.size * (most + 1) ≤ sizeLimit then some (between body greedy least most) else none

/-! ## Expressions -/

/-- A state of reading: the flags, the innermost open group, the groups around it and the names of
groups so far. -/
structure Reader where
  flags : Flags := {}
  group : Group := {}
  outer : List Group := []
  names : List (List Char) := []

namespace Reader

/-- Appends an expression. -/
def push (reader : Reader) (r : Regex) : Reader :=
  { reader with group := reader.group.push (some r) }

/-- Repeats the last item. -/
def repeatLast (reader : Reader) (greedy : Bool) (least : Nat) (most : Option Nat) :
    Option Reader :=
  match reader.group.items with
  | some body :: items =>
    (repeated body greedy least most).map fun r =>
      { reader with group := { reader.group with items := some r :: items } }
  | _ => none

/-- Opens a group. -/
def openGroup (reader : Reader) : Reader :=
  { reader with group := { outerFlags := reader.flags }, outer := reader.group :: reader.outer }

/-- Closes the innermost group. -/
def closeGroup (reader : Reader) : Option Reader :=
  match reader.outer with
  | [] => none
  | group :: outer =>
    some { reader with
      flags := reader.group.outerFlags
      group := group.push (some reader.group.close)
      outer := outer }

/-- Reads what follows an opening parenthesis. -/
def readOpening (reader : Reader) (rest : List Char) : Option (Reader × List Char) :=
  match rest with
  | '?' :: '=' :: _ | '?' :: '!' :: _ | '?' :: '<' :: '=' :: _ | '?' :: '<' :: '!' :: _ => none
  | '?' :: 'P' :: '<' :: rest | '?' :: '<' :: rest =>
    (readName reader.names rest).map fun (name, rest) =>
      ({ reader.openGroup with names := name :: reader.names }, rest)
  | '?' :: rest =>
    match readFlags reader.flags [] rest with
    | some (flags, ':' :: after) => some ({ reader.openGroup with flags := flags }, after)
    | some (flags, ')' :: after) =>
      if rest.head? == some ')' then none
      else some ({ reader with flags := flags, group := reader.group.push none }, after)
    | _ => none
  | rest => some (reader.openGroup, rest)

/-- The characters that a literal character stands for. -/
def literal (reader : Reader) (c : Char) : Regex := oneOf (reader.flags.fold (.single c))

/-- The characters that the dot stands for. -/
def dot (reader : Reader) : CharSet :=
  if reader.flags.dotAll then .all
  else if reader.flags.crlf then .compl (.union (.single '\r') (.single '\n'))
  else .compl (.single '\n')

/-- Reads an item, an operator or a parenthesis, the first character of which is `c`. -/
def readItem (reader : Reader) (c : Char) (rest : List Char) : Option (Reader × List Char) :=
  let quantified (least : Nat) (most : Option Nat) (rest : List Char) :=
    let (greedy, rest) := readGreed reader.flags rest
    (reader.repeatLast greedy least most).map (·, rest)
  match c with
  | '(' => reader.readOpening (reader.flags.skip rest)
  | ')' => reader.closeGroup.map (·, rest)
  | '|' => some ({ reader with group := reader.group.nextAlternative }, rest)
  | '[' =>
    (readBracketed reader.flags rest).map fun (chars, rest) => (reader.push (oneOf chars), rest)
  | '?' => quantified 0 (some 1) rest
  | '*' => quantified 0 none rest
  | '+' => quantified 1 none rest
  | '\x7b' =>
    match readBounds reader.flags rest with
    | some (least, most, rest) => quantified least most (reader.flags.skip rest)
    | none => none
  | '.' => some (reader.push (oneOf reader.dot), rest)
  | '^' =>
    some (reader.push (look (if reader.flags.multiLine then .lineStart reader.flags.crlf
      else .textStart)), rest)
  | '$' =>
    some (reader.push (look (if reader.flags.multiLine then .lineEnd reader.flags.crlf
      else .textEnd)), rest)
  | '\\' =>
    (readEscape reader.flags rest).map fun (escape, rest) =>
      match escape with
      | .char c => (reader.push (reader.literal c), rest)
      | .chars chars => (reader.push (oneOf chars), rest)
      | .look condition => (reader.push (look condition), rest)
  | c => some (reader.push (reader.literal c), rest)

/-- Reads items to the end; every step reads a character. -/
def readFrom (reader : Reader) : Nat → List Char → Option Regex
  | 0, _ => none
  | steps + 1, rest =>
    match reader.flags.skip rest with
    | [] => if reader.outer.isEmpty then some reader.group.close else none
    | c :: rest =>
      match reader.readItem c rest with
      | some (reader, rest) => reader.readFrom steps rest
      | none => none

end Reader

/-- **Reading** a regular expression. -/
def read? (source : List Char) : Option Regex :=
  let result := Reader.readFrom {} (source.length + 1) source
  result.filter fun r => r.size ≤ sizeLimit

end Earley.Regex
