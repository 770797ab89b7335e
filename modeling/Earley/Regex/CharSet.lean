import Earley.Unicode.Blank
import Earley.Unicode.CaseFold
import Earley.Unicode.Digit
import Earley.Unicode.Word

/-!
# Regex/CharSet — sets of characters as they are written in classes

A set of characters is kept as the expression that describes it: ranges and Unicode properties
joined by the set operations.  Membership follows the expression.
-/

namespace Earley

/-- Descriptions of sets of characters. -/
inductive CharSet where
  /-- The characters from `first` to `last`. -/
  | range (first last : Char)
  /-- The decimal digits of every script. -/
  | digit
  /-- The word characters of every script. -/
  | word
  /-- The blank characters of every script. -/
  | blank
  | none
  | union (s t : CharSet)
  | inter (s t : CharSet)
  | diff (s t : CharSet)
  | symmDiff (s t : CharSet)
  | compl (s : CharSet)
  /-- The characters with a case variant in `s`. -/
  | folded (s : CharSet)
  deriving DecidableEq

namespace CharSet

/-- **Membership** in the set described. -/
def contains : CharSet → Char → Bool
  | range first last, c => first ≤ c && c ≤ last
  | digit, c => Unicode.isDecimalDigit c
  | word, c => Unicode.isWord c
  | blank, c => Unicode.isBlank c
  | none, _ => false
  | union s t, c => s.contains c || t.contains c
  | inter s t, c => s.contains c && t.contains c
  | diff s t, c => s.contains c && !t.contains c
  | symmDiff s t, c => s.contains c != t.contains c
  | compl s, c => !s.contains c
  | folded s, c => (Unicode.caseVariants c).any s.contains

/-- The set of one character. -/
def single (c : Char) : CharSet := range c c

/-- The set of all characters. -/
def all : CharSet := compl none

/-- The union of sets. -/
def ofList (sets : List CharSet) : CharSet := sets.foldl union none

/-- The classes of ASCII characters with a name. -/
def ofAsciiName? : String → Option CharSet
  | "alnum" => some (ofList [range '0' '9', range 'A' 'Z', range 'a' 'z'])
  | "alpha" => some (ofList [range 'A' 'Z', range 'a' 'z'])
  | "ascii" => some (range '\x00' '\x7F')
  | "blank" => some (ofList [single '\t', single ' '])
  | "cntrl" => some (ofList [range '\x00' '\x1F', single '\x7F'])
  | "digit" => some (range '0' '9')
  | "graph" => some (range '!' '~')
  | "lower" => some (range 'a' 'z')
  | "print" => some (range ' ' '~')
  | "punct" => some (ofList [range '!' '/', range ':' '@', range '[' '\x60', range '\x7b' '~'])
  | "space" => some (ofList [range '\t' '\r', single ' '])
  | "upper" => some (range 'A' 'Z')
  | "word" => some (ofList [range '0' '9', range 'A' 'Z', single '_', range 'a' 'z'])
  | "xdigit" => some (ofList [range '0' '9', range 'A' 'F', range 'a' 'f'])
  | _ => Option.none

end CharSet

end Earley
