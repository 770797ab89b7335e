/-!
# Engine — what is asked of regular expressions

How regular expressions are read and searched for is left open.  An engine compiles a source or
refuses it, and answers two questions about what it has compiled: where the first match in a text
ends, and whether there is a match at all.  Texts are counted in bytes there, and a match ends
between two characters of its text.
-/

namespace Earley

/-- The number of bytes that characters take up in UTF-8. -/
def byteLength (text : List Char) : Nat := (text.map Char.utf8Size).foldr (· + ·) 0

/-- The number of characters that the first bytes of a text belong to. -/
def charCount : List Char → Nat → Nat
  | [], _ => 0
  | c :: rest, bytes => if bytes = 0 then 0 else charCount rest (bytes - c.utf8Size) + 1

/-- **An engine for regular expressions.** -/
structure Engine where
  /-- What a source is compiled to. -/
  Expr : Type
  /-- Why a source is refused. -/
  Refusal : Type
  [decEqRefusal : DecidableEq Refusal]
  /-- The expression with a source. -/
  compile : List Char → Except Refusal Expr
  /-- The end of the first match in a text, in bytes. -/
  findEnd? : Expr → List Char → Option Nat
  /-- Whether there is a match in a text. -/
  isMatch : Expr → List Char → Bool
  /-- A match ends within its text and between two of its characters. -/
  findEnd?_boundary : ∀ {expr text stop}, findEnd? expr text = some stop →
    ∃ count ≤ text.length, byteLength (text.take count) = stop

attribute [instance] Engine.decEqRefusal

end Earley
