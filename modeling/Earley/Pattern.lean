import Earley.Engine
import Earley.Symbol

/-!
# Pattern — terminals given by a text or by a regular expression

A pattern stands for a literal text or for the texts that match a regular expression.  It is asked
two questions: whether a whole text matches, and how much of the beginning of a text does.  For a
regular expression these are two searches, with the source of the expression set into a frame that
ties it to the beginning of the text, or to both ends.  The frame goes around the source as a text,
so that a source with an alternative outside of all its parentheses may escape from it.

Two patterns are the same if they are of one sort and have the same source.
-/

namespace Earley

variable {E : Engine}

/-- A source of a regular expression with the two searches made from it. -/
structure Matcher (E : Engine) where
  source : String
  /-- The search for a match at the beginning of a text. -/
  atStart : E.Expr
  /-- The search for a match of a whole text. -/
  whole : E.Expr
  atStart_eq : E.compile ("^(?:".toList ++ source.toList ++ ")".toList) = .ok atStart
  whole_eq : E.compile ("^(?:".toList ++ source.toList ++ ")$".toList) = .ok whole

namespace Matcher

/-- **The matcher of a source**, unless one of the two frames with it is refused. -/
def compile (E : Engine) (source : String) : Except E.Refusal (Matcher E) :=
  match atStart_eq : E.compile ("^(?:".toList ++ source.toList ++ ")".toList) with
  | .error refusal => .error refusal
  | .ok atStart =>
    match whole_eq : E.compile ("^(?:".toList ++ source.toList ++ ")$".toList) with
    | .error refusal => .error refusal
    | .ok whole => .ok ⟨source, atStart, whole, atStart_eq, whole_eq⟩

/-- Matchers are told apart by their sources. -/
theorem ext_source {m n : Matcher E} (h : m.source = n.source) : m = n := by
  obtain ⟨source, atStart, whole, hStart, hWhole⟩ := m
  obtain ⟨source', atStart', whole', hStart', hWhole'⟩ := n
  obtain rfl : source = source' := h
  obtain rfl : atStart = atStart' := Except.ok.inj (hStart.symm.trans hStart')
  obtain rfl : whole = whole' := Except.ok.inj (hWhole.symm.trans hWhole')
  rfl

instance : DecidableEq (Matcher E) := fun m n =>
  if h : m.source = n.source then isTrue (ext_source h)
  else isFalse fun same => h (same ▸ rfl)

end Matcher

/-- A literal text or a regular expression. -/
inductive Pattern (E : Engine) where
  | literal (text : String)
  | regex (matcher : Matcher E)
  deriving DecidableEq

namespace Pattern

/-- **The pattern of a regular expression**, unless the engine refuses it. -/
def compile (E : Engine) (source : String) : Except E.Refusal (Pattern E) :=
  (Matcher.compile E source).map regex

/-- The pattern of a regular expression that the engine is known to compile. -/
def ofSource (source : String)
    (valid : (Matcher.compile E source).toOption.isSome = true := by decide +kernel) : Pattern E :=
  regex ((Matcher.compile E source).toOption.get valid)

/-- The text of a literal, the source of a regular expression. -/
def source : Pattern E → String
  | literal text => text
  | regex matcher => matcher.source

/-- Whether the pattern is a literal text. -/
def isLiteral : Pattern E → Bool
  | literal _ => true
  | regex _ => false

/-- A literal is written between quotes and a regular expression between slashes, both as they
are. -/
instance : Terminal (Pattern E) where
  label
    | literal text => "'" ++ text ++ "'"
    | regex matcher => "/" ++ matcher.source ++ "/"

/-- **Whole matches**: whether a text as a whole is accepted. -/
def accepts (text : String) : Pattern E → Bool
  | literal expected => text = expected
  | regex matcher => E.isMatch matcher.whole text.toList

/-- **Matches at the beginning** of a text: the number of bytes up to the end of the match. -/
def matchEnd? (text : List Char) : Pattern E → Option Nat
  | literal expected =>
    if expected.toList.isPrefixOf text then some (byteLength expected.toList) else none
  | regex matcher => E.findEnd? matcher.atStart text

end Pattern

end Earley
