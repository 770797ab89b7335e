import Earley.Text.Quoted

/-!
# Symbol — what the right-hand side of a production is made of

A symbol is a terminal of some kind `κ`, which stands over one token, or a nonterminal, which stands
for the productions of its name.  The kinds of terminal are left open: plain words
(`Symbol String`) and patterns (`Symbol Pattern`) are the two in use.
-/

namespace Earley

universe u

/-- A terminal kind or the name of a nonterminal. -/
inductive Symbol (κ : Type u) where
  | terminal (kind : κ)
  | nonterminal (name : String)
  deriving DecidableEq

/-- Kinds of terminal with a written form. -/
class Terminal (κ : Type u) where
  /-- The written form of a kind. -/
  label : κ → String

/-- A word is written between quotes. -/
instance : Terminal String := ⟨Text.quoted⟩

namespace Symbol

variable {κ : Type u}

/-- The kind of a terminal. -/
def kind? : Symbol κ → Option κ
  | terminal kind => some kind
  | nonterminal _ => none

/-- The name of a nonterminal. -/
def name? : Symbol κ → Option String
  | terminal _ => none
  | nonterminal name => some name

/-- Whether the symbol is a terminal. -/
def isTerminal : Symbol κ → Bool
  | terminal _ => true
  | nonterminal _ => false

/-- A nonterminal is written as its bare name. -/
def label [Terminal κ] : Symbol κ → String
  | terminal kind => Terminal.label kind
  | nonterminal name => name

end Symbol

end Earley
