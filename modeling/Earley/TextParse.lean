import Earley.Forest.Extract
import Earley.Lexer

/-!
# TextParse — parsing texts by patterns

A grammar over patterns reads a text with the lexer: at every place the lexer is told which patterns
may follow.
-/

namespace Earley

variable {E : Engine}

/-- The course of reading a text. -/
def Grammar.run (g : Grammar (Pattern E)) (text : String) : Run (Pattern E) Lexer :=
  recognize g Lexer.tokenizer Pattern.accepts (.ofString text)

/-- **The forest** of a text. -/
def Grammar.parse (g : Grammar (Pattern E)) (text : String) :
    Except (ParseError (Pattern E)) (Forest (Pattern E)) :=
  (g.run text).forest g

end Earley
