import Earley.Forest.Count
import Earley.Forest.Evaluate
import Earley.Regex.Engine
import Earley.TextParse

/-!
# RuleText/Reading — a rule as it is written

A rule is a name, an arrow and alternatives between bars.  An alternative is a sequence of symbols,
possibly empty: a name stands for a nonterminal, a text between single or double quotes for a
literal, a text between slashes for a regular expression.  Inside quotes a backslash keeps the
character behind it; between slashes it only does so before a slash and is otherwise left to the
regular expression.

The language of rules is itself given by a grammar over patterns, and rules are read by parsing.
The regular expressions in this grammar are those of the standard engine.  The ones that a rule
contains are left as they are written.
-/

namespace Earley.RuleText

/-! ## Decoding quoted texts -/

/-- The characters between the first and the last one. -/
def inside (text : List Char) : List Char := (text.drop 1).dropLast

/-- Drops each backslash and keeps the character behind it. -/
def unescape : List Char → List Char
  | [] => []
  | ['\\'] => []
  | '\\' :: c :: rest => c :: unescape rest
  | c :: rest => c :: unescape rest

/-- Drops the backslash of each escaped slash and keeps all other escapes. -/
def unescapeSlashes : List Char → List Char
  | [] => []
  | ['\\'] => ['\\']
  | '\\' :: c :: rest =>
    if c = '/' then '/' :: unescapeSlashes rest else '\\' :: c :: unescapeSlashes rest
  | c :: rest => c :: unescapeSlashes rest

/-- The text of a quoted literal. -/
def unquote (text : String) : String := String.ofList (unescape (inside text.toList))

/-- The source of a regular expression between slashes. -/
def unslash (text : String) : String := String.ofList (unescapeSlashes (inside text.toList))

/-! ## The grammar of rules -/

/-- A symbol as it is written in a rule. -/
inductive Atom where
  | name (text : String)
  | literal (text : String)
  | regex (source : String)
  deriving DecidableEq

/-- What the parts of a rule stand for. -/
inductive Phrase where
  | nothing
  | text (text : String)
  | atom (atom : Atom)
  | sequence (atoms : List Atom)
  | alternatives (sequences : List (List Atom))
  | rule (name : String) (sequences : List (List Atom))
  deriving DecidableEq

/-- The names of rules and nonterminals. -/
def identifier : Pattern .standard := .ofSource "[a-zA-Z_][a-zA-Z0-9_]*"

/-- Texts between double quotes. -/
def doubleQuoted : Pattern .standard := .ofSource "\"(?:[^\"\\\\]|\\\\.)*\""

/-- Texts between single quotes. -/
def singleQuoted : Pattern .standard := .ofSource "'(?:[^'\\\\]|\\\\.)*'"

/-- Regular expressions between slashes. -/
def slashed : Pattern .standard := .ofSource "/(?:[^/\\\\]|\\\\.)*/"

/-- The productions of the language of rules with the meaning of each. -/
def rules : List (Production (Pattern .standard) × (List Phrase → Phrase)) := [
  (⟨"rule", [.terminal identifier, .terminal (.literal "->"), .nonterminal "alts"]⟩, fun
    | [.text name, _, .alternatives sequences] => .rule name sequences
    | _ => .nothing),
  (⟨"alts", [.nonterminal "alts", .terminal (.literal "|"), .nonterminal "seq"]⟩, fun
    | [.alternatives sequences, _, .sequence atoms] => .alternatives (sequences ++ [atoms])
    | _ => .nothing),
  (⟨"alts", [.nonterminal "seq"]⟩, fun
    | [.sequence atoms] => .alternatives [atoms]
    | _ => .nothing),
  (⟨"seq", [.nonterminal "seq", .nonterminal "sym"]⟩, fun
    | [.sequence atoms, .atom atom] => .sequence (atoms ++ [atom])
    | _ => .nothing),
  (⟨"seq", []⟩, fun _ => .sequence []),
  (⟨"sym", [.terminal identifier]⟩, fun
    | [.text text] => .atom (.name text)
    | _ => .nothing),
  (⟨"sym", [.terminal doubleQuoted]⟩, fun
    | [.text text] => .atom (.literal (unquote text))
    | _ => .nothing),
  (⟨"sym", [.terminal singleQuoted]⟩, fun
    | [.text text] => .atom (.literal (unquote text))
    | _ => .nothing),
  (⟨"sym", [.terminal slashed]⟩, fun
    | [.text text] => .atom (.regex (unslash text))
    | _ => .nothing)]

/-- The grammar of rules. -/
def grammar : Grammar (Pattern .standard) := .ofList "rule" (rules.map Prod.fst)

/-- The meaning of rules. -/
def semantics : Semantics (Pattern .standard) Phrase where
  leaf token := .text token.text
  reduce id args := (rules[id]?.map fun rule => rule.2 args).getD .nothing

/-! ## Reading a rule -/

/-- Why a rule cannot be read, where an engine compiles its regular expressions. -/
inductive Fault (E : Engine) where
  /-- No token of a rule stands where one should. -/
  | notRead (error : ParseError (Pattern .standard))
  /-- The rule ends too early. -/
  | incomplete
  /-- The rule has several readings. -/
  | ambiguous
  /-- The engine refuses a regular expression. -/
  | badRegex (refusal : E.Refusal)
  /-- There are alternatives where one production is asked for. -/
  | severalAlternatives
  deriving DecidableEq

/-- A fault in the rule on a line. -/
structure RuleError (E : Engine) where
  line : Nat
  fault : Fault E
  deriving DecidableEq

variable {E : Engine}

/-- The message for the reader of a fault. -/
def Fault.message : Fault E → String
  | notRead error => error.message
  | incomplete => "incomplete rule"
  | ambiguous => "ambiguous rule"
  | badRegex _ => "bad regex"
  | severalAlternatives => "expected a single production"

/-- The message for the reader of an error. -/
def RuleError.message (error : RuleError E) : String :=
  "line " ++ toString error.line ++ ": " ++ error.fault.message

/-- **Reading a rule**: its name and its alternatives. -/
def readRule (E : Engine) (text : String) : Except (Fault E) (String × List (List Atom)) :=
  match grammar.parse text with
  | .error error => .error (.notRead error)
  | .ok forest =>
    match forest.roots with
    | [] => .error .incomplete
    | [root] =>
      if forest.count root = some 1 then
        match forest.accept semantics root with
        | some (.rule name sequences) => .ok (name, sequences)
        | _ => .error .ambiguous
      else .error .ambiguous
    | _ => .error .ambiguous

end Earley.RuleText
