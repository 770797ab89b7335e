import Earley.Registry
import Earley.RuleText.Reading

/-!
# RuleText/Productions — productions from the text of rules

A text of rules has one rule on each line; every alternative of a rule is a production of its name.
Blank lines and lines that begin with a number sign do not count.  The first rule that cannot be
read is the error of the whole text, so that a grammar gains all productions of a text or none.
-/

namespace Earley.RuleText

/-- The text without the blanks at its ends. -/
def trim (text : List Char) : List Char :=
  ((text.dropWhile Unicode.isBlank).reverse.dropWhile Unicode.isBlank).reverse

/-- The lines of a text. -/
def lines : List Char → List (List Char)
  | [] => [[]]
  | c :: rest =>
    if c = '\n' then [] :: lines rest
    else
      match lines rest with
      | [] => [[c]]
      | line :: others => (c :: line) :: others

/-- Whether a line holds a rule. -/
def isRule (line : List Char) : Bool := !line.isEmpty && line.head? != some '#'

/-- The lines with a rule, trimmed, and their numbers. -/
def ruleLines (text : String) : List (List Char × Nat) :=
  (((lines text.toList).map trim).zipIdx 1).filter fun (line, _) => isRule line

section

variable (E : Engine)

/-- The symbol that an atom stands for. -/
def Atom.symbol : Atom → Except (Fault E) (Symbol (Pattern E))
  | name text => .ok (.nonterminal text)
  | literal text => .ok (.terminal (.literal text))
  | regex source =>
    match Pattern.compile E source with
    | .ok pattern => .ok (.terminal pattern)
    | .error refusal => .error (.badRegex refusal)

/-- The production of a name for one alternative. -/
def productionOf (name : String) (atoms : List Atom) :
    Except (Fault E) (Production (Pattern E)) := do
  return ⟨name, ← atoms.mapM (Atom.symbol E)⟩

/-- The productions of one rule. -/
def ruleProductions (text : String) : Except (Fault E) (List (Production (Pattern E))) := do
  let (name, sequences) ← readRule E text
  sequences.mapM (productionOf E name)

/-- **The productions of a text**, one rule on each line. -/
def productions (text : String) : Except (RuleError E) (List (Production (Pattern E))) := do
  let found ← (ruleLines text).mapM fun (line, number) =>
    (ruleProductions E (String.ofList line)).mapError (⟨number, ·⟩)
  return found.flatten

/-- **The production of a rule** without alternatives. -/
def production (text : String) : Except (RuleError E) (Production (Pattern E)) :=
  Except.mapError (⟨1, ·⟩) do
    let (name, sequences) ← readRule E (String.ofList (trim text.toList))
    match sequences with
    | [atoms] => productionOf E name atoms
    | _ => .error .severalAlternatives

end

end Earley.RuleText

namespace Earley

variable {E : Engine}

/-- Adds the productions of a text, all of them or none. -/
def Grammar.addRules (g : Grammar (Pattern E)) (text : String) :
    Except (RuleText.RuleError E) (Grammar (Pattern E)) :=
  (RuleText.productions E text).map g.addAll

/-- Adds the productions of a text and gives their ids, or leaves the registry as it is if the text
has an error. -/
def Registry.addRules (r : Registry (Pattern E)) (text : String) :
    Except (RuleText.RuleError E) (List ProdId) × Registry (Pattern E) :=
  match RuleText.productions E text with
  | .error error => (.error error, r)
  | .ok ps => (r.addAll ps).map .ok id

end Earley
