import Earley.Number.Remainder
import Earley.Number.Shortest
import Earley.RuleText.Productions

/-!
# Calculator — arithmetic expressions and their values

Sums, products, negations, powers and factorials are layers of a grammar, so that the precedence of
the operators is decided by the grammar and never by a chooser.  What the operators do is left open:
`Operations` gives a meaning to numerals and operators, and floating-point arithmetic is one of
them.
-/

namespace Earley.Calculator

/-- A meaning of numerals and operators. -/
structure Operations (V : Type) where
  numeral : String → V
  add : V → V → V
  sub : V → V → V
  mul : V → V → V
  div : V → V → V
  mod : V → V → V
  neg : V → V
  pow : V → V → V
  factorial : V → V

/-! ## The grammar -/

/-- The rules of the layers: each name stands for the next one, and the last for a numeral. -/
def layerRules : String := "
        expr   -> term
        term   -> factor
        factor -> power
        power  -> ufact
        ufact  -> group
        group  -> /\\d+(\\.\\d*)?|\\.\\d+/
    "

/-- The rules of the operators, one text each. -/
def operatorRules : List String :=
  ["expr   -> expr '+' term", "expr   -> expr '-' term", "term   -> term '*' factor",
    "term   -> term '/' factor", "term   -> term '%' factor", "factor -> '-' factor",
    "power  -> ufact '^' factor", "ufact  -> ufact '!'", "group  -> '(' expr ')'"]

/-- The grammar as it is read from its rules. -/
def readGrammar : Except (RuleText.RuleError .standard) (Grammar (Pattern .standard)) := do
  let layers ← (Grammar.ofList "expr" []).addRules layerRules
  operatorRules.foldlM (fun g rule => (RuleText.production .standard rule).map g.add) layers

/-- Numerals: digits with or without a point among or before them. -/
def number : Pattern .standard := .ofSource "\\d+(\\.\\d*)?|\\.\\d+"

/-- The productions of expressions, the layers first, as the rules have them. -/
def productions : List (Production (Pattern .standard)) :=
  let sign (text : String) : Symbol (Pattern .standard) := .terminal (.literal text)
  [⟨"expr", [.nonterminal "term"]⟩,
    ⟨"term", [.nonterminal "factor"]⟩,
    ⟨"factor", [.nonterminal "power"]⟩,
    ⟨"power", [.nonterminal "ufact"]⟩,
    ⟨"ufact", [.nonterminal "group"]⟩,
    ⟨"group", [.terminal number]⟩,
    ⟨"expr", [.nonterminal "expr", sign "+", .nonterminal "term"]⟩,
    ⟨"expr", [.nonterminal "expr", sign "-", .nonterminal "term"]⟩,
    ⟨"term", [.nonterminal "term", sign "*", .nonterminal "factor"]⟩,
    ⟨"term", [.nonterminal "term", sign "/", .nonterminal "factor"]⟩,
    ⟨"term", [.nonterminal "term", sign "%", .nonterminal "factor"]⟩,
    ⟨"factor", [sign "-", .nonterminal "factor"]⟩,
    ⟨"power", [.nonterminal "ufact", sign "^", .nonterminal "factor"]⟩,
    ⟨"ufact", [.nonterminal "ufact", sign "!"]⟩,
    ⟨"group", [sign "(", .nonterminal "expr", sign ")"]⟩]

/-- **The grammar of expressions.** -/
def grammar : Grammar (Pattern .standard) := .ofList "expr" productions

/-- The value of a production by the values of its parts; the parts that are operators are passed
over. -/
def Operations.reduce {V : Type} (ops : Operations V) : ProdId → List V → V
  | 6, [x, _, y] => ops.add x y
  | 7, [x, _, y] => ops.sub x y
  | 8, [x, _, y] => ops.mul x y
  | 9, [x, _, y] => ops.div x y
  | 10, [x, _, y] => ops.mod x y
  | 11, [_, x] => ops.neg x
  | 12, [x, _, y] => ops.pow x y
  | 13, [x, _] => ops.factorial x
  | 14, [_, x, _] => x
  | _, x :: _ => x
  | _, [] => ops.numeral ""

/-- The meaning of expressions. -/
def Operations.semantics {V : Type} (ops : Operations V) : Semantics (Pattern .standard) V where
  leaf token := ops.numeral token.text
  reduce := ops.reduce

/-! ## Floating-point arithmetic -/

/-- The value of a numeral of ASCII digits; other texts have none. -/
def readNumeral (text : String) : Float :=
  let whole := text.toList.takeWhile (· != '.')
  let decimals := (text.toList.dropWhile (· != '.')).drop 1
  let digits := whole ++ decimals
  if digits.isEmpty || !digits.all Char.isDigit then 0.0 / 0.0
  else
    let value := digits.foldl (fun n c => 10 * n + (c.toNat - '0'.toNat)) 0
    Float.ofScientific value true decimals.length

/-- The product of the whole numbers up to `x`, taken from the smallest on; there is none for a
negative number or one that is not whole.  From 171 on it is too large for a finite number. -/
def factorial (x : Float) : Float :=
  if x < 0.0 || !(x - x.floor == 0.0) then 0.0 / 0.0
  else if x > 170.0 then 1.0 / 0.0
  else (List.range x.toUInt64.toNat).foldl (fun product k => product * Float.ofNat (k + 1)) 1.0

/-- Floating-point arithmetic. -/
def floats : Operations Float where
  numeral := readNumeral
  add := (· + ·)
  sub := (· - ·)
  mul := (· * ·)
  div := (· / ·)
  mod := Number.remainder
  neg := fun x => -x
  pow := Float.pow
  factorial := factorial

/-! ## Answers -/

/-- Why an expression has no value. -/
inductive EvalFault where
  | notRead (error : ParseError (Pattern .standard))
  /-- The expression ends too early. -/
  | incomplete
  /-- No derivation has a value. -/
  | noReading
  deriving DecidableEq

/-- The message for the reader of a fault. -/
def EvalFault.message : EvalFault → String
  | notRead error => "Parse err: " ++ error.message
  | incomplete => "Parse err: incomplete expression"
  | noReading => "Eval err: no reading"

/-- **The value of an expression.** -/
def evaluate {V : Type} (ops : Operations V) (text : String) : Except EvalFault V :=
  match grammar.parse text with
  | .error error => .error (.notRead error)
  | .ok forest =>
    match forest.roots with
    | [] => .error .incomplete
    | root :: _ =>
      match forest.accept ops.semantics root with
      | some value => .ok value
      | none => .error .noReading

/-- The line that answers an expression. -/
def answer (text : String) : String :=
  match evaluate floats text with
  | .ok value => Number.text value
  | .error fault => fault.message

/-- What stands before every expression that is asked for. -/
def prompt : String := "~> "

/-- A line without the characters that end it. -/
def chomp (line : String) : String :=
  match line.toList.reverse with
  | '\n' :: '\r' :: rest => String.ofList rest.reverse
  | '\n' :: rest => String.ofList rest.reverse
  | _ => line

/-- The lines of an input, each with the character that ends it. -/
def inputLines : List Char → List (List Char)
  | [] => []
  | c :: rest =>
    if c = '\n' then [c] :: inputLines rest
    else
      match inputLines rest with
      | [] => [[c]]
      | line :: others => (c :: line) :: others

/-- **A dialogue**: a prompt and an answer for every line of the input, and a last prompt. -/
def dialogue (input : String) : String :=
  String.join ((inputLines input.toList).map fun line =>
    prompt ++ answer (chomp (String.ofList line)) ++ "\n") ++ prompt

end Earley.Calculator
