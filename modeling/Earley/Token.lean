import Earley.Symbol

/-!
# Token — scanned texts, the errors of a parse and the source of tokens

A tokenizer answers one question at a time: which token stands here, given the kinds of terminal
that could stand here?  It may settle which of these kinds the token is read as (`Scan.matched`); if
it does not, the parser compares the text of the token with every kind.

A tokenizer has finitely many tokens to give: each answer with a token makes `remaining` smaller,
and so every parse ends.  Any source may be asked for a limited number of answers (`upTo`); a run
over a source that never ends, which an error has to stop, is such a run with enough of them.
-/

namespace Earley

universe u v

/-- A scanned text with its kind, from offset `start` up to offset `next` of the source. -/
structure Token (κ : Type u) where
  kind : κ
  text : String
  start : Nat
  next : Nat
  deriving DecidableEq

/-- Why a parse stops before the input does. -/
inductive ParseError (κ : Type u) where
  /-- The token at `pos` is none of the kinds that could stand there. -/
  | unexpected (pos : Nat) (expected : List κ)
  /-- The token at `pos` has no text. -/
  | emptyToken (pos : Nat)
  deriving DecidableEq

/-- The message for the reader of a parse error. -/
def ParseError.message {κ : Type u} [Terminal κ] : ParseError κ → String
  | unexpected pos expected =>
    "syntax error at " ++ toString pos ++ ": expected one of ["
      ++ String.intercalate ", " (expected.map Terminal.label) ++ "]"
  | emptyToken pos => "empty token at " ++ toString pos

/-- A token and, unless the choice is left to the parser, the places in the list of expected kinds
of those that it is read as. -/
structure Scan (κ : Type u) where
  token : Token κ
  matched : Option (List Nat) := none

/-- The kinds among `expected` that a scanned token is read as. -/
def Scan.selected {κ : Type u} (equals : String → κ → Bool) (scan : Scan κ) (expected : List κ) :
    List κ :=
  match scan.matched with
  | some places => (expected.zipIdx.filter fun (_, place) => place ∈ places).map Prod.fst
  | none => expected.filter (equals scan.token.text)

/-- A source of tokens with states `σ`. -/
structure Tokenizer (κ : Type u) (σ : Type v) where
  /-- The answer in a state to a list of expected kinds, and the state after it; `none` is the end
  of the input. -/
  scan : σ → List κ → Except (ParseError κ) (Option (Scan κ)) × σ
  /-- A bound on the number of tokens to come. -/
  remaining : σ → Nat
  remaining_lt : ∀ {state expected answer next},
    scan state expected = (.ok (some answer), next) → remaining next < remaining state

/-- What answers the questions of a parser, in states `σ` and perhaps without end. -/
abbrev Source (κ : Type u) (σ : Type v) :=
  σ → List κ → Except (ParseError κ) (Option (Scan κ)) × σ

/-- The tokenizer that gives a limited number of answers of a source, and then the end of the
input. -/
def Tokenizer.upTo {κ : Type u} {σ : Type v} (source : Source κ σ) : Tokenizer κ (σ × Nat) where
  scan
    | (state, 0), _ => (.ok none, (state, 0))
    | (state, left + 1), expected =>
      let (answer, next) := source state expected
      (answer, (next, left))
  remaining := Prod.snd
  remaining_lt := by
    rintro ⟨state, _ | left⟩ expected answer next h
    · cases h
    · obtain rfl : _ = next := congrArg Prod.snd h
      exact Nat.lt_succ_self left

/-- The tokenizer that gives the tokens of a list whatever is expected. -/
def Tokenizer.ofList (κ : Type u) : Tokenizer κ (List (Token κ)) where
  scan tokens _ :=
    match tokens with
    | [] => (.ok none, [])
    | token :: rest => (.ok (some { token }), rest)
  remaining := List.length
  remaining_lt := by
    intro state expected answer next h
    cases state <;> simp_all

/-- Answers prepared for a tokenizer, and the lists of expected kinds it was asked with so far. -/
structure Script (κ : Type u) where
  answers : List (Except (ParseError κ) (Option (Scan κ)))
  asked : Array (List κ) := #[]

/-- The tokenizer that gives prepared answers, and the end of the input when they are used up. -/
def Tokenizer.ofScript (κ : Type u) : Tokenizer κ (Script κ) where
  scan script expected :=
    match script.answers with
    | [] => (.ok none, ⟨[], script.asked.push expected⟩)
    | answer :: rest => (answer, ⟨rest, script.asked.push expected⟩)
  remaining script := script.answers.length
  remaining_lt := by
    intro ⟨answers, asked⟩ expected answer next h
    cases answers with
    | nil => simp at h
    | cons first rest =>
      obtain rfl : _ = next := congrArg Prod.snd h
      simp

end Earley
