import Earley.Symbol

/-!
# Grammar — productions in declaration order and the ones that derive the empty text

A grammar has an entry name and a list of productions; a production is known by its place in that
list, its `ProdId`.  Names need no declaration: a name without productions derives nothing.

The grammar keeps the productions that derive the empty text (`nullable`).  They are the least set
that holds a production as soon as it holds, for each of its symbols, a production of that name;
`emptySearch` finds them by rounds over those that are not found yet.
-/

namespace Earley

universe u

/-- The place of a production in its grammar. -/
abbrev ProdId := Nat

/-- A name and the symbols it may be replaced by. -/
structure Production (κ : Type u) where
  name : String
  symbols : List (Symbol κ)
  deriving DecidableEq

namespace Production

variable {κ : Type u}

/-- The rule as written: the name, an arrow and the symbols, with a space before each symbol. -/
def text [Terminal κ] (p : Production κ) : String :=
  p.name ++ " ->" ++ String.join (p.symbols.map fun symbol => " " ++ symbol.label)

/-- The rule behind its number in a grammar. -/
def numbered [Terminal κ] (id : ProdId) (p : Production κ) : String :=
  "#" ++ toString id ++ " " ++ p.text

end Production

/-! ## Productions that derive the empty text -/

section Nullable

variable {κ : Type u}

/-- Whether every symbol of `p` is a nonterminal with a production in `found`. -/
def emptyGiven (productions : Array (Production κ)) (found : List ProdId) (p : Production κ) :
    Bool :=
  p.symbols.all fun
    | .terminal _ => false
    | .nonterminal name => found.any fun id => productions[id]?.any fun q => q.name = name

/-- The productions found to derive the empty text, the last one first, and the pending ones in
ascending order. -/
structure EmptySearch where
  found : List ProdId
  pending : List ProdId

/-- One round over pending productions.  Each is judged by all that are found before it, earlier in
the same round too. -/
def emptyRound (productions : Array (Production κ)) (found : List ProdId) :
    List ProdId → EmptySearch
  | [] => ⟨found, []⟩
  | id :: pending =>
    if productions[id]?.any (emptyGiven productions found) then
      emptyRound productions (id :: found) pending
    else
      let search := emptyRound productions found pending
      { search with pending := id :: search.pending }

/-- Repeats rounds until one of them finds nothing new; gives the number of rounds, that one
included. -/
def emptyRounds (productions : Array (Production κ)) (search : EmptySearch) : EmptySearch × Nat :=
  let next := emptyRound productions search.found search.pending
  if next.pending.length < search.pending.length then
    let rest := emptyRounds productions next
    (rest.1, rest.2 + 1)
  else (search, 1)
termination_by search.pending.length

/-- The search through all productions, and the number of its rounds. -/
def emptySearch (productions : Array (Production κ)) : EmptySearch × Nat :=
  emptyRounds productions ⟨[], List.range productions.size⟩

/-- **The productions that derive the empty text**, sorted. -/
def emptyProductions (productions : Array (Production κ)) : List ProdId :=
  (emptySearch productions).1.found.mergeSort (· ≤ ·)

end Nullable

/-! ## Grammars -/

/-- Productions over terminals of kind `κ`, deriving from the name `entry`. -/
structure Grammar (κ : Type u) where
  entry : String
  productions : Array (Production κ) := #[]
  /-- The productions that derive the empty text. -/
  nullable : List ProdId := emptyProductions productions
  nullable_eq : nullable = emptyProductions productions := by rfl

namespace Grammar

variable {κ : Type u}

/-- Appends a production; its id is the number of productions before. -/
def add (g : Grammar κ) (p : Production κ) : Grammar κ where
  entry := g.entry
  productions := g.productions.push p

/-- Appends productions in their order. -/
def addAll (g : Grammar κ) (ps : List (Production κ)) : Grammar κ :=
  ps.foldl add g

/-- The grammar with the given productions. -/
def ofList (entry : String) (ps : List (Production κ)) : Grammar κ where
  entry := entry
  productions := ps.toArray

/-- The name of production `id`, empty for an id that the grammar lacks. -/
def name (g : Grammar κ) (id : ProdId) : String :=
  (g.productions[id]?.map Production.name).getD ""

/-- The symbols of production `id`, none for an id that the grammar lacks. -/
def symbols (g : Grammar κ) (id : ProdId) : List (Symbol κ) :=
  (g.productions[id]?.map Production.symbols).getD []

/-- The productions of `name`, in declaration order. -/
def productionsOf (g : Grammar κ) (name : String) : List ProdId :=
  (List.range g.productions.size).filter fun id => g.name id = name

/-- The productions of `name` that derive the empty text, in declaration order. -/
def nullableOf (g : Grammar κ) (name : String) : List ProdId :=
  g.nullable.filter fun id => g.name id = name

/-- Whether `name` derives the empty text. -/
def isNullable (g : Grammar κ) (name : String) : Bool :=
  g.nullable.any fun id => g.name id = name

/-- Rule `id` as written. -/
def ruleText [Terminal κ] (g : Grammar κ) (id : ProdId) : String :=
  (g.productions[id]?.map Production.text).getD ""

/-- The whole grammar on one line. -/
def text [Terminal κ] (g : Grammar κ) : String :=
  let rules := g.productions.toList.zipIdx.map fun (p, id) => p.numbered id
  "Grammar \x7b entry: " ++ Text.quoted g.entry ++ ", productions: ["
    ++ String.intercalate ", " rules ++ "] \x7d"

end Grammar

end Earley
