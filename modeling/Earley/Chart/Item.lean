import Earley.Grammar

/-!
# Chart/Item — partly read productions and the sets of them

An item is a production with a dot in its right-hand side: the symbols before the dot have been read
from position `origin` on.  A set of items keeps the order of insertion, which fixes the order of
everything found later, and holds no item twice.
-/

namespace Earley

universe u

/-- A production of which the first `dot` symbols were read from `origin` on. -/
structure Item where
  production : ProdId
  dot : Nat
  origin : Nat
  deriving DecidableEq

namespace Item

variable {κ : Type u}

/-- A production of which nothing is read yet. -/
def predict (origin : Nat) (production : ProdId) : Item := ⟨production, 0, origin⟩

/-- The item with one more symbol read. -/
def advance (item : Item) : Item := { item with dot := item.dot + 1 }

/-- The symbol behind the dot. -/
def next? (g : Grammar κ) (item : Item) : Option (Symbol κ) :=
  (g.symbols item.production)[item.dot]?

/-- Whether all of the production is read. -/
def isComplete (g : Grammar κ) (item : Item) : Bool :=
  (g.symbols item.production).length ≤ item.dot

/-- The kind of the terminal behind the dot. -/
def awaitedKind? (g : Grammar κ) (item : Item) : Option κ :=
  (item.next? g).bind Symbol.kind?

/-- The name of the nonterminal behind the dot. -/
def awaitedName? (g : Grammar κ) (item : Item) : Option String :=
  (item.next? g).bind Symbol.name?

/-- Whether the symbol before the dot is a terminal. -/
def isScanned (g : Grammar κ) (item : Item) : Bool :=
  item.dot != 0 && (g.symbols item.production)[item.dot - 1]?.any Symbol.isTerminal

/-- The item on one line: its origin, then its production with a raised dot for its progress. -/
def text [Terminal κ] (g : Grammar κ) (item : Item) : String :=
  let labels := (g.symbols item.production).map Symbol.label
  "(" ++ toString item.origin ++ ") " ++ g.name item.production ++ " -> "
    ++ String.intercalate " " (labels.take item.dot) ++ " · "
    ++ String.intercalate " " (labels.drop item.dot)

end Item

/-- Items in the order of their insertion. -/
structure ItemSet where
  items : Array Item := #[]
  deriving DecidableEq

namespace ItemSet

/-- Appends an item unless the set has it already. -/
def insert (set : ItemSet) (item : Item) : ItemSet :=
  if item ∈ set.items then set else ⟨set.items.push item⟩

/-- Inserts items in their order. -/
def insertAll (set : ItemSet) (items : List Item) : ItemSet :=
  items.foldl insert set

/-- The items of a list, each at its first place. -/
def ofList (items : List Item) : ItemSet :=
  insertAll {} items

/-- The items of a set, in their order. -/
def toList (set : ItemSet) : List Item := set.items.toList

end ItemSet

end Earley
