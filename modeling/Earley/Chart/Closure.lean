import Earley.Chart.Item

/-!
# Chart/Closure — what the items at one position imply there

Without reading a token, an item implies others at its own position.  One that awaits a nonterminal
implies the productions of that name and, where the name derives the empty text, its own advance.
One that is complete implies the advance of every item that awaited its name at its origin.
`closure` adds all of this to a set, items in the order in which they are implied.

A completion over no tokens may be met before all items that await its name are known.  Nothing is
lost by that, because those items advance over the empty text when they are met themselves.
-/

namespace Earley

universe u

variable {κ : Type u}

/-- The items that `item` implies at its position: the sets before it are `earlier`, the set found
there so far is `current`. -/
def consequences (g : Grammar κ) (earlier : Array ItemSet) (current : ItemSet) (item : Item) :
    List Item :=
  match item.next? g with
  | none =>
    let there := earlier.getD item.origin current
    (there.items.filter fun waiting =>
      waiting.awaitedName? g == some (g.name item.production)).toList.map Item.advance
  | some (.nonterminal name) =>
    (g.productionsOf name).map (Item.predict earlier.size)
      ++ if g.isNullable name then [item.advance] else []
  | some (.terminal _) => []

/-- Adds the consequences of the items from index `index` on, those added on the way included. -/
def closeFrom (g : Grammar κ) (earlier : Array ItemSet) : Nat → Nat → ItemSet → ItemSet
  | 0, _, current => current
  | steps + 1, index, current =>
    match current.items[index]? with
    | none => current
    | some item =>
      closeFrom g earlier steps (index + 1)
        (current.insertAll (consequences g earlier current item))

/-- The number of items with an origin up to `pos`. -/
def Grammar.itemCount (g : Grammar κ) (pos : Nat) : Nat :=
  (pos + 1) * (g.productions.toList.map fun p => p.symbols.length + 1).foldr (· + ·) 0

/-- **The closure** of a set behind the sets `earlier`.  There are no more steps than items. -/
def closure (g : Grammar κ) (earlier : Array ItemSet) (set : ItemSet) : ItemSet :=
  closeFrom g earlier (g.itemCount earlier.size) 0 set

end Earley
