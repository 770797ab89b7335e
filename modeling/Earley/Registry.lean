import Earley.Grammar

/-!
# Registry — a grammar while its productions are declared

A registry numbers the productions in the order in which they are added and keeps, beside them, an
index of their ids by name.  The productions that derive the empty text are looked up in a second
table.  It is made at the first lookup, kept for those that follow, and dropped when a production
is added.
-/

namespace Earley

universe u

/-! ## Ids by name -/

/-- Ids by name: each name once, with its ids in the order in which they came. -/
abbrev NameTable := List (String × List ProdId)

namespace NameTable

/-- The ids of a name, none for a name that the table lacks. -/
def ids : NameTable → String → List ProdId
  | [], _ => []
  | (other, found) :: table, name => if other = name then found else ids table name

/-- Puts an id behind those of its name. -/
def push (name : String) (id : ProdId) : NameTable → NameTable
  | [] => [(name, [id])]
  | (other, found) :: table =>
    if other = name then (other, found ++ [id]) :: table
    else (other, found) :: push name id table

/-- The same names, each with its ids sorted. -/
def sorted (table : NameTable) : NameTable :=
  table.map fun (name, found) => (name, found.mergeSort (· ≤ ·))

end NameTable

/-! ## Registries -/

/-- A production with the id that it was given. -/
structure Registered (κ : Type u) where
  id : ProdId
  rule : Production κ
  deriving DecidableEq

section Table

variable {κ : Type u}

/-- The registered productions by name. -/
def tableOf (productions : List (Registered κ)) : NameTable :=
  productions.foldl (fun table p => table.push p.rule.name p.id) []

/-- The productions that derive the empty text, by name and each name's in ascending order.  They
come into the table in the order in which the search finds them. -/
def emptyTable (productions : Array (Registered κ)) : NameTable :=
  let search := (emptySearch (productions.map Registered.rule)).1
  (tableOf (search.found.reverse.filterMap (productions[·]?))).sorted

end Table

/-- Productions over terminals of kind `κ`, deriving from the name `entry`, with an index by name
and, once it is asked for, the table of those that derive the empty text. -/
structure Registry (κ : Type u) where
  entry : String
  productions : Array (Registered κ) := #[]
  byName : NameTable := []
  nullable? : Option NameTable := none

namespace Registry

variable {κ : Type u}

/-- The registry without productions. -/
def fresh (entry : String) : Registry κ := { entry }

/-- Adds a production and gives its id; what is known about the empty text does not hold any
more. -/
def add (r : Registry κ) (p : Production κ) : ProdId × Registry κ :=
  let id := r.productions.size
  (id, { r with
    productions := r.productions.push ⟨id, p⟩
    byName := r.byName.push p.name id
    nullable? := none })

/-- Adds productions in their order and gives their ids. -/
def addAll (r : Registry κ) : List (Production κ) → List ProdId × Registry κ
  | [] => ([], r)
  | p :: ps =>
    let (id, next) := r.add p
    let (ids, last) := next.addAll ps
    (id :: ids, last)

/-- Adds a production where its id is not needed. -/
def rule (r : Registry κ) (name : String) (symbols : List (Symbol κ)) : Registry κ :=
  (r.add ⟨name, symbols⟩).2

/-- Production `id`; there is none for an id that was not given. -/
def production? (r : Registry κ) (id : ProdId) : Option (Registered κ) := r.productions[id]?

/-- The productions of `name`, as the index lists them; there is no list if the index lists an id
that was not given. -/
def productionsOf? (r : Registry κ) (name : String) : Option (List (Registered κ)) :=
  (r.byName.ids name).mapM r.production?

/-- The table of the productions that derive the empty text, the one that is kept if there is
one. -/
def emptyByName (r : Registry κ) : NameTable := r.nullable?.getD (emptyTable r.productions)

/-- The productions of `name` that derive the empty text.  The table of them is kept. -/
def nullable (r : Registry κ) (name : String) : List ProdId × Registry κ :=
  (r.emptyByName.ids name, { r with nullable? := some r.emptyByName })

/-- Whether `name` derives the empty text. -/
def isNullable (r : Registry κ) (name : String) : Bool × Registry κ :=
  let (ids, r) := r.nullable name
  (!ids.isEmpty, r)

/-- The grammar that was declared. -/
def grammar (r : Registry κ) : Grammar κ where
  entry := r.entry
  productions := r.productions.map Registered.rule

end Registry

end Earley
