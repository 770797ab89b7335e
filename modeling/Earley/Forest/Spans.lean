import Earley.Chart.Recognize
import Earley.Forest.Basic

/-!
# Forest/Spans — which productions a chart finds from where to where

Every complete item of a chart is a span: its production was read from its origin up to the position
of its set.  Turned around, the chart lists for every start the spans that begin there, by their end
and then by their production.  A goal is a name looked for from a position; the spans that meet it
are those of the productions of that name.
-/

namespace Earley

universe u

variable {κ : Type u}

/-- A production read from `start` up to `stop`. -/
structure Span where
  start : Nat
  stop : Nat
  production : ProdId
  deriving DecidableEq

/-- The spans of the complete items `items`, all found at `stop`, that begin at `start`, sorted by
production. -/
def spansBetween (items : List Item) (start stop : Nat) : List Span :=
  let found := (items.filter fun item => item.origin = start).map Item.production
  (found.mergeSort (· ≤ ·)).map fun id => ⟨start, stop, id⟩

/-- The spans that begin at each position, by end and production. -/
structure SpanIndex where
  starts : Array (List Span)

namespace SpanIndex

/-- The spans of a chart. -/
def ofSets (g : Grammar κ) (sets : Array ItemSet) : SpanIndex :=
  let complete := sets.toList.map fun set => set.toList.filter (Item.isComplete g)
  ⟨(Array.range sets.size).map fun start =>
    complete.zipIdx.flatMap fun (items, stop) => spansBetween items start stop⟩

/-- The spans that begin at `start`. -/
def startingAt (index : SpanIndex) (start : Nat) : List Span := index.starts.getD start []

end SpanIndex

/-- A name looked for from a position on. -/
structure Goal where
  name : String
  start : Nat
  deriving DecidableEq

/-- The spans that meet a goal. -/
def SpanIndex.meeting (g : Grammar κ) (index : SpanIndex) (goal : Goal) : List Span :=
  let productions := g.productionsOf goal.name
  (index.startingAt goal.start).filter fun span => span.production ∈ productions

/-- The goals that are met, by position. -/
def SpanIndex.goals (g : Grammar κ) (index : SpanIndex) : List Goal :=
  (List.range index.starts.size).flatMap fun start =>
    ((index.startingAt start).map fun span => g.name span.production).eraseDups.map (⟨·, start⟩)

end Earley
