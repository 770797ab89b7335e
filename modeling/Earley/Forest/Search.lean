import Earley.Forest.Thread

/-!
# Forest/Search — the nodes of a forest as they are asked for

The search for the nodes of a goal makes them before it has their branches, and remembers them, so
that a search for the same goal further down finds them.  Their branches are laid afterwards, one
node after the other, and this asks for further goals.
-/

namespace Earley

universe u

variable {κ : Type u}

/-- **The state of an extraction**: the nodes of every goal that was expanded, in the order in which
these were, and the arena. -/
structure Extraction where
  found : List (Goal × List NodeId) := []
  nodes : Array Node := #[]

namespace Extraction

/-- Makes nodes without branches, and remembers them as those of a goal. -/
def register (s : Extraction) (goal : Goal) (spans : List Span) : Extraction where
  found := s.found ++ [(goal, .range' s.nodes.size spans.length)]
  nodes := s.nodes ++ (spans.map fun span => ⟨span.production, span.start, span.stop, []⟩).toArray

/-- Gives a node its branches. -/
def setBranches (s : Extraction) (id : NodeId) (branches : List Branch) : Extraction :=
  { s with nodes := s.nodes.modify id fun node => { node with branches } }

/-- Nodes as children, each with its end, if there are all these nodes. -/
def childrenOf (s : Extraction) (ids : List NodeId) : Option (List (Nat × Child NodeId)) :=
  ids.mapM fun id => s.nodes[id]?.map fun node => (node.stop, .node id)

/-- Whether a child may end at a position: the last one ends at `stop`, the others no later. -/
def reaches (stop : Nat) (last : Bool) (pos : Nat) : Bool :=
  if last then pos = stop else pos ≤ stop

section Search

variable [DecidableEq κ] (weave : Weave κ)
  (ask : Goal → Extraction → Option (List NodeId × Extraction))

/-- The children for a symbol at a position, each with its end; the nodes for a name are asked
for. -/
def children (pos : Nat) (symbol : Symbol κ) (s : Extraction) :
    Option (List (Nat × Child NodeId) × Extraction) :=
  match symbol with
  | .terminal kind =>
    some (if kind ∈ weave.accepted.getD pos [] then [(pos + 1, .token pos)] else [], s)
  | .nonterminal name => do
    let (ids, s) ← ask ⟨name, pos⟩ s
    let ended ← s.childrenOf ids
    some (ended, s)

/-- The beginnings of rows with one more child each, where it fits. -/
def extend (stop : Nat) (last : Bool) (symbol : Symbol κ) :
    List (Nat × Branch) → Extraction → Option (List (Nat × Branch) × Extraction)
  | [], s => some ([], s)
  | (pos, row) :: rest, s => do
    let (ended, s) ← children weave ask pos symbol s
    let fitting := ended.filter fun (pos, _) => reaches stop last pos
    let (more, s) ← extend stop last symbol rest s
    some (fitting.map (fun (pos, child) => (pos, row ++ [child])) ++ more, s)

/-- Lays symbols behind beginnings of rows, as long as there are any. -/
def lay (stop : Nat) :
    List (Symbol κ) → List (Nat × Branch) → Extraction → Option (List (Nat × Branch) × Extraction)
  | [], begun, s => some (begun, s)
  | symbol :: rest, begun, s => do
    let (extended, s) ← extend weave ask stop rest.isEmpty symbol begun s
    if extended.isEmpty then some ([], s) else lay stop rest extended s

/-- The branches of a node: rows of children for the symbols of its production, from its start to
its end. -/
def thread (id : NodeId) (s : Extraction) : Option (List Branch × Extraction) := do
  let node ← s.nodes[id]?
  let (rows, s) ← lay weave ask node.stop (weave.grammar.symbols node.production)
    [(node.start, [])] s
  some ((rows.filter fun (pos, _) => pos = node.stop).map Prod.snd, s)

/-- Gives nodes their branches, one node after the other. -/
def settle : List NodeId → Extraction → Option Extraction
  | [], s => some s
  | id :: rest, s => do
    let (branches, s) ← thread weave ask id s
    settle rest (s.setBranches id branches)

/-- **The nodes of a goal**, remembered or made now, with no more than `depth` searches at work
within each other.  There is no value where more of them would be, or where a node is looked up
that is not there. -/
def search : Nat → Goal → Extraction → Option (List NodeId × Extraction)
  | 0, _, _ => none
  | depth + 1, goal, s =>
    match s.found.lookup goal with
    | some ids => some (ids, s)
    | none => do
      let ids := List.range' s.nodes.size (weave.meeting goal).length
      let s ← settle weave (search depth) ids (s.register goal (weave.meeting goal))
      some (ids, s)

end Search

end Extraction

end Earley
