import Earley.Forest.Basic

/-!
# Forest/Viable — the nodes with a finite derivation

A node is viable when one of its branches has no children but tokens and viable nodes.  Viability is
the least such property: a node that can only be derived through itself is not viable.  It is found
with a list of nodes to look at; whenever a node turns out to be viable, the nodes that use it are
looked at again.
-/

namespace Earley

/-- The branches of every node of an arena. -/
abbrev Arena := Array (List Branch)

namespace Arena

/-- Whether some branch of a node has only marked nodes. -/
def derivable (arena : Arena) (marked : Array Bool) (id : NodeId) : Bool :=
  (arena.getD id []).any fun branch => branch.nodes.all fun child => marked.getD child false

/-- Every child with the node that has it. -/
def uses (arena : Arena) : List (NodeId × NodeId) :=
  arena.toList.zipIdx.flatMap fun (branches, user) =>
    branches.flatMap fun branch => branch.nodes.map (·, user)

/-- For every node the nodes that have it among their children. -/
def users (arena : Arena) : Array (List NodeId) :=
  arena.uses.foldl (fun users (child, user) => users.modify child (user :: ·))
    (Array.replicate arena.size [])

/-- A new mark leaves fewer nodes unmarked. -/
theorem count_false_set_lt {marked : Array Bool} {id : NodeId} (h : id < marked.size)
    (unmarked : marked[id] = false) : (marked.set id true).count false < marked.count false := by
  have positive : 0 < marked.count false := Array.count_pos_iff.2 (unmarked ▸ Array.getElem_mem h)
  rw [Array.count_set h, unmarked, if_pos (beq_self_eq_true false), if_neg (by decide)]
  omega

/-- Marks nodes until none is left to look at.  With every mark fewer nodes are unmarked, with every
other step fewer are pending. -/
def mark (arena : Arena) (users : Array (List NodeId)) (marked : Array Bool) :
    List NodeId → Array Bool
  | [] => marked
  | id :: pending =>
    if h : id < marked.size then
      if unmarked : marked[id] = false then
        if arena.derivable marked id then
          have := count_false_set_lt h unmarked
          let again := (users.getD id []).filter fun user => !marked.getD user false
          arena.mark users (marked.set id true) (again ++ pending)
        else arena.mark users marked pending
      else arena.mark users marked pending
    else arena.mark users marked pending
termination_by pending => (marked.count false, pending.length)

/-- **The viable nodes** of an arena, looking at the last node first. -/
def viable (arena : Arena) : Array Bool :=
  arena.mark arena.users (Array.replicate arena.size false) (List.range arena.size).reverse

end Arena

end Earley
