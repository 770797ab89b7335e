import Earley.Forest.Paths

/-!
# Forest/Count — how many derivations a node has

A branch has as many derivations as the product of the counts of its nodes says, a node as many as
the sum over its branches.  The counts of nodes met before are kept.  A node met below itself has no
bound on its derivations, and a count of 2⁶⁴ or more is not given either.  The descent stops at the
first of these that it meets and says which it was; the count does not tell them apart.
-/

namespace Earley

universe u

/-- The first number that is too large for a count. -/
def countLimit : Nat := Nat.pow 2 64

/-- A count that is not too large. -/
def checkedCount (count : Nat) : Option Nat :=
  if count < countLimit then some count else none

/-- Why a descent stops without a count. -/
inductive Uncounted where
  /-- It met a node below itself. -/
  | cycle
  /-- A product or a sum of counts is too large. -/
  | overflow
  /-- There is no such node. -/
  | missing
  deriving DecidableEq

namespace Forest

variable {κ : Type u}

/-- The counts found so far, by node. -/
abbrev Counts := Array (Option Nat)

mutual

/-- The count of node `id` below the nodes of `path`. -/
def countNode (f : Forest κ) (path : List NodeId) (known : Counts) (id : NodeId) :
    Except Uncounted (Nat × Counts) :=
  match known.getD id none with
  | some count => .ok (count, known)
  | none =>
    if on : id ∈ path then .error .cycle
    else if h : id < f.nodes.size then
      have := offPath_cons_lt h on
      match f.countBranches (id :: path) known 0 f.nodes[id].branches with
      | .ok (total, known) => .ok (total, known.setIfInBounds id (some total))
      | .error why => .error why
    else .error .missing
termination_by (offPath f.nodes.size path, 0, 0)

/-- The sum of `total` and the counts of branches. -/
def countBranches (f : Forest κ) (path : List NodeId) (known : Counts) (total : Nat) :
    List Branch → Except Uncounted (Nat × Counts)
  | [] => .ok (total, known)
  | branch :: rest =>
    match f.countChildren path known 1 branch with
    | .ok (product, known) =>
      match checkedCount (total + product) with
      | some total => f.countBranches path known total rest
      | none => .error .overflow
    | .error why => .error why
termination_by branches => (offPath f.nodes.size path, 2, branches.length)

/-- The product of `product` and the counts of children. -/
def countChildren (f : Forest κ) (path : List NodeId) (known : Counts) (product : Nat) :
    List (Child NodeId) → Except Uncounted (Nat × Counts)
  | [] => .ok (product, known)
  | .token _ :: rest => f.countChildren path known product rest
  | .node id :: rest =>
    match f.countNode path known id with
    | .ok (count, known) =>
      match checkedCount (product * count) with
      | some product => f.countChildren path known product rest
      | none => .error .overflow
    | .error why => .error why
termination_by children => (offPath f.nodes.size path, 1, children.length)

end

/-- The number of derivations below a node, or why the descent from it stops before. -/
def counting (f : Forest κ) (id : NodeId) : Except Uncounted Nat :=
  (f.countNode [] (Array.replicate f.nodes.size none) id).map Prod.fst

/-- **The number of derivations** below a node, if there are finitely many and fewer than 2⁶⁴. -/
def count (f : Forest κ) (id : NodeId) : Option Nat :=
  (f.counting id).toOption

end Forest

end Earley
