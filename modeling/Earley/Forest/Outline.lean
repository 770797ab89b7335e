import Earley.Forest.Paths

/-!
# Forest/Outline — a forest below a node, line by line

Below a node stand its branches, each under a heading with its number if there are several, and
below a branch its children.  A node that stands below itself is marked as a cycle and not entered
again; shared nodes are written wherever they occur.
-/

namespace Earley

universe u

/-- What an outline shows on one line. -/
inductive Entry where
  | token (index : Nat)
  | node (id : NodeId)
  /-- A node that stands below itself. -/
  | cycle (id : NodeId)
  /-- The heading of a branch. -/
  | branch (index : Nat)
  deriving DecidableEq

/-- A line of an outline with the depth that it is indented to. -/
structure Line where
  depth : Nat
  entry : Entry
  deriving DecidableEq

namespace Forest

variable {κ : Type u}

mutual

/-- The outline of a child below the nodes of `path`. -/
def outlineChild (f : Forest κ) (path : List NodeId) (depth : Nat) : Child NodeId → List Line
  | .token index => [⟨depth, .token index⟩]
  | .node id =>
    if on : id ∈ path then [⟨depth, .cycle id⟩]
    else if h : id < f.nodes.size then
      have := offPath_cons_lt h on
      ⟨depth, .node id⟩
        :: f.outlineBranches (id :: path) (depth + 1) f.nodes[id].isAmbiguous 0 f.nodes[id].branches
    else []
termination_by (offPath f.nodes.size path, 0, 0)

/-- The outlines of branches, numbered from `index` if they need headings. -/
def outlineBranches (f : Forest κ) (path : List NodeId) (depth : Nat) (headed : Bool)
    (index : Nat) : List Branch → List Line
  | [] => []
  | branch :: rest =>
    (if headed then ⟨depth, .branch index⟩ :: f.outlineChildren path (depth + 1) branch
      else f.outlineChildren path depth branch)
      ++ f.outlineBranches path depth headed (index + 1) rest
termination_by branches => (offPath f.nodes.size path, 2, branches.length)

/-- The outlines of the children of a branch. -/
def outlineChildren (f : Forest κ) (path : List NodeId) (depth : Nat) :
    List (Child NodeId) → List Line
  | [] => []
  | child :: rest => f.outlineChild path depth child ++ f.outlineChildren path depth rest
termination_by children => (offPath f.nodes.size path, 1, children.length)

end

/-- **The outline** of a forest below a node. -/
def outline (f : Forest κ) (id : NodeId) : List Line := f.outlineChild [] 0 (.node id)

variable [Terminal κ]

/-- A node with the positions it stands between. -/
def placeText (f : Forest κ) (id : NodeId) : String :=
  (f.nodes[id]?.map fun node => f.grammar.ruleText node.production ++ " @" ++ toString node.start
    ++ ".." ++ toString node.stop).getD ""

/-- The text of an entry. -/
def entryText (f : Forest κ) : Entry → String
  | .token index => (f.tokens[index]?.map fun token =>
      Terminal.label token.kind ++ " " ++ Text.quoted token.text).getD ""
  | .node id => f.placeText id
  | .cycle id => f.placeText id ++ " (cycle)"
  | .branch index => "#" ++ toString index

/-- A line, indented by two spaces for each level of its depth. -/
def lineText (f : Forest κ) (line : Line) : String :=
  String.ofList (List.replicate (2 * line.depth) ' ') ++ f.entryText line.entry ++ "\n"

/-- **The written outline** of a forest below a node. -/
def dump (f : Forest κ) (id : NodeId) : String :=
  String.join ((f.outline id).map f.lineText)

end Forest

end Earley
