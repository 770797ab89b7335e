import Earley.Grammar
import Earley.Token

/-!
# Forest/Basic — shared forests of derivations

A node of a forest stands for a production over a stretch of the tokens.  Each of its branches is
one way to derive that stretch: a child for every symbol, a token for a terminal and a node for a
nonterminal.  Nodes refer to each other by their place in the arena, so that common parts are stored
once and a node may even occur below itself.
-/

namespace Earley

universe u v

/-- The place of a node in the arena of its forest. -/
abbrev NodeId := Nat

/-- What stands below a node for one symbol: a token, by its index, or a node of some sort `ν`. -/
inductive Child (ν : Type v) where
  | token (index : Nat)
  | node (node : ν)
  deriving DecidableEq

namespace Child

variable {ν : Type v} {μ : Type v}

/-- Renames the node. -/
def map (f : ν → μ) : Child ν → Child μ
  | token index => token index
  | node x => node (f x)

/-- Renames the node unless it has no new name. -/
def mapOption (f : ν → Option μ) : Child ν → Option (Child μ)
  | token index => some (token index)
  | node x => (f x).map node

/-- The node, where the child is one. -/
def node? : Child ν → Option ν
  | token _ => none
  | node x => some x

end Child

/-- One way to derive a node: its children in the order of the symbols. -/
abbrev Branch := List (Child NodeId)

/-- The nodes among the children. -/
def Branch.nodes (branch : Branch) : List NodeId := branch.filterMap Child.node?

/-- A production over the tokens from `start` up to `stop`, with every way to derive it. -/
structure Node where
  production : ProdId
  start : Nat
  stop : Nat
  branches : List Branch
  deriving DecidableEq

/-- Whether a node can be derived in more than one way. -/
def Node.isAmbiguous (node : Node) : Bool := 1 < node.branches.length

/-- The derivations of an input: the arena of nodes and the nodes that derive all of it. -/
structure Forest (κ : Type u) where
  grammar : Grammar κ
  tokens : Array (Token κ)
  nodes : Array Node
  roots : List NodeId

namespace Forest

variable {κ : Type u}

/-- The name derived by a node. -/
def nameOf (f : Forest κ) (node : Node) : String := f.grammar.name node.production

/-- The tokens below a child, as the positions before the first and behind the last. -/
def extent (f : Forest κ) : Child NodeId → Nat × Nat
  | .token index => (index, index + 1)
  | .node id => (f.nodes[id]?.map fun node => (node.start, node.stop)).getD (0, 0)

/-- A node on one line. -/
def nodeText [Terminal κ] (f : Forest κ) (node : Node) : String :=
  "(" ++ toString node.start ++ " - " ++ toString node.stop ++ ") "
    ++ f.grammar.ruleText node.production ++ " #branches: " ++ toString node.branches.length

/-- The size of a forest on one line. -/
def text (f : Forest κ) : String :=
  "forest: " ++ toString f.nodes.size ++ " nodes, " ++ toString f.roots.length ++ " roots over "
    ++ toString f.tokens.size ++ " tokens"

end Forest

end Earley
