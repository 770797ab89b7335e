import Earley.Forest.Paths

/-!
# Forest/Resolution — one branch for every node that is needed

A resolution records branches of a forest by their nodes.  `Forest.choose` makes one from a chooser,
which is asked for a branch at the given node and at every node below it that its picks lead to:
once for each node, a node before those below it, and these from left to right.

A node is marked as soon as its chooser is asked, and its branch is recorded behind those of the
nodes below it.  A way that comes back to a node in between finds the mark and goes no further.
-/

namespace Earley

universe u

/-- The nodes that were met, in this order, with the branch of each; a node without a branch is
still being resolved. -/
structure Resolution where
  picks : List (NodeId × Option Nat) := []
  nodup : (picks.map Prod.fst).Nodup := by simp

namespace Resolution

/-- The nodes that were met. -/
def nodes (r : Resolution) : List NodeId := r.picks.map Prod.fst

/-- The branch recorded for a node. -/
def branch? (r : Resolution) (id : NodeId) : Option Nat := (r.picks.lookup id).join

/-- The number of nodes that were met. -/
def size (r : Resolution) : Nat := r.picks.length

/-- Marks a node that was not met before. -/
def mark (r : Resolution) (id : NodeId) (fresh : id ∉ r.nodes) : Resolution where
  picks := r.picks ++ [(id, none)]
  nodup := by
    rw [List.map_append, List.nodup_append]
    refine ⟨r.nodup, by simp, ?_⟩
    intro a mem b hb same
    rw [List.map_singleton, List.mem_singleton] at hb
    rw [same, hb] at mem
    exact fresh mem

/-- Records the branch of a node that was met. -/
def settle (r : Resolution) (id : NodeId) (branch : Nat) : Resolution where
  picks := r.picks.map fun pick => if pick.1 = id then (id, some branch) else pick
  nodup := by
    have same : (Prod.fst ∘ fun pick : NodeId × Option Nat =>
        if pick.1 = id then (id, some branch) else pick) = Prod.fst := by
      funext pick
      by_cases h : pick.1 = id <;> simp [h]
    rw [List.map_map, same]
    exact r.nodup

theorem nodes_mark (r : Resolution) {id : NodeId} (fresh : id ∉ r.nodes) :
    (r.mark id fresh).nodes = r.nodes ++ [id] := by
  simp [nodes, mark]

@[simp] theorem nodes_settle (r : Resolution) (id : NodeId) (branch : Nat) :
    (r.settle id branch).nodes = r.nodes := by
  rw [nodes, settle, List.map_map]
  refine List.map_congr_left fun pick _ => ?_
  by_cases h : pick.1 = id <;> simp [h]

/-- The recorded branches by node. -/
def sorted (r : Resolution) : List (NodeId × Nat) :=
  (r.picks.filterMap fun pick => pick.2.map (pick.1, ·)).mergeSort fun a b => a.1 ≤ b.1

/-- Whether two resolutions record the same, whatever the order. -/
def same (r s : Resolution) : Bool :=
  let byNode (picks : List (NodeId × Option Nat)) := picks.mergeSort fun a b => a.1 ≤ b.1
  byNode r.picks == byNode s.picks

end Resolution

/-- What a chooser answers at a node of a forest: the branch to keep, or none. -/
abbrev Chooser (κ : Type u) := Forest κ → Node → Option Nat

/-- The chooser that keeps the first branch. -/
def Chooser.first {κ : Type u} : Chooser κ := fun _ node =>
  if node.branches.isEmpty then none else some 0

/-- Why a choice comes to no resolution. -/
inductive ChoiceError where
  /-- The chooser names no branch of this node. -/
  | declined (id : NodeId)
  /-- The forest has no such node. -/
  | missing (id : NodeId)
  deriving DecidableEq

/-- A choice: the answers of the chooser in the order of its calls, and what came of them. -/
structure Choice where
  calls : List (NodeId × Option Nat)
  result : Except ChoiceError Resolution

namespace Choice

/-- The resolution that was reached. -/
def resolution? (choice : Choice) : Option Resolution := choice.result.toOption

/-- The choice with one more call in front. -/
def after (id : NodeId) (answer : Option Nat) (choice : Choice) : Choice :=
  { choice with calls := (id, answer) :: choice.calls }

end Choice

namespace Forest

variable {κ : Type u}

/-- A step of resolving. -/
inductive Task where
  /-- Resolve a node, unless it was met before. -/
  | enter (id : NodeId)
  /-- Record the branch of a node, now that those below it are resolved. -/
  | leave (id : NodeId) (branch : Nat)

/-- A mark for a node of the forest leaves fewer of its nodes unmarked. -/
theorem offPath_mark_lt {f : Forest κ} {r : Resolution} {id : NodeId} (bound : id < f.nodes.size)
    (fresh : id ∉ r.nodes) :
    offPath f.nodes.size (r.mark id fresh).nodes < offPath f.nodes.size r.nodes := by
  rw [r.nodes_mark]
  exact offPath_lt bound fresh (by simp) (List.subset_append_left _ _)

/-- Does what is on the stack; a node that is entered puts the nodes of its branch on it, and behind
them that it is left. -/
def chooseFrom (f : Forest κ) (chooser : Chooser κ) (r : Resolution) : List Task → Choice
  | [] => ⟨[], .ok r⟩
  | .leave id index :: stack => f.chooseFrom chooser (r.settle id index) stack
  | .enter id :: stack =>
    if fresh : id ∈ r.nodes then f.chooseFrom chooser r stack
    else if h : id < f.nodes.size then
      let node := f.nodes[id]
      let answer := chooser f node
      match answer.bind fun index => node.branches[index]?.map fun branch => (index, branch) with
      | none => ⟨[(id, answer)], .error (.declined id)⟩
      | some (index, branch) =>
        have := offPath_mark_lt h fresh
        (f.chooseFrom chooser (r.mark id fresh)
          (branch.nodes.map .enter ++ .leave id index :: stack)).after id answer
    else ⟨[], .error (.missing id)⟩
termination_by stack => (offPath f.nodes.size r.nodes, stack.length)

/-- **Resolving** the ambiguities below a node. -/
def choose (f : Forest κ) (chooser : Chooser κ) (root : NodeId) : Choice :=
  f.chooseFrom chooser {} [.enter root]

end Forest

end Earley
