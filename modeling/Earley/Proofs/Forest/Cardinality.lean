import Earley.Proofs.Forest.Packing
import Mathlib.Data.Set.Card
import Mathlib.Data.Set.Finite.Lattice
import Mathlib.Data.Set.Finite.Lemmas
import Mathlib.Logic.Relation

/-!
# Proofs/Forest/Cardinality — how many trees lie below a node

The trees below a node are those along its branches, and no tree lies along two of them; along a
branch the trees of the children combine freely.  So the number of trees is a sum over branches of
products over children (`Packs.encard_treesBelow`), and no factor of it is zero.  A node below
itself has trees without bound, for every tree of it stands in a taller one
(`Packs.infinite_of_cycle`).
-/

namespace Earley

universe u

variable {κ : Type u}

/-- The trees below the root of a tree. -/
def Tree.children : Tree → List Tree
  | leaf _ => []
  | node _ children => children

namespace Forest

variable {f : Forest κ} {stands : Nat → κ → Prop} {id below : NodeId} {node : Node}
  {branch : Branch} {child : Child NodeId}

/-- The number of trees that a child stands for. -/
noncomputable def cardOf (f : Forest κ) (stands : Nat → κ → Prop) (child : Child NodeId) : ℕ∞ :=
  {tree | Child.Covers (f.treesBelow stands) child tree}.encard

@[simp] theorem cardOf_token {index : Nat} : f.cardOf stands (.token index) = 1 := by
  have single : {tree | Child.Covers (f.treesBelow stands) (.token index) tree}
      = {.leaf index} := by
    ext tree
    constructor
    · rintro ⟨⟩
      rfl
    · rintro rfl
      exact .token index
  rw [cardOf, single, Set.encard_singleton]

@[simp] theorem cardOf_node : f.cardOf stands (.node id) = (f.treesBelow stands id).encard := by
  rw [cardOf]
  congr 1
  ext tree
  exact Child.covers_node_iff

/-! ## Products and sums -/

/-- The lists with a first element from one set and the rest from another. -/
theorem encard_image_cons {α : Type} {firsts : Set α} {rests : Set (List α)} :
    ((fun pair : α × List α => pair.1 :: pair.2) '' (firsts ×ˢ rests)).encard
      = firsts.encard * rests.encard := by
  have injective : Function.Injective fun pair : α × List α => pair.1 :: pair.2 := by
    rintro ⟨x, xs⟩ ⟨y, ys⟩ same
    obtain ⟨rfl, rfl⟩ := List.cons.inj same
    rfl
  rw [injective.encard_image, Set.encard_prod]

/-- **Along a branch the trees of the children combine freely.** -/
theorem encard_along :
    {trees | f.Along stands branch trees}.encard = (branch.map (f.cardOf stands)).prod := by
  induction branch with
  | nil =>
    have single : {trees | f.Along stands [] trees} = {[]} := by
      ext trees
      exact List.forall₂_nil_left_iff
    rw [single, Set.encard_singleton, List.map_nil, List.prod_nil]
  | cons child branch ih =>
    have pairs : {trees | f.Along stands (child :: branch) trees}
        = (fun pair : Tree × List Tree => pair.1 :: pair.2) ''
          ({tree | Child.Covers (f.treesBelow stands) child tree}
            ×ˢ {trees | f.Along stands branch trees}) := by
      ext trees
      constructor
      · rintro (_ | ⟨first, rest⟩)
        exact ⟨(_, _), ⟨first, rest⟩, rfl⟩
      · rintro ⟨⟨tree, trees⟩, ⟨first, rest⟩, rfl⟩
        exact .cons first rest
    rw [pairs, encard_image_cons, ih, List.map_cons, List.prod_cons, cardOf]

theorem encard_biUnion_list {α β : Type} {sets : α → Set β} {xs : List α} (nodup : xs.Nodup)
    (unique : ∀ x ∈ xs, ∀ y ∈ xs, ∀ b, b ∈ sets x → b ∈ sets y → x = y) :
    {b | ∃ x ∈ xs, b ∈ sets x}.encard = (xs.map fun x => (sets x).encard).sum := by
  induction xs with
  | nil => simp
  | cons x xs ih =>
    obtain ⟨fresh, nodup⟩ := List.nodup_cons.1 nodup
    have union : {b | ∃ y ∈ x :: xs, b ∈ sets y} = sets x ∪ {b | ∃ y ∈ xs, b ∈ sets y} := by
      ext b
      simp
    have apart : Disjoint (sets x) {b | ∃ y ∈ xs, b ∈ sets y} := by
      refine Set.disjoint_left.2 ?_
      rintro b memX ⟨y, mem, memY⟩
      obtain rfl := unique x List.mem_cons_self y (List.mem_cons_of_mem x mem) b memX memY
      exact fresh mem
    rw [union, Set.encard_union_eq apart, List.map_cons, List.sum_cons,
      ih nodup fun y memY z memZ =>
        unique y (List.mem_cons_of_mem x memY) z (List.mem_cons_of_mem x memZ)]

/-- The trees below a node are as many as the derivations of its symbols. -/
theorem encard_treesBelow_eq (place : f.nodes[id]? = some node) :
    (f.treesBelow stands id).encard = {trees | Derivation f.grammar stands
      (f.grammar.symbols node.production) trees node.start node.stop}.encard := by
  have image : f.treesBelow stands id = Tree.node node.production '' {trees |
      Derivation f.grammar stands (f.grammar.symbols node.production) trees node.start
        node.stop} := by
    ext tree
    constructor
    · rintro ⟨node', place', children, rfl, derivation⟩
      obtain rfl := Option.some.inj (place.symm.trans place')
      exact ⟨children, derivation, rfl⟩
    · rintro ⟨children, derivation, rfl⟩
      exact ⟨node, place, children, rfl, derivation⟩
  have injective : Function.Injective (Tree.node node.production) :=
    fun _ _ same => (Tree.node.inj same).2
  rw [image, injective.encard_image]

/-- **The number of trees below a node** is the sum over its branches of the products over their
children. -/
theorem Packs.encard_treesBelow (packs : f.Packs stands) (place : f.nodes[id]? = some node) :
    (f.treesBelow stands id).encard
      = (node.branches.map fun branch => (branch.map (f.cardOf stands)).prod).sum := by
  have packed := packs.node id node place
  have shared : {trees | Derivation f.grammar stands (f.grammar.symbols node.production) trees
        node.start node.stop}
      = {trees | ∃ branch ∈ node.branches, trees ∈ {trees | f.Along stands branch trees}} :=
    Set.ext packed.derivation_iff
  rw [encard_treesBelow_eq place, shared, encard_biUnion_list packed.nodup]
  · exact congrArg List.sum (List.map_congr_left fun branch _ => encard_along)
  · exact packed.branch_eq

/-! ## No factor is zero -/

/-- A child of a branch of a node stands for some tree. -/
theorem PacksNode.exists_covers (packed : f.PacksNode stands node) (mem : branch ∈ node.branches)
    (memChild : child ∈ branch) : ∃ tree, Child.Covers (f.treesBelow stands) child tree := by
  obtain ⟨trees, along⟩ := packed.exists_trees branch mem
  clear mem
  induction along with
  | nil => exact absurd memChild List.not_mem_nil
  | cons first _ ih =>
    rcases List.mem_cons.1 memChild with rfl | later
    · exact ⟨_, first⟩
    · exact ih later

theorem PacksNode.one_le_cardOf (packed : f.PacksNode stands node) (mem : branch ∈ node.branches)
    (memChild : child ∈ branch) : 1 ≤ f.cardOf stands child :=
  Set.one_le_encard_iff_nonempty.2 (packed.exists_covers mem memChild)

/-- The nodes of a branch are in the arena. -/
theorem PacksNode.exists_place (packed : f.PacksNode stands node) (mem : branch ∈ node.branches)
    (memChild : .node below ∈ branch) : ∃ node', f.nodes[below]? = some node' := by
  obtain ⟨tree, covers⟩ := packed.exists_covers mem memChild
  obtain ⟨node', place, -⟩ := Child.covers_node_iff.1 covers
  exact ⟨node', place⟩

theorem Packs.nonempty_treesBelow (packs : f.Packs stands) (place : f.nodes[id]? = some node) :
    (f.treesBelow stands id).Nonempty := by
  obtain ⟨children, derivation⟩ :=
    derives_iff_exists_derivation.1 (packs.node id node place).derived.read
  exact ⟨_, node, place, children, rfl, derivation⟩

/-! ## Cycles -/

/-- A node has another among the children of its branches. -/
def Parent (f : Forest κ) (id below : NodeId) : Prop :=
  ∃ node, f.nodes[id]? = some node ∧ ∃ branch ∈ node.branches, .node below ∈ branch

/-- A tree of a child fits into trees along the branch. -/
theorem exists_along_of_covers {tree : Tree} {trees : List Tree}
    (along : f.Along stands branch trees) (mem : child ∈ branch)
    (covers : Child.Covers (f.treesBelow stands) child tree) :
    ∃ trees, f.Along stands branch trees ∧ tree ∈ trees := by
  induction along with
  | nil => exact absurd mem List.not_mem_nil
  | cons first rest ih =>
    rcases List.mem_cons.1 mem with rfl | later
    · exact ⟨_, .cons covers rest, List.mem_cons_self⟩
    · obtain ⟨trees, along, memTree⟩ := ih later
      exact ⟨_, .cons first along, List.mem_cons_of_mem _ memTree⟩

/-- **A tree below a child is part of a tree below its parent.** -/
theorem Packs.exists_above (packs : f.Packs stands) (parent : f.Parent id below) {tree : Tree}
    (mem : tree ∈ f.treesBelow stands below) :
    ∃ production trees, .node production trees ∈ f.treesBelow stands id ∧ tree ∈ trees := by
  obtain ⟨node, place, branch, memBranch, memChild⟩ := parent
  have packed := packs.node id node place
  obtain ⟨_, along⟩ := packed.exists_trees branch memBranch
  obtain ⟨trees, along, memTree⟩ := exists_along_of_covers along memChild (.node mem)
  exact ⟨node.production, trees, ⟨node, place, trees, rfl,
    (packed.derivation_iff trees).2 ⟨branch, memBranch, along⟩⟩, memTree⟩

theorem sizeOf_lt_sizeOf_node {tree : Tree} {trees : List Tree} (production : ProdId)
    (mem : tree ∈ trees) : sizeOf tree < sizeOf (Tree.node production trees) := by
  have := List.sizeOf_lt_of_mem mem
  rw [Tree.node.sizeOf_spec]
  omega

/-- A tree below a node is smaller than some tree below any node above it. -/
theorem Packs.exists_taller (packs : f.Packs stands) (path : Relation.TransGen f.Parent id below)
    {tree : Tree} (mem : tree ∈ f.treesBelow stands below) :
    ∃ taller ∈ f.treesBelow stands id, sizeOf tree < sizeOf taller := by
  induction path using Relation.TransGen.head_induction_on with
  | single parent =>
    obtain ⟨production, trees, above, memTree⟩ := packs.exists_above parent mem
    exact ⟨_, above, sizeOf_lt_sizeOf_node production memTree⟩
  | head parent _ ih =>
    obtain ⟨middle, memMiddle, lt⟩ := ih
    obtain ⟨production, trees, above, memTree⟩ := packs.exists_above parent memMiddle
    exact ⟨_, above, lt.trans (sizeOf_lt_sizeOf_node production memTree)⟩

/-- **A node below itself has infinitely many trees**: none of them is the tallest. -/
theorem Packs.infinite_of_cycle (packs : f.Packs stands)
    (cycle : Relation.TransGen f.Parent id id) : (f.treesBelow stands id).Infinite := by
  intro finite
  obtain ⟨_, ⟨node, place, -⟩, -⟩ := Relation.TransGen.head'_iff.1 cycle
  obtain ⟨tallest, mem, bound⟩ :=
    Set.exists_max_image _ (sizeOf : Tree → Nat) finite (packs.nonempty_treesBelow place)
  obtain ⟨taller, memTaller, lt⟩ := packs.exists_taller cycle mem
  exact absurd (bound taller memTaller) (Nat.not_le.2 lt)

/-- **Infinitely many trees below a child make infinitely many below its parent.** -/
theorem Packs.infinite_of_parent (packs : f.Packs stands) (parent : f.Parent id below)
    (infinite : (f.treesBelow stands below).Infinite) : (f.treesBelow stands id).Infinite := by
  intro (finite : (f.treesBelow stands id).Finite)
  have parts : (⋃ tree ∈ f.treesBelow stands id, {part | part ∈ tree.children}).Finite :=
    Set.Finite.biUnion finite fun tree _ => tree.children.finite_toSet
  refine infinite (parts.subset fun tree mem => ?_)
  obtain ⟨production, trees, above, memTree⟩ := packs.exists_above parent mem
  exact Set.mem_biUnion above memTree

end Forest

end Earley
