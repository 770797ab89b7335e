import Earley.Proofs.Forest.WellFormed
import Mathlib.Algebra.BigOperators.Ring.Finset

/-!
# Proofs/Forest/Outline — when an outline marks a cycle, and what it shows if not

The outline of a node does not enter a node of its path again, so its depth is bounded by the number
of nodes.  It marks a cycle exactly if a descent comes back (`exists_cycle_iff`), and that
is if some node below stands below itself (`Packs.infinite_iff_exists_cycle`); then there is no
count.

Where no cycle is marked, the path that an outline is written with does not matter
(`outlineChild_congr`).  A node that is shared is therefore written out wherever it is met, and the
lines that show a child are as many as the ways down to it (`Complete.countP_outlineChild`).
-/

namespace Earley

universe u v

variable {κ : Type u}

/-- The entry that shows a child. -/
def Child.entry : Child NodeId → Entry
  | token index => .token index
  | node id => .node id

namespace Forest

variable {f : Forest κ} {stands : Nat → κ → Prop} {path path' : List NodeId} {depth : Nat}
  {id below : NodeId} {node : Node} {child last : Child NodeId} {line : Line}

/-! ## The depth -/

theorem offPath_nil (size : Nat) : offPath size [] = size := by
  simp [offPath]

/-- **An outline has two levels of depth at most for each node off the path**: one for the headings
of its branches and one for their children. -/
theorem depth_le (mem : line ∈ f.outlineChild path depth child) :
    line.depth ≤ depth + 2 * offPath f.nodes.size path := by
  induction path, child using f.descent_induction generalizing depth with
  | token path index =>
    rw [outlineChild_token, List.mem_singleton] at mem
    rw [mem]
    exact Nat.le_add_right _ _
  | again path id on =>
    rw [outlineChild_again on, List.mem_singleton] at mem
    rw [mem]
    exact Nat.le_add_right _ _
  | missing path id off absent =>
    rw [outlineChild_missing off absent] at mem
    exact absurd mem List.not_mem_nil
  | enter path id node off place ih =>
    have fewer := offPath_cons_lt (Array.getElem?_eq_some_iff.1 place).1 off
    rw [outlineChild_enter off place] at mem
    rcases List.mem_cons.1 mem with rfl | mem
    · exact Nat.le_add_right _ _
    · rcases of_mem_outlineBranches mem with ⟨index, rfl⟩ | ⟨branch, memBranch, child, memChild,
        mem⟩
      · change depth + 1 ≤ _
        omega
      · have le := ih branch memBranch child memChild mem
        split at le <;> omega

/-! ## Cycles -/

/-- A cycle is marked only where a descent comes back. -/
theorem reenters_of_marked (mem : line ∈ f.outlineChild path depth child)
    (marked : line.entry = .cycle below) : ∃ id, child = .node id ∧ f.Reenters path id := by
  induction path, child using f.descent_induction generalizing depth with
  | token path index =>
    rw [outlineChild_token, List.mem_singleton] at mem
    rw [mem] at marked
    cases marked
  | again path id on => exact ⟨id, rfl, .here on⟩
  | missing path id off absent =>
    rw [outlineChild_missing off absent] at mem
    exact absurd mem List.not_mem_nil
  | enter path id node off place ih =>
    rw [outlineChild_enter off place] at mem
    rcases List.mem_cons.1 mem with rfl | mem
    · cases marked
    · rcases of_mem_outlineBranches mem with ⟨index, rfl⟩ | ⟨branch, memBranch, child, memChild,
        mem⟩
      · cases marked
      · obtain ⟨next, rfl, rest⟩ := ih branch memBranch child memChild mem
        exact ⟨id, rfl, .down off ⟨node, place, branch, memBranch, memChild⟩ rest⟩

/-- **An outline marks a cycle exactly if a descent comes back.** -/
theorem exists_cycle_iff :
    (∃ line ∈ f.outlineChild path depth (.node id), ∃ below, line.entry = .cycle below)
      ↔ f.Reenters path id := by
  constructor
  · rintro ⟨line, mem, below, marked⟩
    obtain ⟨_, same, reenters⟩ := reenters_of_marked mem marked
    exact Child.node.inj same ▸ reenters
  · intro reenters
    induction reenters generalizing depth with
    | here on =>
      rw [outlineChild_again on]
      exact ⟨_, List.mem_singleton_self _, _, rfl⟩
    | down off parent _ ih =>
      obtain ⟨node, place, branch, memBranch, memChild⟩ := parent
      obtain ⟨line, mem, marked⟩ := ih
      rw [outlineChild_enter off place]
      exact ⟨line, List.mem_cons_of_mem _ (mem_outlineBranches memBranch memChild mem), marked⟩

/-- A descent that comes back comes to a node that stands below itself. -/
theorem Reenters.exists_cycle (h : f.Reenters path id)
    (above : ∀ ancestor ∈ path, Relation.TransGen f.Parent ancestor id) :
    ∃ below, Relation.ReflTransGen f.Parent id below
      ∧ Relation.TransGen f.Parent below below := by
  induction h with
  | here on => exact ⟨_, .refl, above _ on⟩
  | @down path id next _ parent _ ih =>
    obtain ⟨below, way, cycle⟩ := ih fun ancestor mem => by
      rcases List.mem_cons.1 mem with rfl | mem
      · exact .single parent
      · exact (above ancestor mem).tail parent
    exact ⟨below, .head parent way, cycle⟩

/-- **There are infinitely many trees below a node exactly if a node below it stands below
itself.** -/
theorem Packs.infinite_iff_exists_cycle (packs : f.Packs stands)
    (place : f.nodes[id]? = some node) : (f.treesBelow stands id).Infinite
      ↔ ∃ below, Relation.ReflTransGen f.Parent id below
        ∧ Relation.TransGen f.Parent below below := by
  constructor
  · intro infinite
    exact ((packs.infinite_iff_reenters place).1 infinite).exists_cycle nofun
  · rintro ⟨below, way, cycle⟩
    clear place
    induction way using Relation.ReflTransGen.head_induction_on with
    | refl => exact packs.infinite_of_cycle cycle
    | head parent _ ih => exact packs.infinite_of_parent parent ih

/-! ## Outlines without a cycle -/

/-- Branches with the same outlines of their children have the same outlines. -/
theorem outlineBranches_congr {headed : Bool} {index : Nat} {branches : List Branch}
    (same : ∀ branch ∈ branches, ∀ child ∈ branch, ∀ depth,
      f.outlineChild path depth child = f.outlineChild path' depth child) :
    f.outlineBranches path depth headed index branches
      = f.outlineBranches path' depth headed index branches := by
  rw [outlineBranches_eq, outlineBranches_eq]
  refine List.flatMap_congr ?_
  rintro ⟨branch, index⟩ mem
  have inner : ∀ depth, branch.flatMap (f.outlineChild path depth)
      = branch.flatMap (f.outlineChild path' depth) := fun depth =>
    List.flatMap_congr fun child memChild =>
      same branch (List.fst_mem_of_mem_zipIdx mem) child memChild depth
  simp only [inner]

/-- **Only the nodes of the path that stand below matter** to an outline. -/
theorem outlineChild_congr (same : ∀ id, child = .node id → ∀ below,
      Relation.ReflTransGen f.Parent id below → (below ∈ path ↔ below ∈ path')) :
    f.outlineChild path depth child = f.outlineChild path' depth child := by
  induction path, child using f.descent_induction generalizing path' depth with
  | token path index => rw [outlineChild_token, outlineChild_token]
  | again path id on =>
    rw [outlineChild_again on, outlineChild_again ((same id rfl id .refl).1 on)]
  | missing path id off absent =>
    rw [outlineChild_missing off absent,
      outlineChild_missing (mt (same id rfl id .refl).2 off) absent]
  | enter path id node off place ih =>
    rw [outlineChild_enter off place, outlineChild_enter (mt (same id rfl id .refl).2 off) place]
    refine congrArg (List.cons _) (outlineBranches_congr fun branch memBranch child memChild _ =>
      ih branch memBranch child memChild ?_)
    rintro next rfl below way
    have parent : f.Parent id next := ⟨node, place, branch, memBranch, memChild⟩
    rw [List.mem_cons, List.mem_cons, same id rfl below (.head parent way)]

/-- **Without a cycle a node is written out in full** wherever it is met: its line and, one after
the other, its branches with all their children. -/
theorem outlineChild_of_acyclic (place : f.nodes[id]? = some node)
    (acyclic : ¬ Relation.TransGen f.Parent id id) (depth : Nat) :
    f.outlineChild [] depth (.node id) = ⟨depth, .node id⟩
      :: node.branches.zipIdx.flatMap fun (branch, index) =>
        if node.isAmbiguous then
          ⟨depth + 1, .branch index⟩ :: branch.flatMap (f.outlineChild [] (depth + 2))
        else branch.flatMap (f.outlineChild [] (depth + 1)) := by
  rw [outlineChild_enter List.not_mem_nil place, ← outlineBranches_eq]
  refine congrArg (List.cons _) (outlineBranches_congr fun branch memBranch child memChild depth =>
    outlineChild_congr ?_)
  rintro next rfl below way
  have parent : f.Parent id next := ⟨_, place, branch, memBranch, memChild⟩
  refine ⟨fun mem => ?_, fun mem => absurd mem List.not_mem_nil⟩
  obtain rfl := List.mem_singleton.1 mem
  exact absurd (.head' parent way) acyclic

/-! ## Ways down -/

/-- **A way down** from a child to another: for every node on it, the number of the branch that it
goes into and the place of the child there that it goes to. -/
inductive Descends (f : Forest κ) : Child NodeId → List (Nat × Nat) → Child NodeId → Prop
  | here (child : Child NodeId) : Descends f child [] child
  | down {id : NodeId} {node : Node} {choice place : Nat} {branch : Branch}
      {child last : Child NodeId} {steps : List (Nat × Nat)} (atId : f.nodes[id]? = some node)
      (pick : node.branches[choice]? = some branch) (atPlace : branch[place]? = some child)
      (rest : Descends f child steps last) :
      Descends f (.node id) ((choice, place) :: steps) last

/-- A way down goes from parents to children. -/
theorem Descends.reflTransGen {steps : List (Nat × Nat)}
    (h : f.Descends (.node id) steps (.node below)) : Relation.ReflTransGen f.Parent id below := by
  induction steps generalizing id with
  | nil =>
    obtain ⟨⟩ := h
    exact .refl
  | cons step steps ih =>
    cases h with
    | @down _ node _ _ branch child _ _ atId pick atPlace rest =>
      cases child with
      | token index => cases rest
      | node next =>
        have parent : f.Parent id next :=
          ⟨node, atId, branch, List.mem_of_getElem? pick, List.mem_of_getElem? atPlace⟩
        exact .head parent (ih rest)

/-- Elements of sets that are numbered by their place in a list are counted set by set. -/
theorem encard_numbered {α β : Type} (xs : List α) (sets : α → Set β) :
    {pair : Nat × β | ∃ x, xs[pair.1]? = some x ∧ pair.2 ∈ sets x}.encard
      = (xs.map fun x => (sets x).encard).sum := by
  induction xs with
  | nil => simp
  | cons x xs ih =>
    have split : {pair : Nat × β | ∃ y, (x :: xs)[pair.1]? = some y ∧ pair.2 ∈ sets y}
        = Prod.mk 0 '' sets x ∪ Prod.map Nat.succ id ''
          {pair : Nat × β | ∃ y, xs[pair.1]? = some y ∧ pair.2 ∈ sets y} := by
      ext ⟨index, b⟩
      cases index <;> simp
    have apart : Disjoint (Prod.mk 0 '' sets x) (Prod.map Nat.succ id ''
        {pair : Nat × β | ∃ y, xs[pair.1]? = some y ∧ pair.2 ∈ sets y}) := by
      refine Set.disjoint_left.2 ?_
      rintro _ ⟨b, -, rfl⟩ ⟨⟨index, b'⟩, -, same⟩
      exact absurd (Prod.mk.inj same).1 (Nat.succ_ne_zero index)
    rw [split, Set.encard_union_eq apart, (Prod.mk_right_injective 0).encard_image,
      (Nat.succ_injective.prodMap Function.injective_id).encard_image, ih, List.map_cons,
      List.sum_cons]

/-- **The ways through the branches of a node**: the number of a branch, the place of a child in it,
and a way down from there. -/
def waysThrough (f : Forest κ) (node : Node) (last : Child NodeId) :
    Set (Nat × Nat × List (Nat × Nat)) :=
  {way | ∃ branch, node.branches[way.1]? = some branch
    ∧ ∃ child, branch[way.2.1]? = some child ∧ f.Descends child way.2.2 last}

/-- A way through a branch of a node as one down from the node. -/
def stepsOf (way : Nat × Nat × List (Nat × Nat)) : List (Nat × Nat) :=
  (way.1, way.2.1) :: way.2.2

theorem stepsOf_injective : Function.Injective stepsOf := by
  rintro ⟨choice, place, steps⟩ ⟨choice', place', steps'⟩ same
  obtain ⟨first, rfl⟩ := List.cons.inj same
  obtain ⟨rfl, rfl⟩ := Prod.mk.inj first
  rfl

theorem encard_waysThrough (f : Forest κ) (node : Node) (last : Child NodeId) :
    (f.waysThrough node last).encard = (node.branches.map fun branch =>
      (branch.map fun child => {steps | f.Descends child steps last}.encard).sum).sum := by
  have inner : ∀ branch ∈ node.branches,
      {way : Nat × List (Nat × Nat) | ∃ child, branch[way.1]? = some child
          ∧ f.Descends child way.2 last}.encard
        = (branch.map fun child => {steps | f.Descends child steps last}.encard).sum :=
    fun branch _ => encard_numbered branch fun child => {steps | f.Descends child steps last}
  rw [← List.map_congr_left inner]
  exact encard_numbered node.branches fun branch =>
    {way : Nat × List (Nat × Nat) | ∃ child, branch[way.1]? = some child
      ∧ f.Descends child way.2 last}

/-- A way that stays where it is. -/
theorem encard_stay (child last : Child NodeId) :
    {steps : List (Nat × Nat) | steps = [] ∧ child = last}.encard
      = if child = last then 1 else 0 := by
  by_cases same : child = last <;> simp [same]

theorem encard_descends_token (index : Nat) (last : Child NodeId) :
    {steps | f.Descends (.token index) steps last}.encard
      = if .token index = last then 1 else 0 := by
  rw [← encard_stay]
  congr 1
  ext steps
  constructor
  · rintro ⟨⟩
    exact ⟨rfl, rfl⟩
  · rintro ⟨rfl, rfl⟩
    exact .here _

/-- **The ways down from a node** are the one that ends there and those through its branches. -/
theorem encard_descends_node (atId : f.nodes[id]? = some node) (last : Child NodeId) :
    {steps | f.Descends (.node id) steps last}.encard
      = (if .node id = last then 1 else 0) + (node.branches.map fun branch =>
          (branch.map fun child => {steps | f.Descends child steps last}.encard).sum).sum := by
  have split : {steps | f.Descends (.node id) steps last}
      = {steps | steps = [] ∧ .node id = last} ∪ stepsOf '' f.waysThrough node last := by
    ext steps
    constructor
    · rintro (_ | ⟨atId', pick, atPlace, rest⟩)
      · exact .inl ⟨rfl, rfl⟩
      · obtain rfl := Option.some.inj (atId.symm.trans atId')
        exact .inr ⟨⟨_, _, _⟩, ⟨_, pick, _, atPlace, rest⟩, rfl⟩
    · rintro (⟨rfl, rfl⟩ | ⟨⟨choice, place, steps⟩, ⟨branch, pick, child, atPlace, rest⟩, rfl⟩)
      · exact .here _
      · exact .down atId pick atPlace rest
  have apart : Disjoint {steps : List (Nat × Nat) | steps = [] ∧ .node id = last}
      (stepsOf '' f.waysThrough node last) := by
    refine Set.disjoint_left.2 ?_
    rintro _ ⟨rfl, -⟩ ⟨_, -, same⟩
    exact absurd same (List.cons_ne_nil _ _)
  rw [split, Set.encard_union_eq apart, encard_stay, stepsOf_injective.encard_image,
    encard_waysThrough]

theorem entry_injective : Function.Injective Child.entry := by
  rintro (index | id) (index' | id') same
  · exact congrArg Child.token (Entry.token.inj same)
  · cases same
  · cases same
  · exact congrArg Child.node (Entry.node.inj same)

/-- The lines of branches that show a child are those among the lines of their children. -/
theorem countP_outlineBranches {headed : Bool} {index : Nat} {branches : List Branch}
    {count : Child NodeId → ℕ∞} (last : Child NodeId)
    (counted : ∀ branch ∈ branches, ∀ child ∈ branch, ∀ depth,
      ((f.outlineChild path depth child).countP (·.entry = last.entry) : ℕ∞) = count child) :
    ((f.outlineBranches path depth headed index branches).countP (·.entry = last.entry) : ℕ∞)
      = (branches.map fun branch => (branch.map count).sum).sum := by
  have children : ∀ branch ∈ branches, ∀ depth,
      ((branch.flatMap (f.outlineChild path depth)).countP (·.entry = last.entry) : ℕ∞)
        = (branch.map count).sum := by
    intro branch memBranch depth
    rw [List.countP_flatMap, Nat.cast_list_sum, List.map_map]
    exact congrArg List.sum (List.map_congr_left fun child memChild =>
      counted branch memBranch child memChild depth)
  nth_rewrite 2 [← List.zipIdx_map_fst index branches]
  rw [outlineBranches_eq, List.countP_flatMap, Nat.cast_list_sum, List.map_map, List.map_map]
  refine congrArg List.sum (List.map_congr_left ?_)
  rintro ⟨branch, number⟩ mem
  have memBranch : branch ∈ branches := List.fst_mem_of_mem_zipIdx mem
  cases headed with
  | false => exact children branch memBranch depth
  | true =>
    have heading : Entry.branch number ≠ last.entry := by cases last <;> exact nofun
    refine Eq.trans (congrArg Nat.cast ?_) (children branch memBranch (depth + 1))
    exact List.countP_cons_of_neg (by simpa using heading)

/-- **A child is shown once for each way down to it** if no descent comes back. -/
theorem Complete.countP_outlineChild (complete : f.Complete) (present : f.Present child)
    (never : ∀ id, child = .node id → ¬ f.Reenters path id) (last : Child NodeId) :
    ((f.outlineChild path depth child).countP (·.entry = last.entry) : ℕ∞)
      = {steps | f.Descends child steps last}.encard := by
  have own : ∀ child : Child NodeId,
      ((if decide (child.entry = last.entry) = true then 1 else 0 : Nat) : ℕ∞)
        = if child = last then 1 else 0 := by
    intro child
    by_cases same : child = last <;> simp [entry_injective.eq_iff, same]
  induction path, child using f.descent_induction generalizing depth with
  | token path index =>
    rw [encard_descends_token, outlineChild_token, List.countP_singleton]
    exact own (.token index)
  | again path id on => exact absurd (.here on) (never id rfl)
  | missing path id off absent => exact absurd present (Array.getElem?_eq_none_iff.1 absent).not_gt
  | enter path id node off place ih =>
    have inner := @countP_outlineBranches _ f (id :: path) (depth + 1) node.isAmbiguous 0
      node.branches _ last fun branch memBranch child memChild depth =>
        ih branch memBranch child memChild (complete id node place branch memBranch child memChild)
          (by
            rintro next rfl again
            exact never id rfl (.down off ⟨node, place, branch, memBranch, memChild⟩ again))
    rw [encard_descends_node place, outlineChild_enter off place, List.countP_cons, Nat.cast_add,
      inner, add_comm]
    exact congrArg (· + _) (own (.node id))

end Forest

/-- **Outlines and counts agree on cycles.**  Below any node of the forest of a parse, with cycles
or without, the outline comes to an end: it is at most twice as deep as there are nodes.  It marks a
cycle exactly if a node below stands below itself.  Where it does, there is no count; where it does
not, there is no count only if there are at least 2⁶⁴ trees.  And without a cycle every node that a
way leads to is written out in full, with each of its branches, and a child has as many lines as
there are ways down to it. -/
theorem outline_of_parse [DecidableEq κ] {σ : Type v} {g : Grammar κ} {tokenizer : Tokenizer κ σ}
    {equals : String → κ → Bool} {state : σ} {f : Forest κ}
    (h : parse g tokenizer equals state = .ok f) {id : NodeId} (bound : id < f.nodes.size) :
    let trees := f.treesBelow (recognize g tokenizer equals state).chart.Reads id
    let marked := ∃ line ∈ f.outline id, ∃ below, line.entry = .cycle below
    (∀ line ∈ f.outline id, line.depth ≤ 2 * f.nodes.size)
      ∧ (marked ↔ ∃ below, Relation.ReflTransGen f.Parent id below
          ∧ Relation.TransGen f.Parent below below)
      ∧ (marked → f.count id = none)
      ∧ (¬ marked →
        (f.count id = none → trees.Finite ∧ 2 ^ 64 ≤ trees.ncard)
          ∧ (∀ steps below node, f.Descends (.node id) steps (.node below) →
              f.nodes[below]? = some node → ∀ depth,
                f.outlineChild [] depth (.node below) = ⟨depth, .node below⟩
                  :: node.branches.zipIdx.flatMap fun (branch, index) =>
                    if node.isAmbiguous then
                      ⟨depth + 1, .branch index⟩ :: branch.flatMap (f.outlineChild [] (depth + 2))
                    else branch.flatMap (f.outlineChild [] (depth + 1)))
          ∧ ∀ last : Child NodeId, ((f.outline id).countP (·.entry = last.entry) : ℕ∞)
              = {steps | f.Descends (.node id) steps last}.encard) := by
  intro trees marked
  have packs : f.Packs (recognize g tokenizer equals state).chart.Reads := Forest.packs_parse h
  have complete : f.Complete := by
    obtain rfl := (parse_eq_ok_iff.1 h).2
    exact (Forest.wellFormed_ofChart Chart.sound_recognize Chart.saturated_recognize).complete
  have place : f.nodes[id]? = some f.nodes[id] := Array.getElem?_eq_getElem bound
  have reenters : marked ↔ f.Reenters [] id := Forest.exists_cycle_iff
  have cycles := packs.infinite_iff_exists_cycle place
  have infinite : marked ↔ trees.Infinite :=
    reenters.trans (packs.infinite_iff_reenters place).symm
  obtain ⟨tally, missing⟩ := packs.tally_count place
  refine ⟨fun line mem => ?_, infinite.trans cycles, fun cycle => ?_,
    fun never => ⟨fun uncounted => ?_, fun steps below node way atBelow => ?_, fun last => ?_⟩⟩
  · have le := Forest.depth_le mem
    rwa [Forest.offPath_nil, Nat.zero_add] at le
  · cases answer : f.count id with
    | none => rfl
    | some count =>
      exact absurd (Set.finite_of_encard_eq_coe (tally count answer).1) (infinite.1 cycle)
  · have finite : trees.Finite := Set.not_infinite.1 (mt infinite.2 never)
    have le := missing uncounted
    rw [← finite.cast_ncard_eq] at le
    exact ⟨finite, by exact_mod_cast le⟩
  · refine Forest.outlineChild_of_acyclic atBelow fun cycle => ?_
    exact never (infinite.2 (cycles.2 ⟨below, way.reflTransGen, cycle⟩))
  · refine complete.countP_outlineChild (show f.Present (.node id) from bound) ?_ last
    rintro _ ⟨⟩
    exact mt reenters.2 never

theorem Tree.loops_injective : Function.Injective Tree.loops := by
  intro depth depth' same
  induction depth generalizing depth' with
  | zero =>
    cases depth' with
    | zero => rfl
    | succ depth' => cases same
  | succ depth ih =>
    cases depth' with
    | zero => cases same
    | succ depth' => rw [ih (List.cons.inj (Tree.node.inj same).2).1]

/-- One root derives itself, and so there are trees without bound below it. -/
theorem exists_root_looping {f : Forest String} {stands : Nat → String → Prop}
    (packs : f.Packs stands) (grammar : f.grammar = looping) (size : f.tokens.size = 1)
    (reads : stands 0 "a") : ∃ root ∈ f.roots, ∃ node, f.nodes[root]? = some node
      ∧ (f.treesBelow stands root).Infinite := by
  have derivation : ∀ depth, Derivation looping stands [.nonterminal "S"] [.loops depth] 0 1 := by
    intro depth
    induction depth with
    | zero => exact .singleton_node (by decide) (.leaf reads (.nil 1))
    | succ depth ih => exact .singleton_node (by decide) ih
  obtain ⟨root, mem, node, place, _, same, -⟩ := packs.exists_root (.loops 1) (by
    rw [grammar, size]
    exact derivation 1)
  obtain ⟨node', place', -, start, stop⟩ := packs.root root mem
  obtain rfl := Option.some.inj (place.symm.trans place')
  have production : 0 = node.production := (Tree.node.inj same).1
  refine ⟨root, mem, node, place, Set.infinite_of_injective_forall_mem
    (Tree.loops_injective.comp Nat.succ_injective) fun depth => ?_⟩
  refine ⟨node, place, [.loops depth], congrArg (Tree.node · _) production, ?_⟩
  change Derivation f.grammar stands (f.grammar.symbols node.production) _ node.start node.stop
  rw [← production, grammar, start, stop, size]
  exact derivation depth

/-- The outline of a root that derives itself marks a cycle, and there is no count of its trees. -/
theorem outline_of_parse_looping :
    ∃ f, parse looping (.ofList String) (· == ·) [⟨"a", "a", 0, 1⟩] = .ok f
      ∧ ∃ root ∈ f.roots, (∀ line ∈ f.outline root, line.depth ≤ 2 * f.nodes.size)
        ∧ (∃ line ∈ f.outline root, ∃ below, line.entry = .cycle below)
        ∧ f.count root = none := by
  have run : (recognize looping (.ofList String) (· == ·) [⟨"a", "a", 0, 1⟩]).error? = none
      ∧ (recognize looping (.ofList String) (· == ·) [⟨"a", "a", 0, 1⟩]).chart.tokens.size = 1
      ∧ "a" ∈ (recognize looping (.ofList String) (· == ·)
          [⟨"a", "a", 0, 1⟩]).chart.accepted.getD 0 [] := by decide +kernel
  obtain ⟨done, size, reads⟩ := run
  have ok := parse_eq_ok_iff.2 ⟨done, rfl⟩
  have packs := Forest.packs_parse ok
  obtain ⟨root, mem, node, place, infinite⟩ := exists_root_looping packs rfl size reads
  obtain ⟨short, marks, uncounted, -⟩ :=
    outline_of_parse ok (Array.getElem?_eq_some_iff.1 place).1
  have marked := marks.2 ((packs.infinite_iff_exists_cycle place).1 infinite)
  exact ⟨_, ok, root, mem, short, marked, uncounted marked⟩

end Earley
