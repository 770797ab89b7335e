import Earley.Proofs.Bracketing.Catalan
import Earley.Proofs.Forest.Order
import Earley.Proofs.Numerals
import Mathlib.Data.List.MinMax

/-!
# Proofs/Bracketing/Associativity — a chooser decides how a chain is grouped

Every way to part a stretch of a chain is a branch of its node, and its first child ends where the
first part does (`Forest.exists_branch_of_parts`).  So picks that prefer the latest end lead to the
bracketing that groups to the left (`Forest.Follows.eq_leftComb`), and picks that prefer the
earliest one to that which groups to the right (`Forest.Follows.eq_rightComb`).  The first branch
has the earliest end, as branches are in order (`Forest.prefers_first`).  With such choosers a root
is accepted with the folds of the values of the atoms (`accept_eq_foldLeft`, `accept_eq_foldRight`).
-/

namespace Earley

universe u

variable {κ : Type u} {stands : Nat → κ → Prop} {name : String} {separators : List κ} {atom : κ}
  {gap i l m r count : Nat} {left right shape : BinaryTree Unit} {tree : Tree} {trees : List Tree}

theorem eq_nil_of_numNodes (none : shape.numNodes = 0) : shape = .nil := by
  cases shape with
  | nil => rfl
  | node => exact absurd none (Nat.succ_ne_zero _)

/-! ## Choosers of a first child -/

namespace Forest

/-- Where the first child of a branch ends. -/
def firstEnd (f : Forest κ) (branch : Branch) : Nat :=
  (branch.head?.map fun child => (f.extent child).2).getD 0

/-- **Picks prefer first children by their ends**: where there is more than an atom, the first child
of the picked branch compares so with that of any other one. -/
def Prefers (f : Forest κ) (order : Nat → Nat → Prop) (picks : Picks) : Prop :=
  ∀ id node branch, f.nodes[id]? = some node → node.production = 0 →
    f.picked? picks id = some branch → ∀ other ∈ node.branches,
      order (f.firstEnd other) (f.firstEnd branch)

variable {f : Forest κ} {picks : Picks} {id : NodeId} {node : Node} {branch : Branch}

theorem firstEnd_cons_node {row : Branch} (place : f.nodes[id]? = some node) :
    f.firstEnd (.node id :: row) = node.stop := by
  rw [firstEnd, List.head?_cons, Option.map_some, extent, place]
  rfl

/-- A branch does not begin with a longer child than those behind it. -/
theorem firstEnd_le_of_lex {branch' : Branch} (h : Child.Lex f.Before branch branch') :
    f.firstEnd branch ≤ f.firstEnd branch' := by
  cases h with
  | here less =>
    obtain ⟨node, node', place, place', precedes⟩ := less
    rw [firstEnd_cons_node place, firstEnd_cons_node place']
    exact precedes.before.elim Nat.le_of_lt fun same => Nat.le_of_eq same.1
  | there => exact Nat.le_refl _

/-- **By default the earliest end is preferred**, as the first branch is kept. -/
theorem prefers_first [DecidableEq κ] {g : Grammar κ} {chart : Chart κ} (sound : chart.Sound g)
    (saturated : chart.Saturated g) :
    (Forest.ofChart g chart).Prefers (· ≥ ·) ((Forest.ofChart g chart).answers .first) := by
  intro id node branch place _ pick other mem
  obtain ⟨node', index, place', answer, atIndex⟩ := picked?_answers_eq_some_iff.1 pick
  obtain rfl := Option.some.inj (place.symm.trans place')
  obtain rfl := eq_zero_of_first answer
  obtain ⟨others, branches⟩ := List.head?_eq_some_iff.1 (List.head?_eq_getElem?.trans atIndex)
  have ordered := pairwise_branches_ofChart sound saturated place
  rw [branches] at ordered mem
  rcases List.mem_cons.1 mem with rfl | mem
  · exact Nat.le_refl _
  · exact firstEnd_le_of_lex ((List.pairwise_cons.1 ordered).1 other mem)

end Forest

/-- **The branch whose first child ends latest**, the last one of several. -/
def Chooser.latest : Chooser κ := fun f node =>
  (List.range node.branches.length).reverse.argmax fun index =>
    (node.branches[index]?.map f.firstEnd).getD 0

/-- A chooser for the nodes of one production; for all others the first branch is kept. -/
def Chooser.onRule (production : ProdId) (chooser : Chooser κ) : Chooser κ := fun f node =>
  if node.production = production then chooser f node else Chooser.first f node

namespace Forest

variable {f : Forest κ} {picks : Picks} {id : NodeId} {node : Node} {branch : Branch}

theorem exists_latest (present : node.branches ≠ []) : ∃ index branch,
    Chooser.latest f node = some index ∧ node.branches[index]? = some branch := by
  have places : (List.range node.branches.length).reverse ≠ [] := by simpa using present
  obtain ⟨index, answer⟩ :=
    Option.ne_none_iff_exists'.1 (mt List.argmax_eq_none.1 places : Chooser.latest f node ≠ none)
  have bound := List.mem_range.1 (List.mem_reverse.1 (List.argmax_mem answer))
  exact ⟨index, _, answer, List.getElem?_eq_getElem bound⟩

theorem firstEnd_le_of_latest {index : Nat} (answer : Chooser.latest f node = some index)
    (atIndex : node.branches[index]? = some branch) :
    ∀ other ∈ node.branches, f.firstEnd other ≤ f.firstEnd branch := by
  intro other mem
  obtain ⟨place, there⟩ := List.mem_iff_getElem?.1 mem
  have bound := (List.getElem?_eq_some_iff.1 there).1
  have le := List.le_of_mem_argmax (List.mem_reverse.2 (List.mem_range.2 bound)) answer
  simpa [there, atIndex] using le

/-- Where it is asked for, the latest end is preferred. -/
theorem prefers_latest : f.Prefers (· ≤ ·) (f.answers (.onRule 0 .latest)) := by
  intro id node branch place double pick other mem
  obtain ⟨node', index, place', answer, atIndex⟩ := picked?_answers_eq_some_iff.1 pick
  obtain rfl := Option.some.inj (place.symm.trans place')
  rw [Chooser.onRule, if_pos double] at answer
  exact firstEnd_le_of_latest answer atIndex other mem

/-- **A branch that begins with the latest end is found everywhere.** -/
theorem Packs.resolves_latest (packs : f.Packs stands) {production : ProdId} {root : NodeId}
    (bound : root < f.nodes.size) :
    f.Resolves (f.answers (.onRule production .latest)) root := by
  refine packs.resolves_of_picked (fun id bound => ?_) bound
  have place : f.nodes[id]? = some f.nodes[id] := Array.getElem?_eq_getElem bound
  obtain ⟨first, others, branches⟩ := packs.exists_branch place
  by_cases own : f.nodes[id].production = production
  · obtain ⟨index, branch, answer, atIndex⟩ :=
      @exists_latest _ f f.nodes[id] (branches ▸ List.cons_ne_nil first others)
    exact ⟨branch,
      picked?_answers_eq_some_iff.2 ⟨_, index, place, (if_pos own).trans answer, atIndex⟩⟩
  · refine ⟨first, picked?_answers_eq_some_iff.2 ⟨_, 0, place, (if_neg own).trans ?_, ?_⟩⟩
    · rw [Chooser.first, branches]
      rfl
    · rw [branches]
      rfl

/-! ## Following picks -/

theorem Follows.of_node {production : ProdId} {children : List Tree}
    (h : f.Follows picks [.node id] [.node production children]) :
    ∃ node picked, f.nodes[id]? = some node ∧ node.production = production
      ∧ f.picked? picks id = some picked ∧ f.Follows picks picked children := by
  generalize same : Tree.node production children = tree at h
  cases h with
  | node place pick below =>
    obtain ⟨rfl, rfl⟩ := Tree.node.inj same
    exact ⟨_, _, place, rfl, pick, below⟩

theorem Follows.of_cons_node {production : ProdId} {children : List Tree}
    (h : f.Follows picks branch (.node production children :: trees)) :
    ∃ id row, branch = .node id :: row ∧ f.Follows picks [.node id] [.node production children]
      ∧ f.Follows picks row trees := by
  generalize same : Tree.node production children = tree at h
  cases h with
  | token => exact nomatch same
  | node place pick below tail => exact ⟨_, _, rfl, same ▸ .node place pick below .nil, tail⟩

theorem Follows.of_cons_bracketing
    (h : f.Follows picks branch (bracketing gap shape i :: trees)) :
    ∃ id row, branch = .node id :: row ∧ f.Follows picks [.node id] [bracketing gap shape i]
      ∧ f.Follows picks row trees := by
  obtain ⟨_, top⟩ := exists_bracketing_eq_node shape
  rw [top] at h ⊢
  exact h.of_cons_node

theorem Along.of_cons_bracketing
    (h : f.Along stands branch (bracketing gap shape i :: trees)) :
    ∃ id row, branch = .node id :: row ∧ bracketing gap shape i ∈ f.treesBelow stands id := by
  obtain ⟨child, row, covers, -, rfl⟩ := List.forall₂_cons_right_iff.1 h
  obtain ⟨_, top⟩ := exists_bracketing_eq_node shape
  rw [top] at covers ⊢
  cases covers with
  | node below => exact ⟨_, row, rfl, below⟩

theorem Follows.of_leaves_append {pos : Nat}
    (h : f.Follows picks branch (leaves pos gap ++ trees)) :
    ∃ row, f.Follows picks row trees := by
  induction gap generalizing pos branch with
  | zero => exact ⟨branch, h⟩
  | succ gap ih =>
    cases h with
    | token tail => exact ih tail

variable (packs : f.Packs stands) (rules : f.grammar = doubling name separators atom)
  (chain : Chain stands separators atom count)

include packs rules chain

/-- Every node is one of a stretch. -/
theorem exists_stretch_of_node (place : f.nodes[id]? = some node) :
    ∃ i m, i + m < count ∧ node.span = stretch separators.length i m := by
  have derived := (packs.node id node place).derived
  rw [rules] at derived
  exact chain.exists_stretch (Doubling.mem_productionsOf_of_lt derived.production_lt) derived.read

/-- **The node above a bracketing** is that of its stretch. -/
theorem exists_node_of_bracketing
    (below : bracketing separators.length shape i ∈ f.treesBelow stands id) :
    ∃ node, f.nodes[id]? = some node ∧ i + shape.numNodes < count
      ∧ node.span = stretch separators.length i shape.numNodes := by
  obtain ⟨node, place, mem⟩ := below
  obtain ⟨j, m, bound, span⟩ := exists_stretch_of_node packs rules chain place
  rw [rules, span, chain.mem_trees_stretch_iff bound] at mem
  obtain ⟨shape', rfl, same⟩ := mem
  obtain ⟨rfl, rfl⟩ := bracketing_inj.1 same
  exact ⟨node, place, bound, span⟩

theorem firstEnd_of_bracketing {row : Branch}
    (below : bracketing separators.length shape i ∈ f.treesBelow stands id) :
    f.firstEnd (.node id :: row) = atomPlace separators.length (i + shape.numNodes) + 1 := by
  obtain ⟨node, place, -, span⟩ := exists_node_of_bracketing packs rules chain below
  rw [firstEnd_cons_node place]
  exact congrArg Span.stop span

/-- **There is a branch for every way to part the atoms** of a stretch. -/
theorem exists_branch_of_parts (place : f.nodes[id]? = some node) (bound : i + (l + r + 1) < count)
    (span : node.span = stretch separators.length i (l + r + 1)) :
    ∃ branch ∈ node.branches, f.firstEnd branch = atomPlace separators.length (i + l) + 1 := by
  have nodes : (BinaryTree.node () (rightComb l) (rightComb r)).numNodes = l + r + 1 := by
    rw [BinaryTree.numNodes, numNodes_rightComb, numNodes_rightComb]
  have mem : bracketing separators.length (.node () (rightComb l) (rightComb r)) i
      ∈ node.span.trees f.grammar stands := by
    rw [rules, span, chain.mem_trees_stretch_iff bound]
    exact ⟨_, nodes, rfl⟩
  obtain ⟨children, same, derivation⟩ := mem
  obtain ⟨-, rfl⟩ := Tree.node.inj same
  obtain ⟨branch, mem, along⟩ := ((packs.node id node place).derivation_iff _).1 derivation
  obtain ⟨first, row, rfl, below⟩ := Along.of_cons_bracketing along
  refine ⟨_, mem, ?_⟩
  rw [firstEnd_of_bracketing packs rules chain below, numNodes_rightComb]

/-- **A bracketing is followed into its parts**, and the picked branch is preferred to that of any
other way to part the atoms. -/
theorem Follows.parts {order : Nat → Nat → Prop} {u : Unit} (prefers : f.Prefers order picks)
    (h : f.Follows picks [.node id] [bracketing separators.length (.node u left right) i]) :
    (∀ l r, l + r = left.numNodes + right.numNodes → order
        (atomPlace separators.length (i + l) + 1)
        (atomPlace separators.length (i + left.numNodes) + 1))
      ∧ (∃ id, f.Follows picks [.node id] [bracketing separators.length left i])
      ∧ ∃ id, f.Follows picks [.node id]
          [bracketing separators.length right (i + left.numNodes + 1)] := by
  obtain ⟨node, place, bound, span⟩ :=
    exists_node_of_bracketing packs rules chain (h.mem_treesBelow packs)
  obtain ⟨node', picked, place', double, pick, below⟩ := h.of_node
  obtain rfl := Option.some.inj (place.symm.trans place')
  obtain ⟨first, row, rfl, front, behind⟩ := below.of_cons_bracketing
  obtain ⟨_, back⟩ := behind.of_leaves_append
  obtain ⟨last, _, rfl, back, -⟩ := back.of_cons_bracketing
  refine ⟨fun l r total => ?_, ⟨first, front⟩, last, back⟩
  rw [BinaryTree.numNodes, ← total] at bound span
  obtain ⟨other, mem, ends⟩ := exists_branch_of_parts packs rules chain place bound span
  rw [← ends, ← firstEnd_of_bracketing packs rules chain (front.mem_treesBelow packs)]
  exact prefers id node _ place double pick other mem

/-- **Where the latest end is preferred, a bracketing groups to the left.** -/
theorem Follows.eq_leftComb (prefers : f.Prefers (· ≤ ·) picks)
    (h : f.Follows picks [.node id] [bracketing separators.length shape i]) :
    shape = leftComb shape.numNodes := by
  induction shape generalizing id i with
  | nil => rfl
  | node _ left right ihLeft _ =>
    obtain ⟨preferred, ⟨_, front⟩, -⟩ := h.parts packs rules chain prefers
    -- The first part ends as late as if there were one atom only behind it.
    have le := preferred (left.numNodes + right.numNodes) 0 rfl
    have within := atomPlace_strictMono.le_iff_le.1 (Nat.le_of_succ_le_succ le)
    obtain rfl : right = .nil := eq_nil_of_numNodes (by omega)
    exact congrArg (BinaryTree.node () · .nil) (ihLeft front)

/-- **Where the earliest end is preferred, a bracketing groups to the right.** -/
theorem Follows.eq_rightComb (prefers : f.Prefers (· ≥ ·) picks)
    (h : f.Follows picks [.node id] [bracketing separators.length shape i]) :
    shape = rightComb shape.numNodes := by
  induction shape generalizing id i with
  | nil => rfl
  | node _ left right _ ihRight =>
    obtain ⟨preferred, -, _, back⟩ := h.parts packs rules chain prefers
    -- The first part ends as early as if it were one atom only.
    have le := preferred 0 (left.numNodes + right.numNodes) (Nat.zero_add _)
    have within := atomPlace_strictMono.le_iff_le.1 (Nat.le_of_succ_le_succ le)
    obtain rfl : left = .nil := eq_nil_of_numNodes (by omega)
    rw [BinaryTree.numNodes, BinaryTree.numNodes, Nat.zero_add]
    exact congrArg (BinaryTree.node () .nil) (ihRight back)

end Forest

/-! ## Values of bracketings -/

/-- The fold of values to the left. -/
def foldLeft (operation : Int → Int → Int) : List Int → Int
  | [] => 0
  | x :: xs => xs.foldl operation x

/-- The fold of values to the right. -/
def foldRight (operation : Int → Int → Int) : List Int → Int
  | [] => 0
  | [x] => x
  | x :: y :: xs => operation x (foldRight operation (y :: xs))

/-- **The value of values that are grouped** by a bracketing. -/
def grouped (operation : Int → Int → Int) (values : List Int) : BinaryTree Unit → Nat → Int
  | .nil, i => values[i]?.getD 0
  | .node _ left right, i =>
    operation (grouped operation values left i)
      (grouped operation values right (i + left.numNodes + 1))

variable {operation : Int → Int → Int} {values : List Int}

theorem grouped_leftComb {x : Int} {xs : List Int} (bound : m ≤ xs.length) :
    grouped operation (x :: xs) (leftComb m) 0 = (xs.take m).foldl operation x := by
  induction m with
  | zero => rfl
  | succ m ih =>
    have last : (x :: xs)[0 + m + 1]?.getD 0 = xs[m] := by
      rw [Nat.zero_add, List.getElem?_cons_succ, List.getElem?_eq_getElem bound, Option.getD_some]
    rw [leftComb, grouped, numNodes_leftComb, grouped, last, ih (Nat.le_of_succ_le bound),
      List.take_succ_eq_append_getElem bound, List.foldl_append]
    rfl

/-- **Grouping to the left folds to the left.** -/
theorem grouped_leftComb_eq_foldLeft (length : values.length = m + 1) :
    grouped operation values (leftComb m) 0 = foldLeft operation values := by
  obtain ⟨x, xs, rfl⟩ := List.exists_cons_of_length_eq_add_one length
  obtain rfl : xs.length = m := Nat.succ.inj length
  rw [grouped_leftComb (Nat.le_refl _), List.take_length, foldLeft]

/-- **Grouping to the right folds to the right.** -/
theorem grouped_rightComb (length : i + m + 1 = values.length) :
    grouped operation values (rightComb m) i = foldRight operation (values.drop i) := by
  induction m generalizing i with
  | zero =>
    have bound : i < values.length := by omega
    rw [List.drop_eq_getElem_cons bound, List.drop_of_length_le (by omega), rightComb, grouped,
      List.getElem?_eq_getElem bound]
    rfl
  | succ m ih =>
    have bound : i < values.length := by omega
    have next : i + 1 < values.length := by omega
    have inner := ih (show i + 1 + m + 1 = values.length by omega)
    rw [List.drop_eq_getElem_cons next] at inner
    rw [List.drop_eq_getElem_cons bound, List.drop_eq_getElem_cons next, foldRight, ← inner,
      rightComb, grouped, grouped, List.getElem?_eq_getElem bound]
    rfl

section Joined

variable {pattern : Pattern .standard} {sign : Char} {numerals : List Decimal}
  {tokens : Array (Token (Pattern .standard))} {chooser : Chooser (Pattern .standard)}

/-- **The value of a bracketing** is that of the numerals grouped by it. -/
theorem value?_bracketing (spelled : tokens.toList.map wordOf = joined pattern sign numerals)
    (bound : i + shape.numNodes < numerals.length) :
    (bracketing 1 shape i).value? (.ofOperation operation chooser) tokens
      = some (grouped operation (numerals.map Decimal.value) shape i) := by
  induction shape generalizing i with
  | nil =>
    have bound : i < numerals.length := bound
    obtain ⟨token, place, means⟩ :=
      exists_token_of_joined spelled (List.getElem?_eq_getElem bound)
    rw [grouped, List.getElem?_map, List.getElem?_eq_getElem bound, Option.map_some,
      Option.getD_some, ← means]
    exact Tree.value?_node (Tree.values?_cons (Tree.value?_leaf place) rfl)
  | node _ left right ihLeft ihRight =>
    rw [BinaryTree.numNodes] at bound
    obtain ⟨token, place⟩ := exists_sign_of_joined spelled
      (show i + left.numNodes + 1 < numerals.length by omega)
    exact Tree.value?_node (Tree.values?_cons (ihLeft (by omega))
      (Tree.values?_cons (Tree.value?_leaf place) (Tree.values?_cons (ihRight (by omega)) rfl)))

variable {f : Forest (Pattern .standard)} {root : NodeId} {node : Node}
  (packs : f.Packs (KindAt f.tokens))
  (rules : f.grammar = doubling name [.literal (String.singleton sign)] pattern)
  (chain : Chain (KindAt f.tokens) [.literal (String.singleton sign)] pattern numerals.length)
  (spelled : f.tokens.toList.map wordOf = joined pattern sign numerals)
  (length : numerals.length = m + 1) (place : f.nodes[root]? = some node)
  (span : node.span = stretch 1 0 m) (finite : (f.treesBelow (KindAt f.tokens) root).Finite)
  (resolves : f.Resolves (f.answers chooser) root)

include packs rules chain spelled length place span finite resolves

/-- **A root is accepted** with the value of the one bracketing that the picks lead to. -/
theorem accept_of_follows (alone : ∀ other : BinaryTree Unit, other.numNodes = m →
      f.Follows (f.answers chooser) [.node root] [bracketing 1 other 0] → other = shape) :
    f.accept (.ofOperation operation chooser) root
      = some (grouped operation (numerals.map Decimal.value) shape 0) := by
  have bound : 0 + m < numerals.length := by omega
  have resolves : f.Resolves (f.answers (Semantics.ofOperation operation chooser).chooser) root :=
    resolves
  obtain ⟨tree, value, _, _, folds, -, -, accepted⟩ :=
    packs.exists_folds_of_finite (fun _ _ => KindAt.lt) finite resolves
  obtain ⟨node', place', mem⟩ := folds.follows.mem_treesBelow packs
  obtain rfl := Option.some.inj (place.symm.trans place')
  rw [rules, span] at mem
  obtain ⟨other, nodes, rfl⟩ := (chain.mem_trees_stretch_iff bound).1 mem
  obtain rfl := alone other nodes folds.follows
  have means := Tree.value?_of_values? folds.values_eq
  exact accepted.trans (means.symm.trans (value?_bracketing spelled (nodes.symm ▸ bound)))

/-- **A chooser of latest ends folds to the left.** -/
theorem accept_eq_foldLeft (prefers : f.Prefers (· ≤ ·) (f.answers chooser)) :
    f.accept (.ofOperation operation chooser) root
      = some (foldLeft operation (numerals.map Decimal.value)) := by
  rw [← grouped_leftComb_eq_foldLeft ((List.length_map _).trans length)]
  refine accept_of_follows packs rules chain spelled length place span finite resolves ?_
  rintro other rfl follows
  exact follows.eq_leftComb packs rules chain prefers

/-- **A chooser of earliest ends folds to the right.** -/
theorem accept_eq_foldRight (prefers : f.Prefers (· ≥ ·) (f.answers chooser)) :
    f.accept (.ofOperation operation chooser) root
      = some (foldRight operation (numerals.map Decimal.value)) := by
  have values : 0 + m + 1 = (numerals.map Decimal.value).length := by
    rw [List.length_map, length, Nat.zero_add]
  have whole := @grouped_rightComb 0 m operation _ values
  rw [List.drop_zero] at whole
  rw [← whole]
  refine accept_of_follows packs rules chain spelled length place span finite resolves ?_
  rintro other rfl follows
  exact follows.eq_rightComb packs rules chain prefers

end Joined

/-! ## Differences -/

/-- Differences of numerals. -/
def difference : Grammar (Pattern .standard) :=
  .ofList "e" [⟨"e", [.nonterminal "e", .terminal (.literal "-"), .nonterminal "e"]⟩,
    ⟨"e", [.terminal anyDigits]⟩]

/-- **Choosers decide associativity.**  A text of numerals with minus signs between them has a
single root with Catalan many trees.  Where nodes of differences are left to the latest end, the
root is accepted with the fold of the numbers to the left, and by default with their fold to the
right.  With either chooser, a resolution is found from every node. -/
theorem accept_difference {numerals : List Decimal} (present : numerals ≠ []) {text : String}
    (spaced : Spaced (joined anyDigits '-' numerals) text.toList) :
    let values := numerals.map Decimal.value
    let toLeft : Chooser (Pattern .standard) := .onRule 0 .latest
    ∃ f root, difference.parse text = .ok f ∧ f.roots = [root]
      ∧ (f.treesBelow (KindAt f.tokens) root).encard = catalan (numerals.length - 1)
      ∧ f.accept (.ofOperation (· - ·) toLeft) root = some (foldLeft (· - ·) values)
      ∧ f.accept (.ofOperation (· - ·) .first) root = some (foldRight (· - ·) values)
      ∧ ∀ id < f.nodes.size, (f.choose toLeft id).resolution?.isSome
          ∧ (f.choose .first id).resolution?.isSome := by
  intro values toLeft
  obtain ⟨m, length⟩ := Nat.exists_eq_add_of_le' (List.length_pos_iff.2 present)
  have laid := spaced.laid_joined readsDigits_anyDigits (by decide) (by decide)
  have apart : anyDigits ≠ .literal (String.singleton '-') := Pattern.ofSource_ne_literal
  obtain ⟨chart, parsed, sound, saturated, reads, spelled⟩ :=
    exists_chart_of_chained laid fun tokens spelled => ⟨length ▸ chain_of_joined spelled apart,
      (size_of_spelled spelled).trans (length_joined length)⟩
  have chain := chain_of_joined spelled apart
  have size := (size_of_spelled spelled).trans (length_joined length)
  obtain ⟨root, node, roots, place, span, trees⟩ :=
    Chain.exists_root sound saturated (reads ▸ length ▸ chain) size
  have packs := Forest.packs_ofChart sound saturated
  rw [reads] at packs trees
  have bound : root < (Forest.ofChart (doubling "e" _ _) chart).nodes.size :=
    (Array.getElem?_eq_some_iff.1 place).1
  have finite := Set.finite_of_encard_eq_coe trees
  refine ⟨_, root, parsed, roots, ?_, ?_, ?_, fun id bound => ⟨?_, ?_⟩⟩
  · rw [length]
    exact trees
  · exact accept_eq_foldLeft packs rfl chain spelled length place span finite
      (packs.resolves_latest bound) Forest.prefers_latest
  · exact accept_eq_foldRight packs rfl chain spelled length place span finite
      (packs.resolves_first bound) (Forest.prefers_first sound saturated)
  · exact (packs.resolves_latest bound).isSome_choose
  · exact (packs.resolves_first bound).isSome_choose

/-- The two ways to read three numerals come to different values. -/
theorem accept_difference_three : ∃ f root, difference.parse "10 - 3-2" = .ok f
    ∧ f.roots = [root] ∧ (f.treesBelow (KindAt f.tokens) root).encard = 2
    ∧ f.accept (.ofOperation (· - ·) (.onRule 0 .latest)) root = some 5
    ∧ f.accept (.ofOperation (· - ·) .first) root = some 9 := by
  let ten : Decimal := ⟨"10", by decide, List.all_eq_true.1 (by decide)⟩
  let three : Decimal := ⟨"3", by decide, List.all_eq_true.1 (by decide)⟩
  let two : Decimal := ⟨"2", by decide, List.all_eq_true.1 (by decide)⟩
  have laid := @Spaced.cons .standard ⟨anyDigits, "10"⟩ _ [] _ (by decide) <|
    @Spaced.cons .standard (separator '-') _ [' '] _ (by decide) <|
    @Spaced.cons .standard ⟨anyDigits, "3"⟩ _ [' '] _ (by decide) <|
    @Spaced.cons .standard (separator '-') _ [] _ (by decide) <|
    @Spaced.cons .standard ⟨anyDigits, "2"⟩ _ [] _ (by decide) <|
    @Spaced.nil .standard [] (by decide)
  have spaced : Spaced (joined anyDigits '-' [ten, three, two]) "10 - 3-2".toList := by
    convert laid using 1
    · rfl
    · decide
  obtain ⟨f, root, parsed, roots, trees, toLeft, toRight, -⟩ :=
    accept_difference (List.cons_ne_nil ten _) spaced
  exact ⟨f, root, parsed, roots, trees.trans (congrArg Nat.cast catalan_two),
    toLeft.trans (by decide), toRight.trans (by decide)⟩

end Earley
