import Earley.Forest.Evaluate
import Earley.Proofs.Forest.Cardinality
import Earley.Proofs.Forest.Picks
import Earley.Proofs.Forest.Unfolding

/-!
# Proofs/Forest/Evaluation — evaluation folds the tree that the picks unfold to

A node follows its picks to at most one tree (`Forest.Follows`).  Evaluation along a path comes to
the value of that tree, and makes its reductions in post-order, or it comes to where the descent is
stuck (`evalChildren_cases`): at a token or a picked branch that is missing, or at a node of the
path.  A descent from the top is stuck exactly if there is no tree (`follows_or_stuck`,
`Follows.not_loops`).
-/

namespace Earley

universe u v

variable {κ : Type u} {V : Type v}

/-! ## Folding trees -/

namespace Tree

mutual

/-- **The value of a tree**, worked out from its leaves up: none if a token is missing. -/
def value? (sem : Semantics κ V) (tokens : Array (Token κ)) : Tree → Option V
  | leaf index => tokens[index]?.map sem.leaf
  | node production children => (values? sem tokens children).map (sem.reduce production)

/-- The values of trees. -/
def values? (sem : Semantics κ V) (tokens : Array (Token κ)) : List Tree → Option (List V)
  | [] => some []
  | tree :: trees =>
    (tree.value? sem tokens).bind fun value => (values? sem tokens trees).map (value :: ·)

end

mutual

/-- **The inner nodes of a tree in post-order**: from left to right, each behind those below it. -/
def postorder : Tree → List (ProdId × List Tree)
  | leaf _ => []
  | node production children => postorders children ++ [(production, children)]

/-- The inner nodes of trees, in post-order. -/
def postorders : List Tree → List (ProdId × List Tree)
  | [] => []
  | tree :: trees => tree.postorder ++ postorders trees

end

section Values

variable {sem : Semantics κ V} {tokens : Array (Token κ)} {tree : Tree} {trees : List Tree}
  {value : V} {values : List V}

theorem value?_leaf {index : Nat} {token : Token κ} (place : tokens[index]? = some token) :
    (leaf index).value? sem tokens = some (sem.leaf token) := by
  rw [value?, place, Option.map_some]

theorem value?_node {production : ProdId} (h : values? sem tokens trees = some values) :
    (node production trees).value? sem tokens = some (sem.reduce production values) := by
  rw [value?, h, Option.map_some]

theorem values?_cons (first : tree.value? sem tokens = some value)
    (rest : values? sem tokens trees = some values) :
    values? sem tokens (tree :: trees) = some (value :: values) := by
  rw [values?, first, rest, Option.bind_some, Option.map_some]

/-- Trees have values one by one. -/
theorem exists_of_values?_cons (h : values? sem tokens (tree :: trees) = some values) :
    (∃ value, tree.value? sem tokens = some value)
      ∧ ∃ values, values? sem tokens trees = some values := by
  obtain ⟨value, first, rest⟩ := Option.bind_eq_some_iff.1 h
  obtain ⟨others, same, -⟩ := Option.map_eq_some_iff.1 rest
  exact ⟨⟨value, first⟩, others, same⟩

theorem value?_of_values? (h : values? sem tokens [tree] = some [value]) :
    tree.value? sem tokens = some value := by
  simpa [values?, Option.bind_eq_some_iff] using h

section Derivation

variable {g : Grammar κ} {stands : Nat → κ → Prop} {symbols : List (Symbol κ)} {pos stop : Nat}

/-- **Derivations over tokens have values.** -/
theorem exists_values (h : Derivation g stands symbols trees pos stop)
    (known : ∀ index kind, stands index kind → index < tokens.size) (sem : Semantics κ V) :
    ∃ values, values? sem tokens trees = some values := by
  induction h with
  | nil => exact ⟨[], rfl⟩
  | leaf stand _ ih =>
    obtain ⟨values, rest⟩ := ih
    have place := Array.getElem?_eq_getElem (known _ _ stand)
    exact ⟨_, values?_cons (value?_leaf place) rest⟩
  | node _ _ _ ihHead ihTail =>
    obtain ⟨inner, head⟩ := ihHead
    obtain ⟨values, rest⟩ := ihTail
    exact ⟨_, values?_cons (value?_node head) rest⟩

theorem exists_value (h : Derivation g stands symbols [tree] pos stop)
    (known : ∀ index kind, stands index kind → index < tokens.size) (sem : Semantics κ V) :
    ∃ value, tree.value? sem tokens = some value := by
  obtain ⟨values, same⟩ := exists_values h known sem
  exact (exists_of_values?_cons same).1

end Derivation

end Values

end Tree

/-- **The reductions of inner nodes**: one for each, with its production and the values of its
children. -/
abbrev ReductionsOf (sem : Semantics κ V) (tokens : Array (Token κ)) :
    List (Reduction V) → List (ProdId × List Tree) → Prop :=
  List.Forall₂ fun reduction inner =>
    reduction.production = inner.1 ∧ Tree.values? sem tokens inner.2 = some reduction.args

/-- Each reduction is that of an inner node. -/
theorem ReductionsOf.exists_inner {sem : Semantics κ V} {tokens : Array (Token κ)}
    {reductions : List (Reduction V)} {inners : List (ProdId × List Tree)}
    (h : ReductionsOf sem tokens reductions inners) {reduction : Reduction V}
    (mem : reduction ∈ reductions) : ∃ inner ∈ inners, reduction.production = inner.1
      ∧ Tree.values? sem tokens inner.2 = some reduction.args := by
  obtain ⟨place, bound, rfl⟩ := List.getElem_of_mem mem
  have bound' : place < inners.length := List.Forall₂.length_eq h ▸ bound
  exact ⟨inners[place], List.getElem_mem bound', List.Forall₂.get h bound bound'⟩

namespace Forest

variable {f : Forest κ} {picks : Picks}

/-! ## The tree of the picks -/

/-- **The children follow the picks** to trees: a token to its leaf, a node to its production over
what the children of its picked branch follow to. -/
inductive Follows (f : Forest κ) (picks : Picks) : Branch → List Tree → Prop
  | nil : Follows f picks [] []
  | token {index : Nat} {branch : Branch} {trees : List Tree}
      (tail : Follows f picks branch trees) :
      Follows f picks (.token index :: branch) (.leaf index :: trees)
  | node {id : NodeId} {node : Node} {picked branch : Branch} {children trees : List Tree}
      (place : f.nodes[id]? = some node) (pick : f.picked? picks id = some picked)
      (below : Follows f picks picked children) (tail : Follows f picks branch trees) :
      Follows f picks (.node id :: branch) (.node node.production children :: trees)

/-- **A descent along the picks is stuck**: at a token that is missing, at a node without a picked
branch, or at a node that it is below of. -/
inductive Stuck (f : Forest κ) (picks : Picks) : List NodeId → Child NodeId → Prop
  | noToken {path : List NodeId} {index : Nat} (missing : f.tokens[index]? = none) :
      Stuck f picks path (.token index)
  | noBranch {path : List NodeId} {id : NodeId} (none : f.picked? picks id = none) :
      Stuck f picks path (.node id)
  | loop {path : List NodeId} {id : NodeId} (on : id ∈ path) : Stuck f picks path (.node id)
  | down {path : List NodeId} {id : NodeId} {branch : Branch} {child : Child NodeId}
      (pick : f.picked? picks id = some branch) (mem : child ∈ branch)
      (rest : Stuck f picks (id :: path) child) : Stuck f picks path (.node id)

/-- **What the picks of children fold to**: their trees, the values of these, and a reduction for
each inner node. -/
structure Folds (f : Forest κ) (sem : Semantics κ V) (picks : Picks) (children : Branch)
    (trees : List Tree) (values : List V) (reductions : Array (Reduction V)) : Prop where
  follows : f.Follows picks children trees
  values_eq : Tree.values? sem f.tokens trees = some values
  reductionsOf : ReductionsOf sem f.tokens reductions.toList (Tree.postorders trees)

namespace Folds

variable {sem : Semantics κ V} {children branch : Branch} {trees inner : List Tree}
  {values args : List V} {reductions made : Array (Reduction V)}

theorem nil : f.Folds sem picks [] [] [] #[] := ⟨.nil, rfl, .nil⟩

theorem token {index : Nat} {token : Token κ} (place : f.tokens[index]? = some token)
    (rest : f.Folds sem picks children trees values reductions) :
    f.Folds sem picks (.token index :: children) (.leaf index :: trees) (sem.leaf token :: values)
      reductions where
  follows := .token rest.follows
  values_eq := Tree.values?_cons (Tree.value?_leaf place) rest.values_eq
  reductionsOf := by simpa [Tree.postorders, Tree.postorder] using rest.reductionsOf

/-- The reduction of a node comes behind those below it and before those of the children behind
it. -/
theorem node {id : NodeId} {node : Node} (place : f.nodes[id]? = some node)
    (pick : f.picked? picks id = some branch) (below : f.Folds sem picks branch inner args made)
    (rest : f.Folds sem picks children trees values reductions) :
    f.Folds sem picks (.node id :: children) (.node node.production inner :: trees)
      (sem.reduce node.production args :: values)
      (made.push ⟨node.production, args⟩ ++ reductions) where
  follows := .node place pick below.follows rest.follows
  values_eq := Tree.values?_cons (Tree.value?_node below.values_eq) rest.values_eq
  reductionsOf := by
    have own : ReductionsOf sem f.tokens [⟨node.production, args⟩] [(node.production, inner)] :=
      .cons ⟨rfl, below.values_eq⟩ .nil
    rw [Array.toList_append, Array.toList_push, Tree.postorders, Tree.postorder]
    exact List.rel_append (List.rel_append below.reductionsOf own) rest.reductionsOf

end Folds

variable {sem : Semantics κ V} {r : Resolution} {path : List NodeId} {id : NodeId} {node : Node}
  {branch children : Branch} {done made : Array (Reduction V)}

/-! ## One node -/

theorem evalNode_of_none (unpicked : f.picked? r.branch? id = none) :
    ∃ error, f.evalNode sem r path done id = ⟨done, .error error⟩ := by
  rw [evalNode]
  cases record : r.branch? id with
  | none => exact ⟨_, rfl⟩
  | some index =>
    by_cases on : id ∈ path
    · exact ⟨_, dif_pos on⟩
    · by_cases bound : id < f.nodes.size
      · have missing : f.nodes[id].branches[index]? = none := by
          simpa [picked?, bound, record] using unpicked
        simp only [dif_neg on, dif_pos bound, missing]
        exact ⟨_, rfl⟩
      · simp only [dif_neg on, dif_neg bound]
        exact ⟨_, rfl⟩

theorem evalNode_of_mem (on : id ∈ path) :
    ∃ error, f.evalNode sem r path done id = ⟨done, .error error⟩ := by
  rw [evalNode]
  cases r.branch? id with
  | none => exact ⟨_, rfl⟩
  | some index => exact ⟨_, dif_pos on⟩

section Picked

variable {args : List V} {error : EvalError}

theorem evalNode_of_error (off : id ∉ path) (pick : f.picked? r.branch? id = some branch)
    (fails : f.evalChildren sem r (id :: path) done branch = (made, .error error)) :
    f.evalNode sem r path done id = ⟨made, .error error⟩ := by
  obtain ⟨node, index, place, record, atIndex⟩ := picked?_eq_some_iff.1 pick
  obtain ⟨bound, rfl⟩ := Array.getElem?_eq_some_iff.1 place
  rw [evalNode]
  simp only [record, dif_neg off, dif_pos bound, atIndex, fails]

/-- Off the path a node has the value of its production by the values of its picked branch. -/
theorem evalNode_of_ok (off : id ∉ path) (place : f.nodes[id]? = some node)
    (pick : f.picked? r.branch? id = some branch)
    (values : f.evalChildren sem r (id :: path) done branch = (made, .ok args)) :
    f.evalNode sem r path done id
      = ⟨made.push ⟨node.production, args⟩, .ok (sem.reduce node.production args)⟩ := by
  obtain ⟨node', index, place', record, atIndex⟩ := picked?_eq_some_iff.1 pick
  obtain rfl := Option.some.inj (place.symm.trans place')
  obtain ⟨bound, rfl⟩ := Array.getElem?_eq_some_iff.1 place
  rw [evalNode]
  simp only [record, dif_neg off, dif_pos bound, atIndex, values]

end Picked

/-! ## Descents -/

/-- **Evaluation folds the trees of the picks**, or the descent is stuck.  The induction is on the
nodes off the path, as in the descent, and inside it on the children. -/
theorem evalChildren_cases (f : Forest κ) (sem : Semantics κ V) (r : Resolution)
    (path : List NodeId) (done : Array (Reduction V)) (children : Branch) :
    (∃ trees values reductions, f.Folds sem r.branch? children trees values reductions
        ∧ f.evalChildren sem r path done children = (done ++ reductions, .ok values))
      ∨ (∃ child ∈ children, f.Stuck r.branch? path child)
        ∧ ∃ made error, f.evalChildren sem r path done children = (made, .error error) := by
  induction size : offPath f.nodes.size path using Nat.strongRecOn
    generalizing path done children with
  | ind _ outer =>
    induction children generalizing done with
    | nil => exact .inl ⟨[], [], #[], .nil, by simp [evalChildren]⟩
    | cons child children inner =>
      cases child with
      | token index =>
        cases place : f.tokens[index]? with
        | none =>
          exact .inr ⟨⟨_, List.mem_cons_self, .noToken place⟩, done, _, by
            simp only [evalChildren, place]; rfl⟩
        | some token =>
          rcases inner done with
            ⟨trees, values, reductions, folds, same⟩ | ⟨⟨child, mem, stuck⟩, made, error, same⟩
          · exact .inl ⟨_, _, _, .token place folds, by
              simp [evalChildren, place, same, Except.map]⟩
          · exact .inr ⟨⟨child, List.mem_cons_of_mem _ mem, stuck⟩, made, error, by
              simp [evalChildren, place, same, Except.map]⟩
      | node id =>
        have stops : (∃ error, f.evalNode sem r path done id = ⟨done, .error error⟩) →
            ∃ made error, f.evalChildren sem r path done (.node id :: children)
              = (made, .error error) := by
          rintro ⟨error, same⟩
          exact ⟨done, error, by simp [evalChildren, same]⟩
        cases pick : f.picked? r.branch? id with
        | none =>
          exact .inr ⟨⟨_, List.mem_cons_self, .noBranch pick⟩, stops (evalNode_of_none pick)⟩
        | some branch =>
          by_cases on : id ∈ path
          · exact .inr ⟨⟨_, List.mem_cons_self, .loop on⟩, stops (evalNode_of_mem on)⟩
          obtain ⟨node, -, place, -⟩ := picked?_eq_some_iff.1 pick
          have fewer := offPath_cons_lt (lt_size_of_picked pick) on
          rcases outer _ (size ▸ fewer) (id :: path) done branch rfl with
            ⟨inner', args, made, below, same⟩ | ⟨⟨child, mem, stuck⟩, made, error, same⟩
          · have value := evalNode_of_ok on place pick same
            rcases inner ((done ++ made).push ⟨node.production, args⟩) with
              ⟨trees, values, reductions, folds, same'⟩ | ⟨⟨child, mem, stuck⟩, made', error, same'⟩
            · refine .inl ⟨_, _, _, .node place pick below folds, ?_⟩
              simp only [evalChildren, value, same', Except.map]
              simp
            · refine .inr ⟨⟨child, List.mem_cons_of_mem _ mem, stuck⟩, made', error, ?_⟩
              simp only [evalChildren, value, same', Except.map]
          · refine .inr ⟨⟨_, List.mem_cons_self, .down pick mem stuck⟩, made, error, ?_⟩
            simp [evalChildren, evalNode_of_error on pick same]

/-- A row of one node is evaluated as the node. -/
theorem evalChildren_singleton (f : Forest κ) (sem : Semantics κ V) (r : Resolution)
    (root : NodeId) : f.evalChildren sem r [] #[] [.node root]
      = ((f.evaluate sem r root).reductions, (f.evaluate sem r root).result.map ([·])) := by
  rw [evaluate, evalChildren]
  rcases f.evalNode sem r [] #[] root with ⟨made, error | value⟩
  · rfl
  · simp only [evalChildren, Except.map]

/-- **The value of a node** is that of the tree its picks fold to, unless the descent is stuck. -/
theorem evaluate_cases (f : Forest κ) (sem : Semantics κ V) (r : Resolution) (root : NodeId) :
    (∃ tree value reductions, f.Folds sem r.branch? [.node root] [tree] [value] reductions
        ∧ f.evaluate sem r root = ⟨reductions, .ok value⟩)
      ∨ f.Stuck r.branch? [] (.node root)
        ∧ ∃ made error, f.evaluate sem r root = ⟨made, .error error⟩ := by
  have single := f.evalChildren_singleton sem r root
  rcases evaluation : f.evaluate sem r root with ⟨made, error | value⟩
  · rcases f.evalChildren_cases sem r [] #[] [.node root] with
      ⟨_, _, _, -, same⟩ | ⟨⟨child, mem, stuck⟩, -⟩
    · rw [single, evaluation] at same
      cases (Prod.mk.inj same).2
    · obtain rfl := List.mem_singleton.1 mem
      exact .inr ⟨stuck, made, error, rfl⟩
  · rcases f.evalChildren_cases sem r [] #[] [.node root] with
      ⟨trees, values, reductions, folds, same⟩ | ⟨-, _, _, same⟩
    · rw [single, evaluation, Array.empty_append] at same
      obtain ⟨rfl, result⟩ := Prod.mk.inj same
      obtain rfl := Except.ok.inj result
      cases folds.follows with
      | node place pick below tail =>
        obtain ⟨⟩ := tail
        exact .inl ⟨_, value, made, folds, rfl⟩
    · rw [single, evaluation] at same
      cases (Prod.mk.inj same).2

/-! ## Trees and loops -/

/-- **The picks resolve a node**: from it they lead to nodes with a picked branch only. -/
def Resolves (f : Forest κ) (picks : Picks) (root : NodeId) : Prop :=
  ∀ id, f.Reaches picks root id → ∃ branch, f.picked? picks id = some branch

/-- **The picks loop below a node**: from it they lead to a node from which they come back to it. -/
def Loops (f : Forest κ) (picks : Picks) (root : NodeId) : Prop :=
  ∃ id, f.Reaches picks root id ∧ Relation.TransGen (f.Leads picks) id id

section Trees

variable {below root : NodeId} {tree : Tree} {trees trees' : List Tree} {picks' : Picks}

theorem Follows.mono (h : f.Follows picks children trees)
    (imp : ∀ id branch, f.picked? picks id = some branch → f.picked? picks' id = some branch) :
    f.Follows picks' children trees := by
  induction h with
  | nil => exact .nil
  | token _ ih => exact .token ih
  | node place pick _ _ ihBelow ihTail => exact .node place (imp _ _ pick) ihBelow ihTail

/-- **Picks are followed to one tree only.** -/
theorem Follows.unique (h : f.Follows picks children trees) (h' : f.Follows picks children trees') :
    trees = trees' := by
  induction h generalizing trees' with
  | nil =>
    obtain ⟨⟩ := h'
    rfl
  | token _ ih =>
    cases h' with
    | token tail' => rw [ih tail']
  | node place pick _ _ ihBelow ihTail =>
    cases h' with
    | node place' pick' below' tail' =>
      obtain rfl := Option.some.inj (place.symm.trans place')
      obtain rfl := Option.some.inj (pick.symm.trans pick')
      rw [ihBelow below', ihTail tail']

/-- Each node among the children follows its picks to one of the trees. -/
theorem Follows.exists_tree (h : f.Follows picks children trees) (mem : .node id ∈ children) :
    ∃ tree ∈ trees, f.Follows picks [.node id] [tree] := by
  induction h with
  | nil => exact absurd mem List.not_mem_nil
  | token _ ih =>
    rcases List.mem_cons.1 mem with same | mem
    · exact nomatch same
    · obtain ⟨tree, memTrees, follows⟩ := ih mem
      exact ⟨tree, List.mem_cons_of_mem _ memTrees, follows⟩
  | node place pick below _ _ ihTail =>
    rcases List.mem_cons.1 mem with same | mem
    · obtain rfl := Child.node.inj same
      exact ⟨_, List.mem_cons_self, .node place pick below .nil⟩
    · obtain ⟨tree, memTrees, follows⟩ := ihTail mem
      exact ⟨tree, List.mem_cons_of_mem _ memTrees, follows⟩

/-- A node has a picked branch where it has a tree. -/
theorem Follows.exists_picked (h : f.Follows picks [.node id] [tree]) :
    ∃ branch, f.picked? picks id = some branch := by
  cases h with
  | node _ pick _ _ => exact ⟨_, pick⟩

/-- The tree of a node is larger than that of a node which its picks lead to. -/
theorem Follows.exists_smaller (h : f.Follows picks [.node id] [tree])
    (leads : f.Leads picks id below) :
    ∃ smaller, f.Follows picks [.node below] [smaller] ∧ sizeOf smaller < sizeOf tree := by
  obtain ⟨branch, pick, mem⟩ := leads
  cases h with
  | node _ pick' inner _ =>
    obtain rfl := Option.some.inj (pick.symm.trans pick')
    obtain ⟨smaller, memTrees, follows⟩ := inner.exists_tree mem
    exact ⟨smaller, follows, sizeOf_lt_sizeOf_node _ memTrees⟩

theorem Follows.exists_smaller_of_transGen (h : f.Follows picks [.node id] [tree])
    (leads : Relation.TransGen (f.Leads picks) id below) :
    ∃ smaller, f.Follows picks [.node below] [smaller] ∧ sizeOf smaller < sizeOf tree := by
  induction leads with
  | single leads => exact h.exists_smaller leads
  | tail _ leads ih =>
    obtain ⟨middle, follows, lt⟩ := ih
    obtain ⟨smaller, follows', lt'⟩ := follows.exists_smaller leads
    exact ⟨smaller, follows', lt'.trans lt⟩

theorem Follows.exists_tree_of_reaches (h : f.Follows picks [.node root] [tree])
    (reaches : f.Reaches picks root id) : ∃ tree, f.Follows picks [.node id] [tree] := by
  rcases Relation.reflTransGen_iff_eq_or_transGen.1 reaches with rfl | leads
  · exact ⟨tree, h⟩
  · obtain ⟨smaller, follows, -⟩ := h.exists_smaller_of_transGen leads
    exact ⟨smaller, follows⟩

/-- **A node with a tree is resolved.** -/
theorem Follows.resolves (h : f.Follows picks [.node root] [tree]) : f.Resolves picks root := by
  intro id reaches
  obtain ⟨_, follows⟩ := h.exists_tree_of_reaches reaches
  exact follows.exists_picked

/-- **Below a node with a tree there is no loop**, for a tree is not smaller than itself. -/
theorem Follows.not_loops (h : f.Follows picks [.node root] [tree]) : ¬ f.Loops picks root := by
  rintro ⟨id, reaches, loop⟩
  obtain ⟨tree, follows⟩ := h.exists_tree_of_reaches reaches
  obtain ⟨smaller, follows', lt⟩ := follows.exists_smaller_of_transGen loop
  obtain ⟨rfl, -⟩ := List.cons.inj (follows.unique follows')
  exact absurd lt (Nat.lt_irrefl _)

/-- **Why a descent is stuck**: the picks lead to a node without a picked branch, or back to a node,
or to a token that is missing. -/
theorem Stuck.reason {child : Child NodeId} (h : f.Stuck picks path child) :
    ∀ id, child = .node id →
      (∀ ancestor ∈ path, Relation.TransGen (f.Leads picks) ancestor id) →
        ¬ f.Resolves picks id ∨ f.Loops picks id
          ∨ ∃ below branch index, f.Reaches picks id below ∧ f.picked? picks below = some branch
              ∧ .token index ∈ branch ∧ f.tokens[index]? = none := by
  induction h with
  | noToken => exact fun _ same => nomatch same
  | noBranch unpicked =>
    intro id same _
    obtain rfl := Child.node.inj same
    refine .inl fun resolves => ?_
    obtain ⟨branch, pick⟩ := resolves _ .refl
    exact absurd (unpicked.symm.trans pick) (Option.some_ne_none branch).symm
  | loop on =>
    intro id same above
    obtain rfl := Child.node.inj same
    exact .inr (.inl ⟨_, .refl, above _ on⟩)
  | @down path id' branch child pick mem rest ih =>
    intro id same above
    obtain rfl := Child.node.inj same
    cases child with
    | token index =>
      cases rest with
      | noToken missing => exact .inr (.inr ⟨_, branch, index, .refl, pick, mem, missing⟩)
    | node below =>
      have leads : f.Leads picks id' below := ⟨branch, pick, mem⟩
      rcases ih below rfl (by
          intro ancestor memPath
          rcases List.mem_cons.1 memPath with rfl | memPath
          · exact .single leads
          · exact (above ancestor memPath).tail leads) with
        open_ | ⟨node, reaches, loop⟩ | ⟨node, branch', index, reaches, missing⟩
      · exact .inl fun resolves => open_ fun node reaches => resolves node (.head leads reaches)
      · exact .inr (.inl ⟨node, .head leads reaches, loop⟩)
      · exact .inr (.inr ⟨node, branch', index, .head leads reaches, missing⟩)

end Trees

end Forest

end Earley
