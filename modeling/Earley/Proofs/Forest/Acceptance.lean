import Earley.Proofs.Forest.Choice
import Earley.Proofs.Forest.Count
import Earley.Proofs.Forest.Evaluation

/-!
# Proofs/Forest/Acceptance — the value of an input is that of one of its derivations

A value is worked out with a resolution that a chooser made.  The resolution records the picks of
the chooser, and so evaluation follows the picks themselves: it fails only where they loop, and its
value is that of the tree that they are followed to, which is a derivation of the input.
-/

namespace Earley

universe u v w

variable {κ : Type u} {V : Type w}

namespace Forest

variable {f : Forest κ} {stands : Nat → κ → Prop} {chooser : Chooser κ} {picks : Picks}
  {root id : NodeId} {calls : List (NodeId × Option Nat)} {r : Resolution} {branch : Branch}

/-! ## What is recorded is what was picked -/

theorem Chosen.picked?_eq (h : f.Chosen chooser root calls r) (mem : id ∈ r.nodes) :
    f.picked? r.branch? id = f.picked? (f.answers chooser) id := by
  rw [picked?, picked?, h.branch?_eq mem]

/-- A branch that is picked by a record is the one that the chooser picks. -/
theorem Chosen.picked (h : f.Chosen chooser root calls r)
    (pick : f.picked? r.branch? id = some branch) :
    f.picked? (f.answers chooser) id = some branch := by
  obtain ⟨_, index, -, record, -⟩ := picked?_eq_some_iff.1 pick
  have mem : id ∈ r.nodes :=
    List.mem_map_of_mem (f := Prod.fst) (Resolution.branch?_eq_some_iff.1 record)
  rw [← h.picked?_eq mem]
  exact pick

theorem Chosen.leads (h : f.Chosen chooser root calls r) {below : NodeId}
    (leads : f.Leads r.branch? id below) : f.Leads (f.answers chooser) id below := by
  obtain ⟨branch, pick, mem⟩ := leads
  exact ⟨branch, h.picked pick, mem⟩

theorem Chosen.reaches (h : f.Chosen chooser root calls r) {below : NodeId}
    (reaches : f.Reaches r.branch? id below) : f.Reaches (f.answers chooser) id below :=
  Relation.ReflTransGen.mono (fun _ _ => h.leads) _ _ reaches

/-- A recorded choice leaves no node open. -/
theorem Chosen.resolves (h : f.Chosen chooser root calls r) : f.Resolves r.branch? root := by
  intro id reaches
  have mem := h.mem_nodes_iff.2 (h.reaches reaches)
  obtain ⟨branch, pick⟩ := h.exists_picked mem
  exact ⟨branch, (h.picked?_eq mem).trans pick⟩

theorem Chosen.loops (h : f.Chosen chooser root calls r) (loops : f.Loops r.branch? root) :
    f.Loops (f.answers chooser) root := by
  obtain ⟨id, reaches, loop⟩ := loops
  exact ⟨id, h.reaches reaches, Relation.TransGen.mono (fun _ _ => h.leads) _ _ loop⟩

/-! ## Forests that pack derivations -/

/-- **The forest of a parse is closed.** -/
theorem Packs.closed (packs : f.Packs stands) : f.Closed := by
  intro id node place branch mem below memBelow
  obtain ⟨_, place'⟩ := (packs.node id node place).exists_place mem memBelow
  exact (Array.getElem?_eq_some_iff.1 place').1

/-- The picks lead to children of branches. -/
theorem Leads.parent {below : NodeId} (leads : f.Leads picks id below) : f.Parent id below := by
  obtain ⟨branch, pick, mem⟩ := leads
  obtain ⟨node, index, place, -, atIndex⟩ := picked?_eq_some_iff.1 pick
  exact ⟨node, place, branch, List.mem_of_getElem? atIndex, mem⟩

/-- Picks that loop loop on a cycle of the forest. -/
theorem Loops.exists_cycle (loops : f.Loops picks root) :
    ∃ id, Relation.ReflTransGen f.Parent root id ∧ Relation.TransGen f.Parent id id := by
  obtain ⟨id, reaches, loop⟩ := loops
  exact ⟨id, Relation.ReflTransGen.mono (fun _ _ => Leads.parent) _ _ reaches,
    Relation.TransGen.mono (fun _ _ => Leads.parent) _ _ loop⟩

/-- A tree that the picks are followed to is a derivation of the node. -/
theorem Follows.mem_treesBelow (packs : f.Packs stands) {tree : Tree}
    (h : f.Follows picks [.node id] [tree]) : tree ∈ f.treesBelow stands id := by
  have unfolds : ∀ {branch trees}, f.Follows picks branch trees →
      ∃ unfoldings, f.Unfolds branch unfoldings trees := by
    intro branch trees follows
    induction follows with
    | nil => exact ⟨[], .nil⟩
    | token _ ih =>
      obtain ⟨unfoldings, tail⟩ := ih
      exact ⟨_, .token tail⟩
    | node place pick _ _ ihBelow ihTail =>
      obtain ⟨inner, below⟩ := ihBelow
      obtain ⟨unfoldings, tail⟩ := ihTail
      obtain ⟨node', index, place', -, atIndex⟩ := picked?_eq_some_iff.1 pick
      obtain rfl := Option.some.inj (place.symm.trans place')
      exact ⟨_, .node place atIndex below tail⟩
  obtain ⟨unfoldings, unfolds⟩ := unfolds h
  exact Child.covers_node_iff.1 (List.forall₂_cons.1 (unfolds.along packs)).1

/-- **Every token below a packed node exists**, where only tokens are read. -/
theorem Packs.exists_token (packs : f.Packs stands)
    (reads : ∀ index kind, stands index kind → index < f.tokens.size)
    (pick : f.picked? picks id = some branch) {index : Nat} (mem : .token index ∈ branch) :
    f.tokens[index]? ≠ none := by
  obtain ⟨node, _, place, -, atIndex⟩ := picked?_eq_some_iff.1 pick
  obtain ⟨position, token⟩ := List.mem_iff_getElem?.1 mem
  obtain ⟨kind, -, stand⟩ :=
    (packs.node id node place).exists_kind (List.mem_of_getElem? atIndex) token
  simpa using reads index kind stand

/-- Picks of a branch at every node leave no node open. -/
theorem Packs.resolves_of_picked (packs : f.Packs stands)
    (picked : ∀ id < f.nodes.size, ∃ branch, f.picked? picks id = some branch)
    (bound : root < f.nodes.size) : f.Resolves picks root := by
  intro id reaches
  refine picked id ?_
  induction reaches with
  | refl => exact bound
  | tail _ leads _ => exact packs.closed.lt_size leads

/-- **No node of a packed forest lacks a branch.** -/
theorem Packs.exists_branch (packs : f.Packs stands) {node : Node}
    (place : f.nodes[id]? = some node) : ∃ first others, node.branches = first :: others := by
  obtain ⟨_, node', place', trees, -, derivation⟩ := packs.nonempty_treesBelow place
  obtain rfl := Option.some.inj (place.symm.trans place')
  obtain ⟨branch, mem, -⟩ := ((packs.node id _ place).derivation_iff trees).1 derivation
  exact List.exists_cons_of_ne_nil (List.ne_nil_of_mem mem)

/-- The first branches leave no node open. -/
theorem Packs.resolves_first (packs : f.Packs stands) (bound : root < f.nodes.size) :
    f.Resolves (f.answers .first) root := by
  refine packs.resolves_of_picked (fun id bound => ?_) bound
  have place : f.nodes[id]? = some f.nodes[id] := Array.getElem?_eq_getElem bound
  obtain ⟨first, others, branches⟩ := packs.exists_branch place
  refine ⟨first, picked?_answers_eq_some_iff.2 ⟨_, 0, place, ?_, ?_⟩⟩
  · rw [Chooser.first, branches]
    rfl
  · rw [branches]
    rfl

/-- **A choice that leaves no node open is reached.** -/
theorem Resolves.isSome_choose (resolves : f.Resolves (f.answers chooser) root) :
    (f.choose chooser root).resolution?.isSome := by
  rcases f.choose_cases chooser root with ⟨r, -, reached⟩ | ⟨⟨id, reaches, none⟩, -⟩
  · exact Option.isSome_iff_exists.2 ⟨r, reached⟩
  · obtain ⟨branch, pick⟩ := resolves id reaches
    exact absurd (none.symm.trans pick) (Option.some_ne_none branch).symm

/-- **A node with finitely many trees is above no cycle.** -/
theorem Packs.acyclic_of_finite (packs : f.Packs stands)
    (finite : (f.treesBelow stands root).Finite)
    (reaches : Relation.ReflTransGen f.Parent root id) : ¬ Relation.TransGen f.Parent id id := by
  intro cycle
  suffices infinite : (f.treesBelow stands root).Infinite from infinite finite
  clear finite
  induction reaches using Relation.ReflTransGen.head_induction_on with
  | refl => exact packs.infinite_of_cycle cycle
  | head parent _ ih => exact packs.infinite_of_parent parent ih

/-- **What accepting a root comes to**: a fold of the tree of the picks, or nothing where a node is
open or the picks loop. -/
theorem Packs.accept_cases (packs : f.Packs stands)
    (reads : ∀ index kind, stands index kind → index < f.tokens.size) (sem : Semantics κ V)
    (root : NodeId) :
    (∃ tree value reductions r,
        f.Folds sem (f.answers sem.chooser) [.node root] [tree] [value] reductions
          ∧ (f.choose sem.chooser root).resolution? = some r
          ∧ f.evaluate sem r root = ⟨reductions, .ok value⟩
          ∧ f.accept sem root = some value)
      ∨ (¬ f.Resolves (f.answers sem.chooser) root ∨ f.Loops (f.answers sem.chooser) root)
        ∧ f.accept sem root = none := by
  rcases f.choose_cases sem.chooser root with ⟨r, chosen, reached⟩ | ⟨⟨id, reaches, none⟩, fails⟩
  · rcases f.evaluate_cases sem r root with
      ⟨tree, value, reductions, folds, same⟩ | ⟨stuck, made, error, same⟩
    · refine .inl ⟨tree, value, reductions, r, ?_, reached, same, ?_⟩
      · exact ⟨folds.follows.mono fun id branch => chosen.picked, folds.values_eq,
          folds.reductionsOf⟩
      · rw [accept, reached, Option.bind_some, same]
        rfl
    · refine .inr ⟨.inr ?_, by rw [accept, reached, Option.bind_some, same]; rfl⟩
      rcases stuck.reason root rfl fun _ mem => absurd mem List.not_mem_nil with
        unresolved | loops | ⟨below, branch, index, -, pick, mem, missing⟩
      · exact absurd chosen.resolves unresolved
      · exact chosen.loops loops
      · exact absurd missing (packs.exists_token reads pick mem)
  · refine .inr ⟨.inl fun resolves => ?_, by rw [accept, fails]; rfl⟩
    obtain ⟨branch, pick⟩ := resolves id reaches
    exact absurd (none.symm.trans pick) (Option.some_ne_none branch).symm

/-- A root is accepted exactly if the picks resolve it and do not loop. -/
theorem Packs.isSome_accept_iff (packs : f.Packs stands)
    (reads : ∀ index kind, stands index kind → index < f.tokens.size) (sem : Semantics κ V)
    (root : NodeId) : (f.accept sem root).isSome ↔
      f.Resolves (f.answers sem.chooser) root ∧ ¬ f.Loops (f.answers sem.chooser) root := by
  rcases packs.accept_cases reads sem root with
    ⟨_, _, _, _, folds, -, -, same⟩ | ⟨reason, same⟩
  · rw [same]
    exact ⟨fun _ => ⟨folds.follows.resolves, folds.follows.not_loops⟩, fun _ => rfl⟩
  · rw [same]
    refine ⟨fun some => absurd some Bool.false_ne_true, fun ⟨resolves, straight⟩ => ?_⟩
    rcases reason with unresolved | loops
    · exact absurd resolves unresolved
    · exact absurd loops straight

/-- **A root with finitely many trees is accepted** with the value of the tree that the picks are
followed to, if they leave no node open. -/
theorem Packs.exists_folds_of_finite (packs : f.Packs stands)
    (reads : ∀ index kind, stands index kind → index < f.tokens.size) {sem : Semantics κ V}
    (finite : (f.treesBelow stands root).Finite)
    (resolves : f.Resolves (f.answers sem.chooser) root) :
    ∃ tree value reductions r,
      f.Folds sem (f.answers sem.chooser) [.node root] [tree] [value] reductions
        ∧ (f.choose sem.chooser root).resolution? = some r
        ∧ f.evaluate sem r root = ⟨reductions, .ok value⟩
        ∧ f.accept sem root = some value := by
  have straight : ¬ f.Loops (f.answers sem.chooser) root := by
    intro loops
    obtain ⟨id, reaches, cycle⟩ := loops.exists_cycle
    exact packs.acyclic_of_finite finite reaches cycle
  rcases packs.accept_cases reads sem root with accepted | ⟨unresolved | loops, -⟩
  · exact accepted
  · exact absurd resolves unresolved
  · exact absurd loops straight

/-! ## A single derivation -/

/-- **Roots with the same trees are one root.** -/
theorem Packs.roots_eq_singleton (packs : f.Packs stands) (mem : root ∈ f.roots)
    (same : ∀ id ∈ f.roots, f.treesBelow stands id = f.treesBelow stands root) :
    f.roots = [root] := by
  obtain ⟨node, place, -⟩ := packs.root root mem
  obtain ⟨tree, below⟩ := packs.nonempty_treesBelow place
  have only : ∀ id ∈ f.roots, id = root := fun id memId =>
    packs.root_eq id memId root mem tree (same id memId ▸ below) below
  have nodup := packs.nodup_roots
  rw [List.eq_replicate_of_mem only] at mem nodup ⊢
  obtain ⟨none, -⟩ := List.mem_replicate.1 mem
  rw [Nat.le_antisymm (List.nodup_replicate.1 nodup) (Nat.pos_of_ne_zero none)]
  rfl

/-- **A single production at the top** of all derivations of the input makes a single root, above
all of them. -/
theorem Packs.exists_root_of_production (packs : f.Packs stands) {production : ProdId} {tree : Tree}
    (derivation : Derivation f.grammar stands [.nonterminal f.grammar.entry] [tree] 0 f.tokens.size)
    (top : ∀ tree, Derivation f.grammar stands [.nonterminal f.grammar.entry] [tree] 0
      f.tokens.size → ∃ children, tree = .node production children) :
    ∃ root node, f.roots = [root] ∧ f.nodes[root]? = some node
      ∧ node.span = ⟨0, f.tokens.size, production⟩
      ∧ f.treesBelow stands root = {tree | Derivation f.grammar stands
          [.nonterminal f.grammar.entry] [tree] 0 f.tokens.size} := by
  have whole : ∀ id ∈ f.roots, ∃ node, f.nodes[id]? = some node
      ∧ node.span = ⟨0, f.tokens.size, production⟩ := by
    intro id mem
    obtain ⟨node, place, -, start, stop⟩ := packs.root id mem
    obtain ⟨tree, below⟩ := packs.nonempty_treesBelow place
    obtain ⟨children, rfl⟩ := top tree (packs.exists_root_iff.1 ⟨id, mem, below⟩)
    obtain ⟨node', place', _, same, -⟩ := below
    obtain rfl := Option.some.inj (place.symm.trans place')
    exact ⟨node, place, by rw [Node.span, start, stop, (Tree.node.inj same).1]; rfl⟩
  have trees : ∀ id ∈ f.roots, f.treesBelow stands id = {tree | Derivation f.grammar stands
      [.nonterminal f.grammar.entry] [tree] 0 f.tokens.size} := by
    intro id mem
    obtain ⟨node, place, span⟩ := whole id mem
    ext tree
    refine ⟨fun below => packs.exists_root_iff.1 ⟨id, mem, below⟩, fun derivation => ?_⟩
    obtain ⟨children, rfl⟩ := top tree derivation
    obtain ⟨_, -, _, same, inner⟩ := derivation.exists_node
    obtain ⟨rfl, rfl⟩ := Tree.node.inj same
    exact ⟨node, place, by rw [span]; exact ⟨children, rfl, inner⟩⟩
  obtain ⟨root, mem, -⟩ := packs.exists_root tree derivation
  obtain ⟨node, place, span⟩ := whole root mem
  exact ⟨root, node, packs.roots_eq_singleton mem fun id memId =>
    (trees id memId).trans (trees root mem).symm, place, span, trees root mem⟩

/-- **A single derivation of the input** lies below a single root, and there alone. -/
theorem Packs.exists_roots_eq_singleton (packs : f.Packs stands) {tree : Tree}
    (derivation : Derivation f.grammar stands [.nonterminal f.grammar.entry] [tree] 0 f.tokens.size)
    (unique : ∀ other, Derivation f.grammar stands [.nonterminal f.grammar.entry] [other] 0
      f.tokens.size → other = tree) :
    ∃ root, f.roots = [root] ∧ f.treesBelow stands root = {tree} := by
  have only : ∀ id ∈ f.roots, f.treesBelow stands id = {tree} := by
    intro id mem
    obtain ⟨node, place, -⟩ := packs.root id mem
    refine Set.eq_singleton_iff_nonempty_unique_mem.2 ⟨packs.nonempty_treesBelow place, ?_⟩
    exact fun other below => unique other (packs.exists_root_iff.1 ⟨id, mem, below⟩)
  obtain ⟨root, mem, -⟩ := packs.exists_root tree derivation
  have same : ∀ id ∈ f.roots, f.treesBelow stands id = f.treesBelow stands root :=
    fun id memId => (only id memId).trans (only root mem).symm
  exact ⟨root, packs.roots_eq_singleton mem same, only root mem⟩

/-- **A single derivation is evaluated**: it is counted, it is what the first branches are followed
to, and its value is that of the root. -/
theorem Packs.evaluate_of_singleton (packs : f.Packs stands)
    (reads : ∀ index kind, stands index kind → index < f.tokens.size) {sem : Semantics κ V}
    (chooses : sem.chooser = .first) {tree : Tree} (trees : f.treesBelow stands root = {tree})
    {value : V} (means : tree.value? sem f.tokens = some value) :
    f.count root = some 1
      ∧ ∃ r reductions, (f.choose sem.chooser root).resolution? = some r
          ∧ f.evaluate sem r root = ⟨reductions, .ok value⟩ ∧ f.accept sem root = some value
          ∧ ReductionsOf sem f.tokens reductions.toList tree.postorder := by
  obtain ⟨node, place, -⟩ : tree ∈ f.treesBelow stands root := trees ▸ rfl
  constructor
  · obtain ⟨given, missing⟩ := packs.tally_count place
    rw [trees, Set.encard_singleton] at given missing
    cases answer : f.count root with
    | none => exact absurd (missing answer) (by decide)
    | some count => exact congrArg some (by exact_mod_cast (given count answer).1.symm)
  · have resolves : f.Resolves (f.answers sem.chooser) root :=
      chooses ▸ packs.resolves_first (Array.getElem?_eq_some_iff.1 place).1
    obtain ⟨tree', value', reductions, r, folds, chosen, evaluated, accepted⟩ :=
      packs.exists_folds_of_finite reads (trees ▸ Set.finite_singleton tree) resolves
    have below := folds.follows.mem_treesBelow packs
    rw [trees] at below
    obtain rfl := Set.mem_singleton_iff.1 below
    obtain rfl := Option.some.inj (means.symm.trans (Tree.value?_of_values? folds.values_eq))
    refine ⟨r, reductions, chosen, evaluated, accepted, ?_⟩
    simpa [Tree.postorders] using folds.reductionsOf

/-- **A single derivation of the input** has a single root, which is accepted with its value. -/
theorem Packs.exists_root_of_value (packs : f.Packs stands)
    (reads : ∀ index kind, stands index kind → index < f.tokens.size) {sem : Semantics κ V}
    (chooses : sem.chooser = .first) {tree : Tree} {value : V}
    (derivation : Derivation f.grammar stands [.nonterminal f.grammar.entry] [tree] 0 f.tokens.size)
    (unique : ∀ other, Derivation f.grammar stands [.nonterminal f.grammar.entry] [other] 0
      f.tokens.size → other = tree)
    (means : tree.value? sem f.tokens = some value) :
    ∃ root, f.roots = [root] ∧ f.count root = some 1 ∧ f.accept sem root = some value := by
  obtain ⟨root, roots, trees⟩ := packs.exists_roots_eq_singleton derivation unique
  obtain ⟨count, -, -, -, -, accepted, -⟩ := packs.evaluate_of_singleton reads chooses trees means
  exact ⟨root, roots, count, accepted⟩

end Forest

/-- **Accepting a root of a parse.**  There is a value exactly if the chooser picks a branch at
every node that its picks lead to and the picks do not loop.  It is then the value of the one tree
that the picks are followed to; this tree is a derivation of the production of the root over the
whole input; and the reductions are those of its inner nodes in post-order.  Where no cycle at all
can be reached from the root, it is enough that branches are picked. -/
theorem accept_of_parse [DecidableEq κ] {σ : Type v} {g : Grammar κ} {tokenizer : Tokenizer κ σ}
    {equals : String → κ → Bool} {state : σ} {f : Forest κ}
    (h : parse g tokenizer equals state = .ok f) (sem : Semantics κ V) {root : NodeId}
    (mem : root ∈ f.roots) :
    let chart := (recognize g tokenizer equals state).chart
    let picks := f.answers sem.chooser
    ((f.accept sem root).isSome ↔ f.Resolves picks root ∧ ¬ f.Loops picks root)
      ∧ (∀ value, f.accept sem root = some value → ∃ tree,
          (∀ trees, f.Follows picks [.node root] trees ↔ trees = [tree])
            ∧ tree.value? sem f.tokens = some value
            ∧ (∃ node children, f.nodes[root]? = some node
                ∧ tree = .node node.production children
                ∧ Derivation g chart.Reads (g.symbols node.production) children 0
                    chart.tokens.size)
            ∧ ∃ r reductions, (f.choose sem.chooser root).resolution? = some r
                ∧ f.evaluate sem r root = ⟨reductions, .ok value⟩
                ∧ ReductionsOf sem f.tokens reductions.toList tree.postorder)
      ∧ (f.Resolves picks root →
          (∀ id, Relation.ReflTransGen f.Parent root id → ¬ Relation.TransGen f.Parent id id) →
            (f.accept sem root).isSome) := by
  intro chart picks
  have packs : f.Packs chart.Reads := Forest.packs_parse h
  obtain rfl : f = .ofChart g chart := (parse_eq_ok_iff.1 h).2
  have sound : chart.Sound g := Chart.sound_recognize
  have reads : ∀ index kind, chart.Reads index kind → index < chart.tokens.size :=
    fun _ _ => sound.lt_of_reads
  have value := packs.isSome_accept_iff reads sem root
  refine ⟨value, fun v accepted => ?_, fun resolves acyclic => value.2 ⟨resolves, ?_⟩⟩
  · rcases packs.accept_cases reads sem root with
      ⟨tree, value, reductions, r, folds, chosen, evaluated, same⟩ | ⟨-, same⟩
    · obtain rfl := Option.some.inj (same.symm.trans accepted)
      refine ⟨tree, fun trees => ⟨fun follows => follows.unique folds.follows, ?_⟩,
        Tree.value?_of_values? folds.values_eq, ?_, r, reductions, chosen, evaluated, ?_⟩
      · rintro rfl
        exact folds.follows
      · obtain ⟨node, place, children, rfl, derivation⟩ := folds.follows.mem_treesBelow packs
        obtain ⟨node', place', -, start, stop⟩ := packs.root root mem
        obtain rfl := Option.some.inj (place.symm.trans place')
        refine ⟨node, children, place, rfl, ?_⟩
        change Derivation g chart.Reads _ children node.start node.stop at derivation
        rw [start, stop] at derivation
        exact derivation
      · simpa [Tree.postorders] using folds.reductionsOf
    · exact absurd (accepted.symm.trans same) (Option.some_ne_none v)
  · intro loops
    obtain ⟨id, reaches, cycle⟩ := loops.exists_cycle
    exact acyclic id reaches cycle

/-- The semantics of trees that counts their inner nodes. -/
def Semantics.size : Semantics κ Nat where
  leaf _ := 0
  reduce _ args := args.sum + 1

/-- Of two derivations the first is evaluated, and both have two inner nodes. -/
theorem accept_of_parse_twofold :
    ∃ f, parse twofold (.ofList String) (· == ·) [] = .ok f
      ∧ ∃ root ∈ f.roots, f.accept .size root = some 2 := by
  have run : (recognize twofold (.ofList String) (· == ·) []).error? = none
      ∧ (recognize twofold (.ofList String) (· == ·) []).chart.tokens.size = 0 := by decide +kernel
  have ok := parse_eq_ok_iff.2 ⟨run.1, rfl⟩
  have packs := Forest.packs_parse ok
  obtain ⟨root, mem, bound, trees⟩ := exists_root_twofold packs rfl run.2
  obtain ⟨-, accepted, straight⟩ := accept_of_parse ok (Semantics.size) mem
  obtain ⟨value, same⟩ := Option.isSome_iff_exists.1
    (straight (packs.resolves_first bound) fun _ =>
      packs.acyclic_of_finite (by rw [trees]; exact Set.toFinite _))
  obtain ⟨tree, -, fold, ⟨node, children, place, rfl, derivation⟩, -⟩ := accepted value same
  refine ⟨_, ok, root, mem, same.trans (fold.symm.trans ?_)⟩
  obtain ⟨node', place', named, -⟩ := packs.root root mem
  obtain rfl := Option.some.inj (place.symm.trans place')
  have rule : node.production ∈ twofold.productionsOf "S" := Grammar.mem_productionsOf.2
    ⟨(packs.node root node place).derived.production_lt, named⟩
  rw [run.2] at derivation
  rcases derivation_twofold_iff.1 (.singleton_node rule derivation) with tree | tree
  · rw [tree]
    rfl
  · rw [tree]
    rfl

end Earley
