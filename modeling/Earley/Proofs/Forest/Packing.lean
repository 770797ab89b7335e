import Earley.Proofs.Forest.Arena
import Earley.Proofs.Grammar.Tree
import Mathlib.Data.Set.Basic

/-!
# Proofs/Forest/Packing — the branches of a node share out the trees below it

A child stands for trees: a token for its leaf, a node for the trees of its production over its
stretch of the tokens (`Child.Covers`).  A derivation runs along exactly one thread of its span, for
trees know where they end (`Exact.exists_thread`, `Thread.eq_of_covers`).  So every derivation below
a node lies under exactly one of its branches: the forest of a chart *packs* the derivations
(`Forest.packs_ofChart`).
-/

namespace Earley

universe u v

variable {κ : Type u}

/-- **The trees that a child stands for**, by the trees of nodes. -/
inductive Child.Covers {ν : Type v} (trees : ν → Set Tree) : Child ν → Tree → Prop
  | token (index : Nat) : Covers trees (.token index) (.leaf index)
  | node {x : ν} {tree : Tree} (below : tree ∈ trees x) : Covers trees (.node x) tree

/-- The derivation trees of a production over a stretch of the tokens. -/
def Span.trees (g : Grammar κ) (stands : Nat → κ → Prop) (span : Span) : Set Tree :=
  {tree | ∃ children, tree = .node span.production children
    ∧ Derivation g stands (g.symbols span.production) children span.start span.stop}

theorem Child.covers_node_iff {ν : Type v} {trees : ν → Set Tree} {x : ν} {tree : Tree} :
    Child.Covers trees (.node x) tree ↔ tree ∈ trees x := by
  refine ⟨fun h => ?_, .node⟩
  cases h with
  | node below => exact below

/-- A span is known by where it begins and any of its trees. -/
theorem Span.eq_of_mem_trees {g : Grammar κ} {stands : Nat → κ → Prop} {span span' : Span}
    {tree : Tree} (start : span.start = span'.start) (mem : tree ∈ span.trees g stands)
    (mem' : tree ∈ span'.trees g stands) : span = span' := by
  obtain ⟨children, rfl, head⟩ := mem
  obtain ⟨children', same, head'⟩ := mem'
  obtain ⟨production, rfl⟩ := Tree.node.inj same
  obtain ⟨first, stop, id⟩ := span
  obtain ⟨first', stop', id'⟩ := span'
  obtain rfl : first = first' := start
  obtain rfl : stop = stop' := head.stop_eq head'
  obtain rfl : id = id' := production
  rfl

/-! ## Trees along threads -/

namespace Weave

variable {weave : Weave κ} {stands : Nat → κ → Prop} {symbols : List (Symbol κ)}
  {cs cs' : List (Child Span)} {trees : List Tree} {pos stop stop' : Nat}

/-- **A derivation runs along a thread.** -/
theorem Exact.exists_thread (h : weave.Exact stands)
    (derivation : Derivation weave.grammar stands symbols trees pos stop)
    (awaited : Awaited weave.grammar stands symbols pos) :
    ∃ cs, weave.Thread symbols cs pos stop
      ∧ List.Forall₂ (Child.Covers (Span.trees weave.grammar stands)) cs trees := by
  induction derivation with
  | nil pos => exact ⟨[], .nil pos, .nil⟩
  | leaf stand tail ih =>
    obtain ⟨cs, thread, covers⟩ := ih (awaited.tail (.singleton_terminal stand))
    exact ⟨_, .token ((h.reads _ _).2 stand) thread, .cons (.token _) covers⟩
  | @node name id rest children trees pos mid stop rule head tail _ ihTail =>
    obtain ⟨cs, thread, covers⟩ :=
      ihTail (awaited.tail (.singleton_nonterminal rule head.derives))
    obtain ⟨bound, named⟩ := Grammar.mem_productionsOf.1 rule
    have derived : Span.Derived weave.grammar stands ⟨pos, mid, id⟩ :=
      ⟨bound, by rw [named]; exact awaited.head, head.derives⟩
    exact ⟨.node ⟨pos, mid, id⟩ :: cs, .node (h.mem_meeting_iff.2 ⟨rfl, named, derived⟩) thread,
      .cons (.node ⟨children, rfl, head⟩) covers⟩

/-- **What lies along a thread is a derivation.** -/
theorem Exact.derivation_of_thread (h : weave.Exact stands)
    (thread : weave.Thread symbols cs pos stop)
    (covers : List.Forall₂ (Child.Covers (Span.trees weave.grammar stands)) cs trees) :
    Derivation weave.grammar stands symbols trees pos stop := by
  induction thread generalizing trees with
  | nil pos =>
    obtain ⟨⟩ := covers
    exact .nil pos
  | token reads _ ih =>
    cases covers with
    | cons first covers =>
      obtain ⟨⟩ := first
      exact .leaf ((h.reads _ _).1 reads) (ih covers)
  | node meets _ ih =>
    cases covers with
    | cons first covers =>
      obtain ⟨children, rfl, head⟩ := Child.covers_node_iff.1 first
      obtain ⟨rfl, named, derived⟩ := h.mem_meeting_iff.1 meets
      exact .node (Grammar.mem_productionsOf.2 ⟨derived.production_lt, named⟩) head (ih covers)

/-- Some trees lie along every thread. -/
theorem Exact.exists_trees_of_thread (h : weave.Exact stands)
    (thread : weave.Thread symbols cs pos stop) :
    ∃ trees, List.Forall₂ (Child.Covers (Span.trees weave.grammar stands)) cs trees := by
  induction thread with
  | nil => exact ⟨[], .nil⟩
  | token _ _ ih =>
    obtain ⟨trees, covers⟩ := ih
    exact ⟨_, .cons (.token _) covers⟩
  | node meets _ ih =>
    obtain ⟨trees, covers⟩ := ih
    obtain ⟨-, -, derived⟩ := h.mem_meeting_iff.1 meets
    obtain ⟨children, head⟩ := derives_iff_exists_derivation.1 derived.read
    exact ⟨_, .cons (.node ⟨children, rfl, head⟩) covers⟩

/-- **Trees lie along one thread only**: the spans of a thread follow from where they begin, and
from their trees, which know where they end. -/
theorem Thread.eq_of_covers (wf : weave.index.WellFormed)
    (thread : weave.Thread symbols cs pos stop) (thread' : weave.Thread symbols cs' pos stop')
    (covers : List.Forall₂ (Child.Covers (Span.trees weave.grammar stands)) cs trees)
    (covers' : List.Forall₂ (Child.Covers (Span.trees weave.grammar stands)) cs' trees) :
    cs = cs' := by
  induction thread generalizing cs' trees with
  | nil =>
    obtain ⟨⟩ := thread'
    rfl
  | token _ _ ih =>
    cases thread' with
    | token _ tail' =>
      cases covers with
      | cons _ covers => rw [ih tail' covers (List.forall₂_cons.1 covers').2]
  | @node name span rest cs pos stop meets _ ih =>
    cases thread' with
    | @node _ span' _ cs' _ _ meets' tail' =>
      cases covers with
      | cons first covers =>
        obtain ⟨first', further'⟩ := List.forall₂_cons.1 covers'
        have same := Span.eq_of_mem_trees
          ((wf.start_eq _ _ (mem_meeting_iff.1 meets).1).trans
            (wf.start_eq _ _ (mem_meeting_iff.1 meets').1).symm)
          (Child.covers_node_iff.1 first) (Child.covers_node_iff.1 first')
        subst same
        rw [ih tail' covers further']

end Weave

/-! ## Forests -/

/-- The stretch of a node. -/
def Node.span (node : Node) : Span := ⟨node.start, node.stop, node.production⟩

namespace Forest

/-- **The derivation trees below a node**: those of its production over its stretch. -/
def treesBelow (f : Forest κ) (stands : Nat → κ → Prop) (id : NodeId) : Set Tree :=
  {tree | ∃ node, f.nodes[id]? = some node ∧ tree ∈ node.span.trees f.grammar stands}

/-- The trees lie along the children. -/
abbrev Along (f : Forest κ) (stands : Nat → κ → Prop) (branch : Branch) (trees : List Tree) :
    Prop :=
  List.Forall₂ (Child.Covers (f.treesBelow stands)) branch trees

/-- **The branches of a node share out its derivations.** -/
structure PacksNode (f : Forest κ) (stands : Nat → κ → Prop) (node : Node) : Prop where
  derived : node.span.Derived f.grammar stands
  nodup : node.branches.Nodup
  /-- A derivation lies along one of the branches. -/
  derivation_iff : ∀ trees,
    Derivation f.grammar stands (f.grammar.symbols node.production) trees node.start node.stop
      ↔ ∃ branch ∈ node.branches, f.Along stands branch trees
  /-- It lies along no other one. -/
  branch_eq : ∀ branch ∈ node.branches, ∀ branch' ∈ node.branches, ∀ trees,
    f.Along stands branch trees → f.Along stands branch' trees → branch = branch'
  /-- No branch is dead. -/
  exists_trees : ∀ branch ∈ node.branches, ∃ trees, f.Along stands branch trees

/-- **The forest packs the derivations**, those of the whole input below its roots. -/
structure Packs (f : Forest κ) (stands : Nat → κ → Prop) : Prop where
  node : ∀ (id : NodeId) (node : Node), f.nodes[id]? = some node → f.PacksNode stands node
  nodup_roots : f.roots.Nodup
  root : ∀ id ∈ f.roots, ∃ node, f.nodes[id]? = some node
    ∧ f.grammar.name node.production = f.grammar.entry
    ∧ node.start = 0 ∧ node.stop = f.tokens.size
  root_eq : ∀ id ∈ f.roots, ∀ id' ∈ f.roots, ∀ tree, tree ∈ f.treesBelow stands id →
    tree ∈ f.treesBelow stands id' → id = id'
  /-- A derivation of the whole input lies below a root. -/
  exists_root : ∀ tree, Derivation f.grammar stands [.nonterminal f.grammar.entry] [tree] 0
    f.tokens.size → ∃ root ∈ f.roots, tree ∈ f.treesBelow stands root

variable {f : Forest κ} {stands : Nat → κ → Prop}

/-- **A token stands in a branch for a terminal** that it was read as. -/
theorem PacksNode.exists_kind {node : Node} (packed : f.PacksNode stands node) {branch : Branch}
    (mem : branch ∈ node.branches) {place index : Nat}
    (token : branch[place]? = some (.token index)) :
    ∃ kind, (f.grammar.symbols node.production)[place]? = some (.terminal kind)
      ∧ stands index kind := by
  obtain ⟨trees, along⟩ := packed.exists_trees branch mem
  refine ((packed.derivation_iff trees).2 ⟨branch, mem, along⟩).exists_kind ?_
  obtain ⟨bound, same⟩ := List.getElem?_eq_some_iff.1 token
  have bound' : place < trees.length := along.length_eq ▸ bound
  have covers := List.Forall₂.get along bound bound'
  rw [List.get_eq_getElem, List.get_eq_getElem, same] at covers
  rw [List.getElem?_eq_getElem bound']
  generalize trees[place] = tree at covers
  obtain ⟨⟩ := covers
  rfl

/-- The trees below the roots are the derivations of the whole input. -/
theorem Packs.exists_root_iff (packs : f.Packs stands) {tree : Tree} :
    (∃ root ∈ f.roots, tree ∈ f.treesBelow stands root) ↔
      Derivation f.grammar stands [.nonterminal f.grammar.entry] [tree] 0 f.tokens.size := by
  refine ⟨?_, packs.exists_root tree⟩
  rintro ⟨root, mem, node, place, children, rfl, derivation⟩
  obtain ⟨node', place', named, start, stop⟩ := packs.root root mem
  obtain rfl := Option.some.inj (place.symm.trans place')
  have bound := (packs.node root node place).derived.production_lt
  refine .singleton_node (Grammar.mem_productionsOf.2 ⟨bound, named⟩) ?_
  rw [← start, ← stop]
  exact derivation

/-- **There is a root exactly if the entry derives all tokens.** -/
theorem Packs.roots_ne_nil_iff (packs : f.Packs stands) : f.roots ≠ [] ↔
    Derives f.grammar stands [.nonterminal f.grammar.entry] 0 f.tokens.size := by
  constructor
  · intro present
    obtain ⟨root, mem⟩ := List.exists_mem_of_ne_nil _ present
    obtain ⟨node, place, named, start, stop⟩ := packs.root root mem
    have derived := (packs.node root node place).derived
    refine .singleton_nonterminal (Grammar.mem_productionsOf.2 ⟨derived.production_lt, named⟩) ?_
    rw [← start, ← stop]
    exact derived.read
  · intro derives
    obtain ⟨id, rule, read⟩ := derives.exists_rule
    obtain ⟨children, derivation⟩ := derives_iff_exists_derivation.1 read
    obtain ⟨root, mem, -⟩ := packs.exists_root _ (.singleton_node rule derivation)
    exact List.ne_nil_of_mem mem

end Forest

/-! ## The forest of a chart -/

section Chart

variable [DecidableEq κ] {g : Grammar κ} {chart : Chart κ} {id : NodeId}

theorem Forest.getElem?_nodes_ofChart (sound : chart.Sound g) (saturated : chart.Saturated g)
    {node : Node} : (Forest.ofChart g chart).nodes[id]? = some node ↔
      ∃ span, (Weave.ofChart g chart).arenaSpans[id]? = some span
        ∧ (Weave.ofChart g chart).node span = node := by
  rw [Forest.nodes_ofChart sound saturated, Weave.getElem?_created, Option.map_eq_some_iff]

/-- The trees below a node are those of its span. -/
theorem Forest.treesBelow_ofChart (sound : chart.Sound g) (saturated : chart.Saturated g)
    {span : Span} (place : (Weave.ofChart g chart).arenaSpans[id]? = some span) :
    (Forest.ofChart g chart).treesBelow chart.Reads id = span.trees g chart.Reads := by
  ext tree
  constructor
  · rintro ⟨node, atId, mem⟩
    obtain ⟨span', place', rfl⟩ := (getElem?_nodes_ofChart sound saturated).1 atId
    obtain rfl := Option.some.inj (place.symm.trans place')
    exact mem
  · intro mem
    exact ⟨_, (getElem?_nodes_ofChart sound saturated).2 ⟨span, place, rfl⟩, mem⟩

/-- Trees lie along children as they lie along the spans that these stand for. -/
theorem Forest.along_ofChart_iff (sound : chart.Sound g) (saturated : chart.Saturated g)
    {cs : List (Child Span)} {branch : Branch} {trees : List Tree}
    (row : List.Forall₂ (Child.Numbered (Weave.ofChart g chart).arenaSpans) cs branch) :
    (Forest.ofChart g chart).Along chart.Reads branch trees
      ↔ List.Forall₂ (Child.Covers (Span.trees g chart.Reads)) cs trees := by
  induction row generalizing trees with
  | nil => rw [Along, List.forall₂_nil_left_iff, List.forall₂_nil_left_iff]
  | @cons child child' cs branch head _ ih =>
    rw [Along, List.forall₂_cons_left_iff, List.forall₂_cons_left_iff]
    refine exists₂_congr fun tree rest => and_congr ?_ (and_congr_left' ih)
    cases head with
    | token index =>
      constructor
      · rintro ⟨⟩
        exact .token index
      · rintro ⟨⟩
        exact .token index
    | node place =>
      rw [Child.covers_node_iff, Child.covers_node_iff, treesBelow_ofChart sound saturated place]

/-- **The branches of a node of a chart share out its derivations.** -/
theorem Forest.packsNode_ofChart (sound : chart.Sound g) (saturated : chart.Saturated g)
    {node : Node} (atId : (Forest.ofChart g chart).nodes[id]? = some node) :
    (Forest.ofChart g chart).PacksNode chart.Reads node := by
  have woven := Weave.exact_ofChart sound saturated
  obtain ⟨span, place, rfl⟩ := (getElem?_nodes_ofChart sound saturated).1 atId
  have derived := woven.derived_of_place place
  constructor
  case derived => exact derived
  case nodup => exact Weave.nodup_branches_node woven.wf
  case derivation_iff =>
    intro trees
    constructor
    · intro derivation
      obtain ⟨cs, thread, covers⟩ := woven.exists_thread derivation derived.awaited
      obtain ⟨branch, mem, row⟩ :=
        Weave.exists_branch_of_thread woven.wf (List.mem_of_getElem? place) thread
      exact ⟨branch, mem, (along_ofChart_iff sound saturated row).2 covers⟩
    · rintro ⟨branch, mem, along⟩
      obtain ⟨cs, thread, row⟩ := (Weave.mem_branches_node_iff woven.wf).1 mem
      exact woven.derivation_of_thread thread ((along_ofChart_iff sound saturated row).1 along)
  case branch_eq =>
    intro branch mem branch' mem' trees along along'
    obtain ⟨cs, thread, row⟩ := (Weave.mem_branches_node_iff woven.wf).1 mem
    obtain ⟨cs', thread', row'⟩ := (Weave.mem_branches_node_iff woven.wf).1 mem'
    obtain rfl := thread.eq_of_covers woven.wf thread'
      ((along_ofChart_iff sound saturated row).1 along)
      ((along_ofChart_iff sound saturated row').1 along')
    exact List.right_unique_forall₂' (Child.Numbered.rightUnique (Weave.nodup_arenaSpans woven.wf))
      row row'
  case exists_trees =>
    intro branch mem
    obtain ⟨cs, thread, row⟩ := (Weave.mem_branches_node_iff woven.wf).1 mem
    obtain ⟨trees, covers⟩ := woven.exists_trees_of_thread thread
    exact ⟨trees, (along_ofChart_iff sound saturated row).2 covers⟩

/-- **The forest of a chart packs the derivations** of what the chart was made from. -/
theorem Forest.packs_ofChart (sound : chart.Sound g) (saturated : chart.Saturated g) :
    (Forest.ofChart g chart).Packs chart.Reads where
  node := fun _ _ atId => packsNode_ofChart sound saturated atId
  nodup_roots := nodup_roots_ofChart sound saturated
  root := by
    intro id mem
    obtain ⟨span, place, named, start, stop⟩ := (mem_roots_ofChart sound saturated).1 mem
    exact ⟨_, (getElem?_nodes_ofChart sound saturated).2 ⟨span, place, rfl⟩, named, start, stop⟩
  root_eq := by
    intro id mem id' mem' tree below below'
    obtain ⟨span, place, -, start, -⟩ := (mem_roots_ofChart sound saturated).1 mem
    obtain ⟨span', place', -, start', -⟩ := (mem_roots_ofChart sound saturated).1 mem'
    rw [treesBelow_ofChart sound saturated place] at below
    rw [treesBelow_ofChart sound saturated place'] at below'
    obtain rfl := Span.eq_of_mem_trees (start.trans start'.symm) below below'
    have bound := (List.getElem?_eq_some_iff.1 place).1
    exact (List.getElem?_inj bound
      (Weave.nodup_arenaSpans (Weave.exact_ofChart sound saturated).wf)).1 (place.trans place'.symm)
  exists_root := by
    intro tree derivation
    have woven := Weave.exact_ofChart sound saturated
    obtain ⟨id, rule, children, rfl, head⟩ := derivation.exists_node
    obtain ⟨bound, named⟩ : id < g.productions.size ∧ g.name id = g.entry :=
      Grammar.mem_productionsOf.1 rule
    have derived : Span.Derived g chart.Reads ⟨0, chart.tokens.size, id⟩ :=
      ⟨bound, by rw [named]; exact .entry, head.derives⟩
    have meets :
        (⟨0, chart.tokens.size, id⟩ : Span) ∈ (Weave.ofChart g chart).meeting ⟨g.entry, 0⟩ :=
      woven.mem_meeting_iff.2 ⟨rfl, named, derived⟩
    have mem := Weave.mem_arenaSpans_of_meets_entry woven.wf meets
    obtain ⟨root, place⟩ := List.mem_iff_getElem?.1 mem
    refine ⟨root, (mem_roots_ofChart sound saturated).2 ⟨_, place, named, rfl, rfl⟩, ?_⟩
    rw [treesBelow_ofChart sound saturated place]
    exact ⟨children, rfl, head⟩

/-- A parse gives the forest of its chart, unless an error stopped it. -/
theorem parse_eq_ok_iff {σ : Type v} {tokenizer : Tokenizer κ σ} {equals : String → κ → Bool}
    {state : σ} {f : Forest κ} : parse g tokenizer equals state = .ok f ↔
      (recognize g tokenizer equals state).error? = none
        ∧ f = .ofChart g (recognize g tokenizer equals state).chart := by
  rw [parse, Run.forest]
  cases (recognize g tokenizer equals state).error? with
  | none => simp [eq_comm]
  | some error => simp

/-- **The forest of every parse packs the derivations** of its input. -/
theorem Forest.packs_parse {σ : Type v} {tokenizer : Tokenizer κ σ} {equals : String → κ → Bool}
    {state : σ} {f : Forest κ} (h : parse g tokenizer equals state = .ok f) :
    f.Packs (recognize g tokenizer equals state).chart.Reads := by
  rw [(parse_eq_ok_iff.1 h).2]
  exact packs_ofChart Chart.sound_recognize Chart.saturated_recognize

end Chart

end Earley
