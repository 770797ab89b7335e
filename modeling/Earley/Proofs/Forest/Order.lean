import Earley.Proofs.Forest.Acceptance

/-!
# Proofs/Forest/Order — the order of branches and roots, and what it does not depend on

Where two branches of a node differ first, both go on with nodes that begin at one position, and the
earlier branch has the one that ends earlier or, at the same end, the production that was declared
earlier (`Child.Lex` by `Forest.Before`).  The threads of a span are listed in this order, and
numbers keep it (`Weave.pairwise_branches_node`).  The first branch, which is kept by default, is
thus the least one.

The items of a chart are sorted on the way.  Filled in another order, the chart has the same forest
(`Forest.ofChart_reordered`).
-/

namespace Earley

universe u v

variable {κ : Type u}

/-! ## Branches and roots -/

namespace Forest

/-- **A node comes before another** that begins where it does. -/
def Before (f : Forest κ) (id other : NodeId) : Prop :=
  ∃ node node', f.nodes[id]? = some node ∧ f.nodes[other]? = some node'
    ∧ node.span.Precedes node'.span

/-- **A root comes before another**: its production was declared earlier. -/
def RootBefore (f : Forest κ) (root other : NodeId) : Prop :=
  ∃ node node', f.nodes[root]? = some node ∧ f.nodes[other]? = some node'
    ∧ node.production < node'.production

section Chart

variable [DecidableEq κ] {g : Grammar κ} {chart : Chart κ}

/-- **The branches of a node are in lexicographic order.** -/
theorem pairwise_branches_ofChart (sound : chart.Sound g) (saturated : chart.Saturated g)
    {id : NodeId} {node : Node} (atId : (Forest.ofChart g chart).nodes[id]? = some node) :
    node.branches.Pairwise (Child.Lex (Forest.ofChart g chart).Before) := by
  obtain ⟨span, -, rfl⟩ := (getElem?_nodes_ofChart sound saturated).1 atId
  refine (Weave.pairwise_branches_node (Weave.exact_ofChart sound saturated).wf).imp ?_
  intro branch branch' less
  induction less with
  | here less =>
    obtain ⟨x, y, place, place', precedes⟩ := less
    exact .here ⟨_, _, (getElem?_nodes_ofChart sound saturated).2 ⟨x, place, rfl⟩,
      (getElem?_nodes_ofChart sound saturated).2 ⟨y, place', rfl⟩, precedes⟩
  | there _ ih => exact .there ih

/-- **The roots are in the order of their productions**, as all of them have the same end. -/
theorem pairwise_roots_ofChart (sound : chart.Sound g) (saturated : chart.Saturated g) :
    (Forest.ofChart g chart).roots.Pairwise (Forest.ofChart g chart).RootBefore := by
  have whole : ∀ root x, root ∈ (Forest.ofChart g chart).roots →
      (Weave.ofChart g chart).arenaSpans[root]? = some x → x.stop = chart.tokens.size := by
    intro root x mem place
    obtain ⟨x', place', -, -, stop⟩ := (mem_roots_ofChart sound saturated).1 mem
    rw [Option.some.inj (place.symm.trans place'), stop]
  have ordered := Weave.pairwise_candidates (Weave.exact_ofChart sound saturated).wf
  rw [roots_ofChart sound saturated] at whole ⊢
  refine (ordered.filter _).imp_of_mem ?_
  rintro root root' mem mem' ⟨x, y, place, place', precedes⟩
  have same : ¬ x.stop < y.stop := by
    rw [whole root x mem place, whole root' y mem' place']
    exact Nat.lt_irrefl _
  exact ⟨_, _, (getElem?_nodes_ofChart sound saturated).2 ⟨x, place, rfl⟩,
    (getElem?_nodes_ofChart sound saturated).2 ⟨y, place', rfl⟩,
    (precedes.before.resolve_left same).2⟩

end Chart

/-! ## The default choice -/

theorem eq_zero_of_first {f : Forest κ} {node : Node} {index : Nat}
    (answer : Chooser.first f node = some index) : index = 0 := by
  rw [Chooser.first] at answer
  split at answer
  · cases answer
  · exact (Option.some.inj answer).symm

/-- **By default the first branch is kept everywhere.** -/
theorem Packs.exists_first {f : Forest κ} {stands : Nat → κ → Prop} (packs : f.Packs stands)
    {root : NodeId} (bound : root < f.nodes.size) :
    ∃ r, (f.choose .first root).resolution? = some r ∧ ∀ id ∈ r.nodes, r.branch? id = some 0
      ∧ ∃ node kept others, f.nodes[id]? = some node ∧ node.branches = kept :: others := by
  rcases f.choose_cases .first root with ⟨r, chosen, reached⟩ | ⟨⟨id, reaches, none⟩, -⟩
  · refine ⟨r, reached, fun id mem => ?_⟩
    obtain ⟨branch, pick⟩ := chosen.exists_picked mem
    obtain ⟨node, index, place, answer, atIndex⟩ := picked?_answers_eq_some_iff.1 pick
    obtain rfl := eq_zero_of_first answer
    obtain ⟨kept, others, branches⟩ :=
      List.exists_cons_of_ne_nil (List.ne_nil_of_mem (List.mem_of_getElem? atIndex))
    refine ⟨?_, node, kept, others, place, branches⟩
    rw [chosen.branch?_eq mem, answers, place, Option.bind_some, answer]
  · obtain ⟨branch, pick⟩ := packs.resolves_first bound id reaches
    exact absurd (none.symm.trans pick) (Option.some_ne_none branch).symm

end Forest

/-! ## The order of the items -/

/-- **The same chart, filled in another order**: at a position the same items, and for a token the
same kinds. -/
structure Chart.Reordered (chart other : Chart κ) : Prop where
  size_sets : other.sets.size = chart.sets.size
  items : ∀ pos, (other.itemsAt pos).Perm (chart.itemsAt pos)
  tokens : other.tokens = chart.tokens
  reads : ∀ index kind, other.Reads index kind ↔ chart.Reads index kind

/-- Sorting forgets the order of the items. -/
theorem spansBetween_congr {items items' : List Item} (perm : items'.Perm items)
    (start stop : Nat) : spansBetween items' start stop = spansBetween items start stop := by
  have found := (perm.filter fun item => item.origin = start).map Item.production
  have sorted :=
    ((List.mergeSort_perm _ (· ≤ ·)).trans found).trans (List.mergeSort_perm _ (· ≤ ·)).symm
  exact congrArg _ (sorted.eq_of_pairwise' List.sortedLE_mergeSort.pairwise
    List.sortedLE_mergeSort.pairwise)

/-- The index does not depend on the order of the items either. -/
theorem SpanIndex.ofSets_congr (g : Grammar κ) {chart other : Chart κ}
    (h : chart.Reordered other) :
    SpanIndex.ofSets g other.sets = SpanIndex.ofSets g chart.sets := by
  have spans : ∀ start stop,
      spansBetween ((other.itemsAt stop).filter (Item.isComplete g)) start stop
        = spansBetween ((chart.itemsAt stop).filter (Item.isComplete g)) start stop :=
    fun start stop => spansBetween_congr ((h.items stop).filter _) start stop
  simp only [SpanIndex.ofSets_eq, h.size_sets, spans]

/-! ## Weaves that allow the same children -/

namespace Weave

variable [DecidableEq κ] {weave other : Weave κ}

/-- **Weaves are alike** if they have the same spans and allow the same children. -/
structure Alike (weave other : Weave κ) : Prop where
  grammar : other.grammar = weave.grammar
  index : other.index = weave.index
  children : other.children = weave.children

namespace Alike

variable (h : weave.Alike other)

include h

theorem meeting : other.meeting = weave.meeting := by
  funext goal
  rw [Weave.meeting, Weave.meeting, h.index, h.grammar]

theorem branches : other.branches = weave.branches := by
  funext span
  rw [Weave.branches, Weave.branches, lay_congr h.children, h.grammar]

theorem arenaSpans : other.arenaSpans = weave.arenaSpans := by
  have subgoals : other.subgoals = weave.subgoals := by
    funext goal
    simp only [Weave.subgoals, h.meeting, goalsWithin_congr h.children, h.grammar]
  rw [Weave.arenaSpans, Weave.arenaSpans, goalsFound, goalsFound, subgoals, h.meeting, h.index,
    h.grammar]

theorem numbering : other.numbering = weave.numbering := by
  funext spans
  rw [Weave.numbering, Weave.numbering, h.index]

theorem nodes : other.nodes = weave.nodes := by
  funext numbering spans
  rw [Weave.nodes, Weave.nodes, h.branches]

theorem candidates : other.candidates = weave.candidates := by
  funext numbering
  rw [Weave.candidates, Weave.candidates, h.meeting, h.grammar]

end Alike

/-- Charts filled in another order have weaves that are alike. -/
theorem alike_ofChart (g : Grammar κ) {chart other : Chart κ} (h : chart.Reordered other) :
    (Weave.ofChart g chart).Alike (Weave.ofChart g other) where
  grammar := rfl
  index := SpanIndex.ofSets_congr g h
  children := by
    funext pos symbol
    cases symbol with
    | terminal kind =>
      rw [Weave.children, Weave.children]
      exact if_congr (h.reads pos kind) rfl rfl
    | nonterminal name =>
      rw [Weave.children, Weave.children, Weave.meeting, Weave.meeting]
      exact congrArg (fun index => ((index.meeting g ⟨name, pos⟩).map Child.node))
        (SpanIndex.ofSets_congr g h)

end Weave

/-- **A forest does not depend on the order in which its chart was filled.** -/
theorem Forest.ofChart_reordered [DecidableEq κ] (g : Grammar κ) {chart other : Chart κ}
    (h : chart.Reordered other) : Forest.ofChart g other = Forest.ofChart g chart := by
  have alike := Weave.alike_ofChart g h
  simp only [Forest.ofChart, alike.arenaSpans, alike.numbering, alike.nodes, alike.candidates,
    h.tokens]

/-- **Order of the readings.**  In the forest of a parse the branches of every node are in
lexicographic order, nodes being compared by their end and then by their production, and the roots
are in the order of their productions.  By default, therefore, a choice keeps at every node that it
comes to the branch whose first differing child ends earliest or, at the same end, was declared
first.  The order in which the chart was filled shows in none of this. -/
theorem order_of_parse [DecidableEq κ] {σ : Type v} {g : Grammar κ} {tokenizer : Tokenizer κ σ}
    {equals : String → κ → Bool} {state : σ} {f : Forest κ}
    (h : parse g tokenizer equals state = .ok f) :
    (∀ (id : NodeId) (node : Node), f.nodes[id]? = some node →
        node.branches.Pairwise (Child.Lex f.Before))
      ∧ f.roots.Pairwise f.RootBefore
      ∧ (∀ root < f.nodes.size, ∃ r, (f.choose .first root).resolution? = some r
          ∧ ∀ id ∈ r.nodes, r.branch? id = some 0
            ∧ ∃ node kept others, f.nodes[id]? = some node ∧ node.branches = kept :: others
                ∧ ∀ branch ∈ others, Child.Lex f.Before kept branch)
      ∧ ∀ other, (recognize g tokenizer equals state).chart.Reordered other →
          Forest.ofChart g other = f := by
  let chart := (recognize g tokenizer equals state).chart
  have sound : chart.Sound g := Chart.sound_recognize
  have saturated : chart.Saturated g := Chart.saturated_recognize
  have packs : f.Packs chart.Reads := Forest.packs_parse h
  obtain rfl : f = .ofChart g chart := (parse_eq_ok_iff.1 h).2
  have ordered : ∀ (id : NodeId) (node : Node), (Forest.ofChart g chart).nodes[id]? = some node →
      node.branches.Pairwise (Child.Lex (Forest.ofChart g chart).Before) :=
    fun _ _ => Forest.pairwise_branches_ofChart sound saturated
  refine ⟨ordered, Forest.pairwise_roots_ofChart sound saturated, fun root bound => ?_,
    fun other reordered => Forest.ofChart_reordered g reordered⟩
  obtain ⟨r, reached, first⟩ := packs.exists_first bound
  refine ⟨r, reached, fun id mem => ?_⟩
  obtain ⟨pick, node, kept, others, place, branches⟩ := first id mem
  have rows := ordered id node place
  rw [branches] at rows
  exact ⟨pick, node, kept, others, place, branches, (List.pairwise_cons.1 rows).1⟩

/-- Every set of a chart may be turned around. -/
theorem Chart.reordered_reverse (chart : Chart κ) : chart.Reordered
    { chart with sets := chart.sets.map fun set => ⟨set.items.reverse⟩ } where
  size_sets := Array.size_map ..
  items := by
    intro pos
    by_cases bound : pos < chart.sets.size
    · simp [itemsAt, Array.getD, bound, ItemSet.toList, List.reverse_perm]
    · simp [itemsAt, Array.getD, bound]
  tokens := rfl
  reads := fun _ _ => Iff.rfl

/-- The two derivations of the empty text are in their order below its root, also if the sets of the
chart are turned around. -/
theorem order_of_parse_twofold :
    ∃ f, parse twofold (.ofList String) (· == ·) [] = .ok f
      ∧ (∃ root ∈ f.roots, ∃ node, f.nodes[root]? = some node
          ∧ node.branches.Pairwise (Child.Lex f.Before))
      ∧ f = .ofChart twofold
          { (recognize twofold (.ofList String) (· == ·) []).chart with
            sets := (recognize twofold (.ofList String) (· == ·) []).chart.sets.map
              fun set => ⟨set.items.reverse⟩ } := by
  have run : (recognize twofold (.ofList String) (· == ·) []).error? = none
      ∧ (recognize twofold (.ofList String) (· == ·) []).chart.tokens.size = 0 := by decide +kernel
  have ok := parse_eq_ok_iff.2 ⟨run.1, rfl⟩
  obtain ⟨root, mem, bound, -⟩ := exists_root_twofold (Forest.packs_parse ok) rfl run.2
  have place := Array.getElem?_eq_getElem bound
  obtain ⟨branches, -, -, reordered⟩ := order_of_parse ok
  exact ⟨_, ok, ⟨root, mem, _, place, branches root _ place⟩,
    (reordered _ (Chart.reordered_reverse _)).symm⟩

end Earley
