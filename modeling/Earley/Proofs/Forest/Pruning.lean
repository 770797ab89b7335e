import Earley.Proofs.Forest.Cardinality
import Earley.Proofs.Forest.Unfolding

/-!
# Proofs/Forest/Pruning — what is pruned from the forest of a parse

The extraction makes a node of every span that it comes upon, and prunes the nodes without a finite
derivation in the end.  But a span is come upon only where its name may begin, and it was read to
its end there.  So all its threads are branches (`Weave.forall₂_branches_node`), one of them at
least runs along finite derivations, and pruning leaves everything as it is.
-/

namespace Earley

universe u v

/-- Where every element has a value, none is left out. -/
theorem forall₂_filterMap {α β : Type} {f : α → Option β} {R : α → β → Prop} {xs : List α}
    (h : ∀ x ∈ xs, ∃ y, f x = some y ∧ R x y) : List.Forall₂ R xs (xs.filterMap f) := by
  induction xs with
  | nil => exact .nil
  | cons x xs ih =>
    obtain ⟨y, value, related⟩ := h x List.mem_cons_self
    rw [List.filterMap_cons_some value]
    exact .cons related (ih fun other mem => h other (List.mem_cons_of_mem x mem))

variable {κ : Type u} [DecidableEq κ] {weave : Weave κ} {span : Span} {id : NodeId}

namespace Weave

/-- **A node has all threads of its span** as branches, in their order. -/
theorem forall₂_branches_node (wf : weave.index.WellFormed) (mem : span ∈ weave.arenaSpans) :
    List.Forall₂ (List.Forall₂ (Child.Numbered weave.arenaSpans)) (weave.branches span)
      (weave.node span).branches := by
  refine forall₂_filterMap fun row memRow => ?_
  rw [branches_eq_threads] at memRow
  have thread := (mem_threads_iff wf).1 memRow
  obtain ⟨branch, numbered⟩ := exists_numbered fun child memChild =>
    mem_arenaSpans_of_thread wf mem thread memChild
  have complete := (forall₂_mapOption_iff wf (listed_of_thread wf thread)).2 numbered
  exact ⟨branch, mapM_eq_some_iff.2 complete, numbered⟩

/-- **A created node is viable**, is marked, and has its place as its new number. -/
theorem Exact.kept {stands : Nat → κ → Prop} (h : weave.Exact stands)
    (bound : id < weave.created.size) :
    Arena.Viable (weave.created.map Node.branches) id
      ∧ (Arena.viable (weave.created.map Node.branches)).getD id false = true
      ∧ (ranks (Arena.viable (weave.created.map Node.branches))).getD id none = some id := by
  have isMarked : (Arena.viable (weave.created.map Node.branches)).getD id false = true := by
    rw [h.viable_created]
    simp [Array.getD, bound]
  refine ⟨Arena.getD_viable_iff.1 isMarked, isMarked, ?_⟩
  rw [h.viable_created]
  exact getD_ranks_replicate bound

end Weave

/-- **Pruning drops nothing from the forest of a parse.**  Every node that was created is viable, is
marked so and keeps its number, so the nodes of the forest are those created, in their order.  There
is one for each span come upon, with all threads of the span as its branches, and it has a finite
derivation. -/
theorem nothing_pruned_of_parse {σ : Type v} {g : Grammar κ} {tokenizer : Tokenizer κ σ}
    {equals : String → κ → Bool} {state : σ} {f : Forest κ}
    (h : parse g tokenizer equals state = .ok f) :
    let chart := (recognize g tokenizer equals state).chart
    let weave := Weave.ofChart g chart
    let marked := Arena.viable (weave.created.map Node.branches)
    (∀ id < weave.created.size, Arena.Viable (weave.created.map Node.branches) id
        ∧ marked.getD id false = true ∧ (ranks marked).getD id none = some id)
      ∧ f.nodes = weave.created
      ∧ f.nodes.size = weave.arenaSpans.length
      ∧ (∀ (id : NodeId) span, weave.arenaSpans[id]? = some span →
          ∃ node, f.nodes[id]? = some node ∧ node.span = span
            ∧ List.Forall₂ (List.Forall₂ (Child.Numbered weave.arenaSpans))
                (weave.branches span) node.branches)
      ∧ ∀ id < f.nodes.size, ∃ unfolding tree, f.Unfolds [.node id] [unfolding] [tree]
          ∧ tree ∈ f.treesBelow chart.Reads id := by
  intro chart weave marked
  have packs : f.Packs chart.Reads := Forest.packs_parse h
  have sound : chart.Sound g := Chart.sound_recognize
  have saturated : chart.Saturated g := Chart.saturated_recognize
  have woven : weave.Exact chart.Reads := Weave.exact_ofChart sound saturated
  have same : f.nodes = weave.created := by
    rw [(parse_eq_ok_iff.1 h).2]
    exact Forest.nodes_ofChart sound saturated
  refine ⟨fun id bound => woven.kept bound, same, ?_, fun id span place => ?_, fun id bound => ?_⟩
  · rw [same, Weave.size_created]
  · refine ⟨weave.node span, ?_, rfl,
      Weave.forall₂_branches_node woven.wf (List.mem_of_getElem? place)⟩
    rw [same, Weave.getElem?_created, place]
    rfl
  · obtain ⟨tree, below⟩ := packs.nonempty_treesBelow (Array.getElem?_eq_getElem bound)
    obtain ⟨unfolding, unfolds⟩ := packs.exists_unfolds_iff.2 below
    exact ⟨unfolding, tree, unfolds, below⟩

/-- Over one token `S` derives itself without end; yet every node has a finite derivation. -/
theorem nothing_pruned_of_parse_looping :
    ∃ f, parse looping (.ofList String) (· == ·) [⟨"a", "a", 0, 1⟩] = .ok f
      ∧ 0 < f.nodes.size
      ∧ ∀ id < f.nodes.size, ∃ unfolding tree, f.Unfolds [.node id] [unfolding] [tree] := by
  have run : (recognize looping (.ofList String) (· == ·) [⟨"a", "a", 0, 1⟩]).error? = none
      ∧ (recognize looping (.ofList String) (· == ·) [⟨"a", "a", 0, 1⟩]).chart.tokens.size = 1
      ∧ "a" ∈ (recognize looping (.ofList String) (· == ·)
          [⟨"a", "a", 0, 1⟩]).chart.accepted.getD 0 [] := by decide +kernel
  obtain ⟨done, size, reads⟩ := run
  have ok := parse_eq_ok_iff.2 ⟨done, rfl⟩
  obtain ⟨-, -, -, -, finite⟩ := nothing_pruned_of_parse ok
  obtain ⟨root, -, _, place, -⟩ := (Forest.packs_parse ok).exists_root (.loops 0) (by
    change Derivation looping _ [.nonterminal "S"] _ 0 (Chart.tokens _).size
    rw [size]
    exact .singleton_node (by decide) (.leaf reads (.nil 1)))
  have present : root < Array.size _ := (Array.getElem?_eq_some_iff.1 place).1
  refine ⟨_, ok, Nat.zero_lt_of_lt present, fun id bound => ?_⟩
  obtain ⟨unfolding, tree, unfolds, -⟩ := finite id bound
  exact ⟨unfolding, tree, unfolds⟩

end Earley
