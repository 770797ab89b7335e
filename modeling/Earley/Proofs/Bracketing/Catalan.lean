import Earley.Proofs.Bracketing
import Earley.Proofs.Words
import Earley.Regex.Engine
import Mathlib.Algebra.BigOperators.Intervals

/-!
# Proofs/Bracketing/Catalan — the forest of a chain of atoms

A span of the chain that is derived is a stretch of it, and every stretch is derived, in Catalan
many ways.  The arena has a node for each (`Chain.hasNode_iff`), so that its size is the number of
atoms and of pairs of atoms (`Chain.size_nodes`).  A single root stands for the whole
(`Chain.exists_root`).
-/

namespace Earley

universe u

variable {κ : Type u} {stands : Nat → κ → Prop} {name : String} {separators : List κ} {atom : κ}
  {span : Span} {gap i j l m count : Nat}

/-! ## Stretches -/

/-- **The stretch** of a chain from an atom on with as many more: an atom alone is read by the
production of atoms, a longer stretch by the one that doubles. -/
def stretch (gap i m : Nat) : Span :=
  ⟨atomPlace gap i, atomPlace gap (i + m) + 1, if m = 0 then 1 else 0⟩

theorem stretch_inj : stretch gap i m = stretch gap j l ↔ i = j ∧ m = l := by
  constructor
  · intro same
    obtain ⟨start, stop, -⟩ := Span.mk.inj same
    obtain rfl := atomPlace_inj.1 start
    exact ⟨rfl, Nat.add_left_cancel (atomPlace_inj.1 (Nat.succ.inj stop))⟩
  · rintro ⟨rfl, rfl⟩
    rfl

theorem exists_bracketing_eq_node (shape : BinaryTree Unit) : ∃ children,
    bracketing gap shape i = .node (if shape.numNodes = 0 then 1 else 0) children := by
  cases shape with
  | nil => exact ⟨_, rfl⟩
  | node => exact ⟨_, rfl⟩

/-- The stretches of a chain. -/
def stretches (gap count : Nat) : Finset Span :=
  ((Finset.range count).sigma fun i => Finset.range (count - i)).image fun place =>
    stretch gap place.1 place.2

theorem mem_stretches :
    span ∈ stretches gap count ↔ ∃ i m, i + m < count ∧ span = stretch gap i m := by
  simp only [stretches, Finset.mem_image, Finset.mem_sigma, Finset.mem_range, Sigma.exists]
  constructor
  · rintro ⟨i, m, ⟨begins, bound⟩, rfl⟩
    exact ⟨i, m, by omega, rfl⟩
  · rintro ⟨i, m, bound, rfl⟩
    exact ⟨i, m, ⟨by omega, by omega⟩, rfl⟩

/-- **There is a stretch for each atom and one for each pair of atoms.** -/
theorem card_stretches : (stretches gap count).card = count + count * (count - 1) / 2 := by
  have injective :
      Function.Injective fun place : (_ : Nat) × Nat => stretch gap place.1 place.2 := by
    rintro ⟨i, m⟩ ⟨j, l⟩ same
    obtain ⟨rfl, rfl⟩ := stretch_inj.1 same
    rfl
  calc (stretches gap count).card
    _ = ∑ i ∈ Finset.range count, (count - i) := by
      rw [stretches, Finset.card_image_of_injective _ injective, Finset.card_sigma]
      simp only [Finset.card_range]
    _ = ∑ i ∈ Finset.range count, (count - 1 - i + 1) := Finset.sum_congr rfl fun i mem => by
      have := Finset.mem_range.1 mem
      omega
    _ = ∑ i ∈ Finset.range count, (i + 1) := Finset.sum_range_reflect (· + 1) count
    _ = count + count * (count - 1) / 2 := by
      rw [Finset.sum_add_distrib, Finset.sum_range_id, Finset.sum_const, Finset.card_range,
        smul_eq_mul, mul_one, add_comm]

theorem production_stretch_mem : (stretch gap i m).production
    ∈ (doubling name separators atom).productionsOf name := by
  rw [Doubling.mem_productionsOf_iff, stretch]
  split
  · exact .inr rfl
  · exact .inl rfl

namespace Chain

variable (chain : Chain stands separators atom count)

include chain

/-- What the name derives is a stretch. -/
theorem exists_stretch (rule : span.production ∈ (doubling name separators atom).productionsOf name)
    (read : Derives (doubling name separators atom) stands
      ((doubling name separators atom).symbols span.production) span.start span.stop) :
    ∃ i m, i + m < count ∧ span = stretch separators.length i m := by
  obtain ⟨start, stop, production⟩ := span
  obtain ⟨_, inner⟩ := derives_iff_exists_derivation.1 read
  obtain ⟨shape, i, bound, rfl, rfl, same⟩ :=
    chain.exists_bracketing (.singleton_node rule inner)
  obtain ⟨_, top⟩ := exists_bracketing_eq_node shape
  obtain ⟨rfl, -⟩ := Tree.node.inj (same.trans top)
  exact ⟨i, shape.numNodes, bound, rfl⟩

/-- **The trees of a stretch** are the bracketings of its atoms. -/
theorem mem_trees_stretch_iff {tree : Tree} (bound : i + m < count) :
    tree ∈ (stretch separators.length i m).trees (doubling name separators atom) stands
      ↔ ∃ shape : BinaryTree Unit, shape.numNodes = m
          ∧ bracketing separators.length shape i = tree := by
  constructor
  · rintro ⟨children, rfl, inner⟩
    exact (chain.derivation_iff bound).1 (.singleton_node production_stretch_mem inner)
  · rintro ⟨shape, rfl, rfl⟩
    obtain ⟨_, -, children, same, inner⟩ :=
      derivation_rule_iff.1 (chain.derivation_bracketing bound)
    obtain ⟨_, top⟩ := exists_bracketing_eq_node shape
    obtain ⟨rfl, -⟩ := Tree.node.inj (same.symm.trans top)
    exact ⟨children, same, inner⟩

/-- **Every stretch is derived.** -/
theorem derives_stretch (bound : i + m < count) : Derives (doubling name separators atom) stands
    ((doubling name separators atom).symbols (stretch separators.length i m).production)
    (stretch separators.length i m).start (stretch separators.length i m).stop := by
  obtain ⟨_, -, inner⟩ :=
    (chain.mem_trees_stretch_iff bound).2 ⟨rightComb m, numNodes_rightComb, rfl⟩
  exact inner.derives

theorem derivation_rightComb (bound : i + m < count) :
    Derivation (doubling name separators atom) stands [.nonterminal name]
      [bracketing separators.length (rightComb m) i] (atomPlace separators.length i)
      (atomPlace separators.length (i + m) + 1) :=
  (chain.derivation_iff bound).2 ⟨rightComb m, numNodes_rightComb, rfl⟩

/-- Before every atom but the first stand an operand and separators. -/
theorem derives_before (bound : i + 1 < count) : Derives (doubling name separators atom) stands
    (.nonterminal name :: separators.map .terminal) 0 (atomPlace separators.length (i + 1)) := by
  have first : Derivation (doubling name separators atom) stands [.nonterminal name] _ _ _ :=
    chain.derivation_rightComb (show 0 + i < count by omega)
  rw [atomPlace_zero, Nat.zero_add] at first
  rw [atomPlace_succ]
  exact (derivation_nonterminal_iff.2 ⟨_, _, _, rfl, first,
    derivation_terminals_iff.2 ⟨rfl, rfl, chain.separated i bound⟩⟩).derives

end Chain

/-! ## The arena of a chain -/

section Chart

variable [DecidableEq κ] {chart : Chart κ}
  (sound : chart.Sound (doubling name separators atom))
  (saturated : chart.Saturated (doubling name separators atom))

include sound saturated

/-- **The nodes of a chain are its stretches**, also those that are no operand of the whole. -/
theorem Chain.hasNode_iff (chain : Chain chart.Reads separators atom count) :
    (Forest.ofChart (doubling name separators atom) chart).HasNode span
      ↔ ∃ i m, i + m < count ∧ span = stretch separators.length i m := by
  constructor
  · intro node
    have derived := node.derived sound saturated
    exact chain.exists_stretch (Doubling.mem_productionsOf_of_lt derived.production_lt) derived.read
  · rintro ⟨i, m, bound, rfl⟩
    cases i with
    | zero =>
      exact Forest.hasNode_of_entry sound saturated production_stretch_mem atomPlace_zero
        (chain.derives_stretch bound)
    | succ i =>
      -- The stretch is the second operand of all that goes as far from the beginning on.
      have whole : 0 + (i + 1 + m) < count := by omega
      have front : Derives (doubling name separators atom) chart.Reads
          (.nonterminal name :: separators.map .terminal) 0 (atomPlace separators.length (i + 1)) :=
        chain.derives_before (by omega)
      have node := Forest.hasNode_of_entry sound saturated production_stretch_mem atomPlace_zero
        (chain.derives_stretch whole)
      have begins : (stretch separators.length 0 (i + 1 + m)).start = 0 := atomPlace_zero
      have double : (stretch separators.length 0 (i + 1 + m)).production = 0 := if_neg (by omega)
      have split : (doubling name separators atom).symbols 0
          = (.nonterminal name :: separators.map .terminal) ++ .nonterminal name :: [] := rfl
      have same : (stretch separators.length 0 (i + 1 + m)).stop
          = (stretch separators.length (i + 1) m).stop := by rw [stretch, stretch, Nat.zero_add]
      refine node.of_part sound saturated (double ▸ split) ?_ production_stretch_mem
        (chain.derives_stretch bound) ?_
      · rw [begins]
        exact front
      · rw [same]
        exact .nil _

/-- **There are as many nodes as stretches.** -/
theorem Chain.size_nodes (chain : Chain chart.Reads separators atom count) :
    (Forest.ofChart (doubling name separators atom) chart).nodes.size
      = count + count * (count - 1) / 2 :=
  (Forest.size_nodes_eq_card sound saturated fun _ =>
    (chain.hasNode_iff sound saturated).trans mem_stretches.symm).trans card_stretches

/-- **A single root stands for the whole chain**, with Catalan many trees below it. -/
theorem Chain.exists_root (chain : Chain chart.Reads separators atom (m + 1))
    (size : chart.tokens.size = atomPlace separators.length m + 1) :
    let f := Forest.ofChart (doubling name separators atom) chart
    ∃ root node, f.roots = [root] ∧ f.nodes[root]? = some node
      ∧ node.span = stretch separators.length 0 m
      ∧ (f.treesBelow chart.Reads root).encard = catalan m := by
  intro f
  have packs : f.Packs chart.Reads := Forest.packs_ofChart sound saturated
  have bound : 0 + m < m + 1 := by omega
  have ends : f.tokens.size = atomPlace separators.length (0 + m) + 1 := by
    rw [Nat.zero_add]
    exact size
  have whole : ∀ tree, Derivation f.grammar chart.Reads [.nonterminal f.grammar.entry] [tree] 0
      f.tokens.size ↔ Derivation (doubling name separators atom) chart.Reads [.nonterminal name]
        [tree] (atomPlace separators.length 0) (atomPlace separators.length (0 + m) + 1) := by
    intro tree
    rw [ends, atomPlace_zero]
    rfl
  obtain ⟨root, node, roots, place, span, trees⟩ := packs.exists_root_of_production
    ((whole _).2 (chain.derivation_rightComb bound)) fun tree derivation => by
      obtain ⟨shape, nodes, rfl⟩ := (chain.derivation_iff bound).1 ((whole tree).1 derivation)
      exact nodes ▸ exists_bracketing_eq_node shape
  refine ⟨root, node, roots, place, ?_, ?_⟩
  · rw [span, stretch, atomPlace_zero, ends]
  · simp only [trees, whole]
    exact chain.encard_trees bound

end Chart

/-- **A text of words that are a chain** is parsed as the chain. -/
theorem exists_chart_of_chained {E : Engine} {separators : List (Pattern E)} {atom : Pattern E}
    {text : String} {words : List (Word E)}
    (laid : Laid (atom :: separators) words text.toList)
    (chained : ∀ tokens : Array (Token (Pattern E)), tokens.toList.map wordOf = words →
      Chain (KindAt tokens) separators atom (m + 1)
        ∧ tokens.size = atomPlace separators.length m + 1) :
    ∃ chart, (doubling name separators atom).parse text
        = .ok (.ofChart (doubling name separators atom) chart)
      ∧ chart.Sound (doubling name separators atom)
      ∧ chart.Saturated (doubling name separators atom)
      ∧ chart.Reads = KindAt chart.tokens ∧ chart.tokens.toList.map wordOf = words := by
  refine exists_chart_of_laid (fun _ _ => Doubling.mem_of_mem_symbols) laid fun tokens spelled => ?_
  obtain ⟨chain, size⟩ := chained tokens spelled
  have whole : Derivation (doubling name separators atom) (KindAt tokens) [.nonterminal name] _ _
      _ := chain.derivation_rightComb (show 0 + m < m + 1 by omega)
  rw [atomPlace_zero, Nat.zero_add, ← size] at whole
  exact whole.derives

/-! ## Rows of one letter -/

/-- **A letter or itself twice.** -/
def pairing : Grammar (Pattern .standard) :=
  .ofList "S"
    [⟨"S", [.nonterminal "S", .nonterminal "S"]⟩, ⟨"S", [.terminal (.literal "b")]⟩]

/-- The word that is the letter. -/
def letter : Word .standard := ⟨.literal "b", "b"⟩

theorem clear_letter {rest : List Char} : letter.Clear [.literal "b"] rest where
  present := by decide
  first _ same := Option.some.inj same ▸ (by decide)
  own := Pattern.matchLength?_literal.2 ⟨rest, rfl, rfl⟩
  alone := fun _ mem _ _ => List.mem_singleton.1 mem

theorem chain_letters {n : Nat} {tokens : Array (Token (Pattern .standard))}
    (spelled : tokens.toList.map wordOf = List.replicate n letter) :
    Chain (KindAt tokens) [] (.literal "b") n where
  atom_iff pos := by
    simp only [kindAt_iff_of_spelled spelled, List.getElem?_replicate,
      Option.ite_none_right_eq_some]
    constructor
    · rintro ⟨_, ⟨bound, -⟩, -⟩
      exact ⟨pos, bound, (Nat.mul_one pos).symm⟩
    · rintro ⟨i, bound, rfl⟩
      exact ⟨letter, ⟨(Nat.mul_one i).trans_lt bound, rfl⟩, rfl⟩
  separated _ _ := trivial

/-- Without separators, the stretches are the spans of one letter and those of more letters. -/
theorem exists_stretch_zero_iff {n : Nat} : (∃ i m, i + m < n ∧ span = stretch 0 i m)
    ↔ span.stop ≤ n ∧ (span.production = 0 ∧ span.start + 2 ≤ span.stop
      ∨ span.production = 1 ∧ span.start + 1 = span.stop) := by
  obtain ⟨start, stop, production⟩ := span
  have place (i : Nat) : atomPlace 0 i = i := Nat.mul_one i
  simp only [stretch, place, Span.mk.injEq]
  constructor
  · rintro ⟨i, m, bound, rfl, rfl, rfl⟩
    cases m with
    | zero => exact ⟨bound, .inr ⟨rfl, rfl⟩⟩
    | succ m => exact ⟨bound, .inl ⟨rfl, by omega⟩⟩
  · rintro ⟨bound, ⟨rfl, more⟩ | ⟨rfl, rfl⟩⟩
    · exact ⟨start, stop - start - 1, by omega, rfl, by omega, (if_neg (by omega)).symm⟩
    · exact ⟨start, 0, bound, rfl, rfl, rfl⟩

theorem spaced_letters {n : Nat} : Spaced (List.replicate n letter) (List.replicate n 'b') := by
  induction n with
  | zero => exact .nil (List.forall_mem_nil _)
  | succ n ih => exact .cons (List.forall_mem_nil _) ih

/-- **Bracketings are Catalan.**  A row of letters has a single root and a node for each production
and span: for each letter, and for each stretch of more than one.  The readings of the root are as
many as there are binary trees with a leaf for each letter, and they are counted exactly if they are
fewer than 2⁶⁴. -/
theorem bracketings_are_catalan {n : Nat} (present : 1 ≤ n) {text : String}
    (spaced : Spaced (List.replicate n letter) text.toList) :
    ∃ f root, pairing.parse text = .ok f ∧ f.roots = [root]
      ∧ f.nodes.size = n + n * (n - 1) / 2
      ∧ (∀ span, (∃! id : NodeId, f.nodes[id]?.map Node.span = some span)
          ↔ span.stop ≤ n ∧ (span.production = 0 ∧ span.start + 2 ≤ span.stop
            ∨ span.production = 1 ∧ span.start + 1 = span.stop))
      ∧ f.count root = if catalan (n - 1) < 2 ^ 64 then some (catalan (n - 1)) else none := by
  obtain ⟨m, rfl⟩ := Nat.exists_eq_add_of_le' present
  have laid := spaced.laid_of_clear fun word back suffix rest _ =>
    (List.eq_of_mem_replicate (suffix.subset List.mem_cons_self) : word = letter) ▸ clear_letter
  have chained : ∀ tokens : Array (Token (Pattern .standard)),
      tokens.toList.map wordOf = List.replicate (m + 1) letter →
        Chain (KindAt tokens) [] (.literal "b") (m + 1) ∧ tokens.size = atomPlace 0 m + 1 := by
    intro tokens spelled
    have size := size_of_spelled spelled
    rw [List.length_replicate] at size
    exact ⟨chain_letters spelled, size.trans (congrArg (· + 1) (Nat.mul_one m).symm)⟩
  obtain ⟨chart, parsed, sound, saturated, reads, spelled⟩ := exists_chart_of_chained laid chained
  obtain ⟨chain, size⟩ := chained chart.tokens spelled
  rw [← reads] at chain
  obtain ⟨root, node, roots, place, -, trees⟩ := chain.exists_root sound saturated size
  refine ⟨_, root, parsed, roots, chain.size_nodes sound saturated, fun span => ?_, ?_⟩
  · exact (Forest.hasNode_iff_existsUnique sound saturated).symm.trans
      ((chain.hasNode_iff sound saturated).trans exists_stretch_zero_iff)
  · exact (Forest.packs_ofChart sound saturated).count_eq_checkedCount place trees

/-- **The count gives up where the number no longer fits**: at 38 letters, with 37 it is still
there. -/
theorem bracketings_are_catalan_at_limit :
    (∃ f root, pairing.parse (String.ofList (List.replicate 37 'b')) = .ok f ∧ f.roots = [root]
        ∧ f.nodes.size = 703 ∧ f.count root = some 11959798385860453492)
      ∧ ∃ f root, pairing.parse (String.ofList (List.replicate 38 'b')) = .ok f ∧ f.roots = [root]
        ∧ f.nodes.size = 741 ∧ f.count root = none := by
  have spaced (n : Nat) :
      Spaced (List.replicate n letter) (String.ofList (List.replicate n 'b')).toList := by
    rw [String.toList_ofList]
    exact spaced_letters
  have last : catalan 36 = 11959798385860453492 := by
    rw [catalan_eq_centralBinom_div]
    decide +kernel
  have next : ¬ catalan 37 < 2 ^ 64 := by
    rw [catalan_eq_centralBinom_div]
    decide +kernel
  obtain ⟨f, root, parsed, roots, size, -, count⟩ :=
    bracketings_are_catalan (by decide) (spaced 37)
  obtain ⟨f', root', parsed', roots', size', -, count'⟩ :=
    bracketings_are_catalan (by decide) (spaced 38)
  refine ⟨⟨f, root, parsed, roots, size, ?_⟩, f', root', parsed', roots', size', ?_⟩
  · rw [count, last]
    rfl
  · rw [count', if_neg next]

end Earley
