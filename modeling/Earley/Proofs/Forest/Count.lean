import Earley.Forest.Count
import Earley.Proofs.Forest.Cardinality

/-!
# Proofs/Forest/Count — the count of a node is the number of its trees

An answer is right (`Tally`) if it gives the number of trees, or stops for a reason that there is:
at a cycle where they are infinitely many, at a count that is too large where they are too many.
Counts of children make right counts of branches, those of branches a right count of the node; what
is kept for later is right as well (`Right`).  A partial product or sum is no larger than the whole,
as no factor is zero, and a node met below itself has infinitely many trees.  So a count is missing
only where the number of trees is infinite or too large.

The reasons are no more than right: a product can be too large before the descent comes to a cycle,
and then it stops there though the trees are infinitely many.
-/

namespace Earley

universe u v

variable {κ : Type u}

/-- **A reason to stop is right** where there are `card` trees. -/
def Uncounted.Explains (card : ℕ∞) : Uncounted → Prop
  | cycle => card = ⊤
  | overflow => countLimit ≤ card
  | missing => False

namespace Uncounted

variable {why : Uncounted} {card card' : ℕ∞}

/-- A reason not to count some trees is one not to count more of them. -/
theorem Explains.mono (h : why.Explains card) (le : card ≤ card') : why.Explains card' := by
  cases why with
  | cycle => exact top_le_iff.1 (h.ge.trans le)
  | overflow => exact h.trans le
  | missing => exact h

theorem Explains.countLimit_le (h : why.Explains card) : countLimit ≤ card := by
  cases why with
  | cycle => exact h.ge.trans' le_top
  | overflow => exact h
  | missing => exact h.elim

end Uncounted

namespace Forest

variable {f : Forest κ} {stands : Nat → κ → Prop} {path : List NodeId} {known : Counts}
  {id below : NodeId}

/-! ## Right answers -/

/-- **The counts kept are right.** -/
def Right (f : Forest κ) (stands : Nat → κ → Prop) (known : Counts) : Prop :=
  ∀ id count, known.getD id none = some count →
    (f.treesBelow stands id).encard = count ∧ count < countLimit

/-- **The answer is right** where there are `card` trees: their number, or a reason to stop. -/
def Tally (f : Forest κ) (stands : Nat → κ → Prop) (card : ℕ∞) :
    Except Uncounted (Nat × Counts) → Prop
  | .ok (count, known) => card = count ∧ count < countLimit ∧ f.Right stands known
  | .error why => why.Explains card

/-- Finitely many trees that are too many are counted up to a number that is too large. -/
theorem Tally.eq_overflow {card : ℕ∞} {answer : Except Uncounted (Nat × Counts)}
    (tally : f.Tally stands card answer) (finite : card ≠ ⊤) (large : countLimit ≤ card) :
    answer = .error .overflow := by
  cases answer with
  | ok pair =>
    obtain ⟨rfl, small, -⟩ := tally
    exact absurd small (Nat.not_lt.2 (by exact_mod_cast large))
  | error why =>
    cases why with
    | cycle => exact absurd tally finite
    | overflow => rfl
    | missing => exact tally.elim

theorem right_replicate {size : Nat} : f.Right stands (Array.replicate size none) := by
  intro id count kept
  simp [Array.getD] at kept

theorem Right.set (right : f.Right stands known) {count : Nat}
    (card : (f.treesBelow stands id).encard = count) (small : count < countLimit) :
    f.Right stands (known.setIfInBounds id (some count)) := by
  intro other count' kept
  by_cases same : id = other
  · subst same
    by_cases bound : id < known.size
    · simp [Array.getD, bound] at kept
      exact kept ▸ ⟨card, small⟩
    · simp [Array.getD, bound] at kept
  · refine right other count' ?_
    simpa [Array.getD_eq_getD_getElem?, Array.getElem?_setIfInBounds, same] using kept

theorem checkedCount_of_lt {count : Nat} (h : count < countLimit) :
    checkedCount count = some count := if_pos h

theorem checkedCount_of_le {count : Nat} (h : countLimit ≤ count) : checkedCount count = none :=
  if_neg (Nat.not_lt.2 h)

/-! ## Children and branches -/

theorem one_le_prod_cardOf {children : Branch}
    (covered : ∀ child ∈ children, 1 ≤ f.cardOf stands child) :
    1 ≤ (children.map (f.cardOf stands)).prod := by
  induction children with
  | nil => exact le_refl 1
  | cons child children ih =>
    rw [List.map_cons, List.prod_cons]
    exact one_le_mul (covered child List.mem_cons_self)
      (ih fun other mem => covered other (List.mem_cons_of_mem child mem))

/-- **Right counts of children make a right product.** -/
theorem tally_countChildren {children : Branch} {product : Nat} (right : f.Right stands known)
    (positive : 1 ≤ product) (small : product < countLimit)
    (covered : ∀ child ∈ children, 1 ≤ f.cardOf stands child)
    (counted : ∀ id, .node id ∈ children → ∀ known, f.Right stands known →
      f.Tally stands (f.treesBelow stands id).encard (f.countNode path known id)) :
    f.Tally stands (product * (children.map (f.cardOf stands)).prod)
      (f.countChildren path known product children) := by
  induction children generalizing known product with
  | nil =>
    rw [countChildren]
    exact ⟨by simp, small, right⟩
  | cons child children ih =>
    have covered' : ∀ child ∈ children, 1 ≤ f.cardOf stands child :=
      fun other mem => covered other (List.mem_cons_of_mem child mem)
    have counted' := fun id (mem : .node id ∈ children) =>
      counted id (List.mem_cons_of_mem child mem)
    rw [List.map_cons, List.prod_cons]
    cases child with
    | token index =>
      rw [countChildren, cardOf_token, one_mul]
      exact ih right positive small covered' counted'
    | node id =>
      have first := counted id List.mem_cons_self known right
      have present := covered (.node id) List.mem_cons_self
      have others := one_le_prod_cardOf covered'
      rw [cardOf_node] at present ⊢
      rw [countChildren]
      cases answer : f.countNode path known id with
      | error why =>
        rw [answer] at first
        refine first.mono ?_
        calc (f.treesBelow stands id).encard
          _ ≤ (f.treesBelow stands id).encard * (children.map (f.cardOf stands)).prod :=
            le_mul_of_one_le_right zero_le others
          _ ≤ product * _ := le_mul_of_one_le_left zero_le (by exact_mod_cast positive)
      | ok pair =>
        obtain ⟨count, known'⟩ := pair
        rw [answer] at first
        obtain ⟨card, -, right'⟩ := first
        rw [card, ← mul_assoc, ← Nat.cast_mul]
        rcases Nat.lt_or_ge (product * count) countLimit with fits | large
        · have positive' : 1 ≤ count := by
            rw [card] at present
            exact_mod_cast present
          simp only [checkedCount_of_lt fits]
          exact ih right' (Nat.mul_pos positive positive') fits covered' counted'
        · simp only [checkedCount_of_le large]
          calc (countLimit : ℕ∞)
            _ ≤ (product * count : ℕ) := by exact_mod_cast large
            _ ≤ _ := le_mul_of_one_le_right zero_le others

/-- **Right counts of children make a right sum.** -/
theorem tally_countBranches {branches : List Branch} {total : Nat} (right : f.Right stands known)
    (small : total < countLimit)
    (covered : ∀ branch ∈ branches, ∀ child ∈ branch, 1 ≤ f.cardOf stands child)
    (counted : ∀ branch ∈ branches, ∀ id, .node id ∈ branch → ∀ known, f.Right stands known →
      f.Tally stands (f.treesBelow stands id).encard (f.countNode path known id)) :
    f.Tally stands (total + (branches.map fun branch => (branch.map (f.cardOf stands)).prod).sum)
      (f.countBranches path known total branches) := by
  induction branches generalizing known total with
  | nil =>
    rw [countBranches]
    exact ⟨by simp, small, right⟩
  | cons branch branches ih =>
    have first := tally_countChildren right (le_refl 1) (by decide)
      (covered branch List.mem_cons_self) (counted branch List.mem_cons_self)
    rw [Nat.cast_one, one_mul] at first
    rw [List.map_cons, List.sum_cons, countBranches]
    cases answer : f.countChildren path known 1 branch with
    | error why =>
      rw [answer] at first
      refine first.mono ?_
      calc (branch.map (f.cardOf stands)).prod
        _ ≤ (branch.map (f.cardOf stands)).prod + _ := le_self_add
        _ ≤ total + _ := le_add_self
    | ok pair =>
      obtain ⟨product, known'⟩ := pair
      rw [answer] at first
      obtain ⟨card, -, right'⟩ := first
      rw [card, ← add_assoc, ← Nat.cast_add]
      rcases Nat.lt_or_ge (total + product) countLimit with fits | large
      · simp only [checkedCount_of_lt fits]
        exact ih right' fits (fun branch' mem => covered branch' (List.mem_cons_of_mem branch mem))
          fun branch' mem => counted branch' (List.mem_cons_of_mem branch mem)
      · simp only [checkedCount_of_le large]
        calc (countLimit : ℕ∞)
          _ ≤ (total + product : ℕ) := by exact_mod_cast large
          _ ≤ _ := le_self_add

/-! ## Nodes -/

/-- **The count of a node is right**, below any nodes that have it below them.  The induction is on
the nodes off the path, as in the descent. -/
theorem Packs.tally_countNode (packs : f.Packs stands) {node : Node}
    (place : f.nodes[id]? = some node) (right : f.Right stands known)
    (above : ∀ ancestor ∈ path, Relation.TransGen f.Parent ancestor id) :
    f.Tally stands (f.treesBelow stands id).encard (f.countNode path known id) := by
  induction size : offPath f.nodes.size path using Nat.strongRecOn
    generalizing path known id node with
  | ind _ ih =>
    rw [countNode]
    cases kept : known.getD id none with
    | some count => exact ⟨(right id count kept).1, (right id count kept).2, right⟩
    | none =>
      obtain ⟨bound, atId⟩ := Array.getElem?_eq_some_iff.1 place
      by_cases on : id ∈ path
      · simp only [on, dite_true]
        exact (packs.infinite_of_cycle (above id on)).encard_eq
      · simp only [on, bound, dite_true, dite_false, atId]
        have packed := packs.node id node place
        have counted : ∀ branch ∈ node.branches, ∀ below, .node below ∈ branch → ∀ known,
            f.Right stands known → f.Tally stands (f.treesBelow stands below).encard
              (f.countNode (id :: path) known below) := by
          intro branch mem below memChild known right
          obtain ⟨node', place'⟩ := packed.exists_place mem memChild
          have parent : f.Parent id below := ⟨node, place, branch, mem, memChild⟩
          refine ih _ (size ▸ offPath_cons_lt bound on) place' right ?_ rfl
          intro ancestor memPath
          rcases List.mem_cons.1 memPath with rfl | memPath
          · exact .single parent
          · exact (above ancestor memPath).tail parent
        have sum := tally_countBranches right (show 0 < countLimit by decide)
          (fun branch mem child memChild => packed.one_le_cardOf mem memChild) counted
        rw [Nat.cast_zero, zero_add, ← packs.encard_treesBelow place] at sum
        cases answer : f.countBranches (id :: path) known 0 node.branches with
        | error why =>
          rw [answer] at sum
          exact sum
        | ok pair =>
          obtain ⟨total, known'⟩ := pair
          rw [answer] at sum
          obtain ⟨card, small, right'⟩ := sum
          exact ⟨card, small, right'.set card small⟩

/-- **The count from the node down is right**, and so is the reason where there is none. -/
theorem Packs.tally_counting (packs : f.Packs stands) {node : Node}
    (place : f.nodes[id]? = some node) :
    (∀ count, f.counting id = .ok count →
        (f.treesBelow stands id).encard = count ∧ count < countLimit)
      ∧ ∀ why, f.counting id = .error why → why.Explains (f.treesBelow stands id).encard := by
  have tally : f.Tally stands (f.treesBelow stands id).encard
      (f.countNode [] (Array.replicate f.nodes.size none) id) :=
    packs.tally_countNode place right_replicate fun _ mem => absurd mem List.not_mem_nil
  rw [counting]
  cases answer : f.countNode [] (Array.replicate f.nodes.size none) id with
  | error why =>
    rw [answer] at tally
    exact ⟨fun _ same => (nomatch same), fun _ same => Except.error.inj same ▸ tally⟩
  | ok pair =>
    rw [answer] at tally
    obtain ⟨card, small, -⟩ := tally
    exact ⟨fun count same => Except.ok.inj same ▸ ⟨card, small⟩, fun _ same => (nomatch same)⟩

theorem count_eq_some_iff {count : Nat} : f.count id = some count ↔ f.counting id = .ok count := by
  rw [Forest.count]
  cases f.counting id <;> simp [Except.toOption]

theorem count_eq_none_iff : f.count id = none ↔ ∃ why, f.counting id = .error why := by
  rw [Forest.count]
  cases f.counting id <;> simp [Except.toOption]

theorem Packs.tally_count (packs : f.Packs stands) {node : Node}
    (place : f.nodes[id]? = some node) :
    (∀ count, f.count id = some count →
        (f.treesBelow stands id).encard = count ∧ count < countLimit)
      ∧ (f.count id = none → countLimit ≤ (f.treesBelow stands id).encard) := by
  obtain ⟨tally, stopped⟩ := packs.tally_counting place
  refine ⟨fun count answer => tally count (count_eq_some_iff.1 answer), fun answer => ?_⟩
  obtain ⟨why, answer⟩ := count_eq_none_iff.1 answer
  exact (stopped why answer).countLimit_le

/-- **The count is the number of trees**, unless that is too large. -/
theorem Packs.count_eq_checkedCount (packs : f.Packs stands) {node : Node}
    (place : f.nodes[id]? = some node) {card : Nat}
    (trees : (f.treesBelow stands id).encard = card) : f.count id = checkedCount card := by
  obtain ⟨tally, missing⟩ := packs.tally_count place
  rw [trees] at tally missing
  cases answer : f.count id with
  | none => exact (if_neg (Nat.not_lt.2 (by exact_mod_cast missing answer))).symm
  | some count =>
    obtain ⟨same, small⟩ := tally count answer
    obtain rfl : card = count := by exact_mod_cast same
    exact (if_pos small).symm

/-! ## Descents that come back -/

/-- **A descent comes back**: below the nodes of `path` it goes from `id` from children to children
and comes to a node of its path again. -/
inductive Reenters (f : Forest κ) : List NodeId → NodeId → Prop
  | here {path : List NodeId} {id : NodeId} (on : id ∈ path) : Reenters f path id
  | down {path : List NodeId} {id below : NodeId} (off : id ∉ path) (parent : f.Parent id below)
      (rest : Reenters f (id :: path) below) : Reenters f path id

theorem Packs.infinite_of_reenters (packs : f.Packs stands) (h : f.Reenters path id)
    (above : ∀ ancestor ∈ path, Relation.TransGen f.Parent ancestor id) :
    (f.treesBelow stands id).Infinite := by
  induction h with
  | here on => exact packs.infinite_of_cycle (above _ on)
  | @down path id below _ parent _ ih =>
    refine packs.infinite_of_parent parent (ih fun ancestor mem => ?_)
    rcases List.mem_cons.1 mem with rfl | mem
    · exact .single parent
    · exact (above ancestor mem).tail parent

theorem prod_ne_top {cards : List ℕ∞} (h : ∀ card ∈ cards, card ≠ ⊤) : cards.prod ≠ ⊤ := by
  induction cards with
  | nil => simp
  | cons card cards ih =>
    rw [List.prod_cons]
    exact WithTop.mul_ne_top (h card List.mem_cons_self)
      (ih fun other mem => h other (List.mem_cons_of_mem card mem))

theorem sum_ne_top {cards : List ℕ∞} (h : ∀ card ∈ cards, card ≠ ⊤) : cards.sum ≠ ⊤ := by
  induction cards with
  | nil => simp
  | cons card cards ih =>
    rw [List.sum_cons]
    exact WithTop.add_ne_top.2 ⟨h card List.mem_cons_self,
      ih fun other mem => h other (List.mem_cons_of_mem card mem)⟩

/-- **Where no descent comes back there are finitely many trees.** -/
theorem Packs.encard_ne_top_of_not_reenters (packs : f.Packs stands) {node : Node}
    (place : f.nodes[id]? = some node) (h : ¬ f.Reenters path id) :
    (f.treesBelow stands id).encard ≠ ⊤ := by
  induction size : offPath f.nodes.size path using Nat.strongRecOn generalizing path id node with
  | ind _ ih =>
    have off : id ∉ path := fun on => h (.here on)
    have bound := (Array.getElem?_eq_some_iff.1 place).1
    rw [packs.encard_treesBelow place]
    refine sum_ne_top fun card mem => ?_
    obtain ⟨branch, memBranch, rfl⟩ := List.mem_map.1 mem
    refine prod_ne_top fun card mem => ?_
    obtain ⟨child, memChild, rfl⟩ := List.mem_map.1 mem
    cases child with
    | token index => simp
    | node below =>
      obtain ⟨node', place'⟩ := (packs.node id node place).exists_place memBranch memChild
      have parent : f.Parent id below := ⟨node, place, branch, memBranch, memChild⟩
      rw [cardOf_node]
      exact ih _ (size ▸ offPath_cons_lt bound off) place'
        (fun rest => h (.down off parent rest)) rfl

/-- **There are infinitely many trees below a node exactly if a descent from it comes back.** -/
theorem Packs.infinite_iff_reenters (packs : f.Packs stands) {node : Node}
    (place : f.nodes[id]? = some node) :
    (f.treesBelow stands id).Infinite ↔ f.Reenters [] id := by
  constructor
  · intro infinite
    by_contra never
    exact packs.encard_ne_top_of_not_reenters place never infinite.encard_eq
  · exact fun h => packs.infinite_of_reenters h fun _ mem => absurd mem List.not_mem_nil

end Forest

/-- **Exact counting.**  Below any node of the forest of a parse, the count is a number exactly if
the node has that many derivation trees and they are fewer than 2⁶⁴; it is missing exactly if there
are infinitely many or at least 2⁶⁴.  There are infinitely many exactly if a descent from the node
comes to a node that it is still below.  The descent of the count stops at such a node exactly if
there are infinitely many trees and no product or sum was too large before; and it is never without
a node to go to. -/
theorem count_of_parse [DecidableEq κ] {σ : Type v} {g : Grammar κ} {tokenizer : Tokenizer κ σ}
    {equals : String → κ → Bool} {state : σ} {f : Forest κ}
    (h : parse g tokenizer equals state = .ok f) {id : NodeId} (bound : id < f.nodes.size) :
    let trees := f.treesBelow (recognize g tokenizer equals state).chart.Reads id
    (∀ count, f.count id = some count ↔ trees.Finite ∧ trees.ncard = count ∧ count < 2 ^ 64)
      ∧ (f.count id = none ↔ trees.Infinite ∨ 2 ^ 64 ≤ trees.ncard)
      ∧ (trees.Infinite ↔ f.Reenters [] id)
      ∧ (f.counting id = .error .cycle
          ↔ trees.Infinite ∧ f.counting id ≠ .error .overflow)
      ∧ f.counting id ≠ .error .missing := by
  intro trees
  have packs : f.Packs (recognize g tokenizer equals state).chart.Reads := Forest.packs_parse h
  have place : f.nodes[id]? = some f.nodes[id] := Array.getElem?_eq_getElem bound
  obtain ⟨tally, missing⟩ := packs.tally_count place
  obtain ⟨counted, stopped⟩ := packs.tally_counting place
  have given : ∀ count, f.count id = some count →
      trees.Finite ∧ trees.ncard = count ∧ count < 2 ^ 64 := by
    intro count answer
    obtain ⟨card, small⟩ := tally count answer
    exact ⟨Set.finite_of_encard_eq_coe card, by rw [Set.ncard, card]; rfl, small⟩
  have large : f.count id = none → trees.Infinite ∨ 2 ^ 64 ≤ trees.ncard := by
    intro answer
    refine (Classical.em trees.Finite).symm.imp_right fun finite => ?_
    have le := missing answer
    rw [← finite.cast_ncard_eq] at le
    exact_mod_cast le
  refine ⟨fun count => ⟨given count, ?_⟩, ⟨large, ?_⟩, packs.infinite_iff_reenters place,
    ⟨fun answer => ⟨?_, ?_⟩, ?_⟩, fun answer => stopped _ answer⟩
  · rintro ⟨finite, card, small⟩
    cases answer : f.count id with
    | none =>
      rcases large answer with infinite | le
      · exact absurd finite infinite
      · omega
    | some count' => rw [← card, ← (given count' answer).2.1]
  · intro many
    cases answer : f.count id with
    | none => rfl
    | some count =>
      obtain ⟨finite, card, small⟩ := given count answer
      rcases many with infinite | le
      · exact absurd finite infinite
      · omega
  · exact Set.encard_eq_top_iff.1 (stopped _ answer)
  · rw [answer]
    exact fun same => nomatch Except.error.inj same
  · rintro ⟨infinite, noOverflow⟩
    cases answer : f.counting id with
    | ok count => exact absurd (Set.finite_of_encard_eq_coe (counted count answer).1) infinite
    | error why =>
      cases why with
      | cycle => rfl
      | overflow => exact absurd answer noOverflow
      | missing => exact (stopped _ answer).elim

/-- A name that stands for another one, which has two empty productions. -/
theorem derivation_pair_iff {g : Grammar κ} {stands : Nat → κ → Prop} {outer inner : String}
    {unit first second : ProdId} {pos : Nat} {tree : Tree} (outers : g.productionsOf outer = [unit])
    (symbols : g.symbols unit = [.nonterminal inner])
    (inners : g.productionsOf inner = [first, second]) (empty : g.symbols first = [])
    (empty' : g.symbols second = []) :
    Derivation g stands [.nonterminal outer] [tree] pos pos
      ↔ tree = .node unit [.node first []] ∨ tree = .node unit [.node second []] := by
  have below : ∀ trees, Derivation g stands [.nonterminal inner] trees pos pos
      ↔ trees = [.node first []] ∨ trees = [.node second []] := by
    intro trees
    constructor
    · intro h
      obtain ⟨tree, _, _, rfl, head, tail⟩ := derivation_nonterminal_iff.1 h
      obtain ⟨rfl, rfl⟩ := derivation_nil_iff.1 tail
      obtain ⟨id, rule, children, rfl, inside⟩ := derivation_rule_iff.1 head
      rw [inners, List.mem_pair] at rule
      rcases rule with rfl | rfl
      · rw [empty] at inside
        obtain ⟨rfl, -⟩ := derivation_nil_iff.1 inside
        exact .inl rfl
      · rw [empty'] at inside
        obtain ⟨rfl, -⟩ := derivation_nil_iff.1 inside
        exact .inr rfl
    · rintro (rfl | rfl)
      · exact .singleton_node (by simp [inners]) (empty ▸ .nil pos)
      · exact .singleton_node (by simp [inners]) (empty' ▸ .nil pos)
  rw [derivation_rule_iff, outers]
  simp only [List.mem_singleton, exists_eq_left, symbols, below, and_or_left, exists_or,
    exists_eq_right]

/-- A grammar in which the empty text has two derivations. -/
def twofold : Grammar String :=
  .ofList "S" [⟨"S", [.nonterminal "A"]⟩, ⟨"A", []⟩, ⟨"A", []⟩]

/-- The derivations of the empty text, whatever tokens follow. -/
theorem derivation_twofold_iff {stands : Nat → String → Prop} {tree : Tree} :
    Derivation twofold stands [.nonterminal "S"] [tree] 0 0
      ↔ tree = .node 0 [.node 1 []] ∨ tree = .node 0 [.node 2 []] :=
  derivation_pair_iff (by decide) rfl (by decide) rfl rfl

/-- Both lie below one root. -/
theorem exists_root_twofold {f : Forest String} {stands : Nat → String → Prop}
    (packs : f.Packs stands) (grammar : f.grammar = twofold) (empty : f.tokens.size = 0) :
    ∃ root ∈ f.roots, root < f.nodes.size
      ∧ f.treesBelow stands root = {.node 0 [.node 1 []], .node 0 [.node 2 []]} := by
  have whole : ∀ tree, Derivation f.grammar stands [.nonterminal f.grammar.entry] [tree] 0
      f.tokens.size ↔ tree = .node 0 [.node 1 []] ∨ tree = .node 0 [.node 2 []] := by
    intro tree
    rw [grammar, empty]
    exact derivation_twofold_iff
  obtain ⟨root, mem, node, place, _, same, _⟩ := packs.exists_root _ ((whole _).2 (.inl rfl))
  obtain ⟨node', place', -, start, stop⟩ := packs.root root mem
  obtain rfl := Option.some.inj (place.symm.trans place')
  refine ⟨root, mem, (Array.getElem?_eq_some_iff.1 place).1, ?_⟩
  ext tree
  refine ⟨fun below => (whole tree).1 (packs.exists_root_iff.1 ⟨root, mem, below⟩),
    fun either => ?_⟩
  obtain ⟨id, -, children, rfl, inner⟩ := ((whole tree).2 either).exists_node
  obtain rfl : node.production = id := by
    have first : 0 = node.production := (Tree.node.inj same).1
    rcases either with h | h
    · exact first.symm.trans (Tree.node.inj h).1.symm
    · exact first.symm.trans (Tree.node.inj h).1.symm
  refine ⟨node, place, children, rfl, ?_⟩
  change Derivation _ _ _ children node.start node.stop
  rw [start, stop]
  exact inner

/-- Both derivations are counted, and there are no others. -/
theorem count_of_parse_twofold :
    ∃ f, parse twofold (.ofList String) (· == ·) [] = .ok f
      ∧ ∃ root ∈ f.roots, f.count root = some 2 := by
  have run : (recognize twofold (.ofList String) (· == ·) []).error? = none
      ∧ (recognize twofold (.ofList String) (· == ·) []).chart.tokens.size = 0 := by decide +kernel
  have ok := parse_eq_ok_iff.2 ⟨run.1, rfl⟩
  obtain ⟨root, mem, bound, trees⟩ := exists_root_twofold (Forest.packs_parse ok) rfl run.2
  refine ⟨_, ok, root, mem, ((count_of_parse ok bound).1 2).2 ?_⟩
  rw [trees]
  exact ⟨Set.toFinite _, Set.ncard_pair (by simp), by decide⟩

/-! ## A count that is too large before a cycle -/

/-- **The first child is enough to stop a descent**: if its trees are finitely many but too many,
what follows is not looked at. -/
theorem Forest.Packs.counting_eq_overflow {f : Forest κ} {stands : Nat → κ → Prop}
    (packs : f.Packs stands) {id below : NodeId} {node : Node} {rest : Branch}
    {others : List Branch} (place : f.nodes[id]? = some node)
    (first : node.branches = (.node below :: rest) :: others)
    (finite : (f.treesBelow stands below).Finite)
    (large : countLimit ≤ (f.treesBelow stands below).encard) :
    f.counting id = .error .overflow := by
  have memBranch : .node below :: rest ∈ node.branches := first ▸ List.mem_cons_self
  have parent : f.Parent id below := ⟨node, place, _, memBranch, List.mem_cons_self⟩
  obtain ⟨node', place'⟩ := (packs.node id node place).exists_place memBranch List.mem_cons_self
  obtain ⟨bound, atId⟩ := Array.getElem?_eq_some_iff.1 place
  have unknown : f.Right stands (Array.replicate f.nodes.size none) := Forest.right_replicate
  have tally := packs.tally_countNode place' unknown
    fun ancestor mem => List.mem_singleton.1 mem ▸ .single parent
  have answer := tally.eq_overflow (Set.encard_ne_top_iff.2 finite) large
  have fresh : (Array.replicate f.nodes.size (none : Option Nat)).getD id none = none := by
    simp [Array.getD]
  rw [Forest.counting, Forest.countNode, fresh]
  simp only [List.not_mem_nil, bound, atId, first, dite_true, dite_false]
  rw [Forest.countBranches, Forest.countChildren, answer]
  rfl

/-- The number of ways to derive a name again and again, all over the same empty stretch. -/
theorem encard_derivation_replicate {g : Grammar κ} {stands : Nat → κ → Prop} {name : String}
    {pos : Nat} (times : Nat) :
    {trees | Derivation g stands (List.replicate times (.nonterminal name)) trees pos pos}.encard
      = {tree | Derivation g stands [.nonterminal name] [tree] pos pos}.encard ^ times := by
  induction times with
  | zero =>
    have single : {trees | Derivation g stands [] trees pos pos} = {[]} := by
      ext trees
      simp [derivation_nil_iff]
    rw [List.replicate_zero, single, Set.encard_singleton, pow_zero]
  | succ times ih =>
    have pairs : {trees | Derivation g stands
          (List.replicate (times + 1) (.nonterminal name)) trees pos pos}
        = (fun pair : Tree × List Tree => pair.1 :: pair.2) ''
          ({tree | Derivation g stands [.nonterminal name] [tree] pos pos} ×ˢ
            {trees | Derivation g stands (List.replicate times (.nonterminal name)) trees
              pos pos}) := by
      ext trees
      rw [List.replicate_succ]
      constructor
      · intro h
        obtain ⟨tree, trees, mid, rfl, head, tail⟩ := derivation_nonterminal_iff.1 h
        obtain rfl : mid = pos := Nat.le_antisymm tail.derives.le head.derives.le
        exact ⟨(tree, trees), ⟨head, tail⟩, rfl⟩
      · rintro ⟨⟨tree, trees⟩, ⟨head, tail⟩, rfl⟩
        exact derivation_nonterminal_iff.2 ⟨tree, trees, pos, rfl, head, tail⟩
    rw [pairs, Forest.encard_image_cons, ih, pow_succ']

/-- A node for a production that begins with a nonterminal begins each branch with a node of that
name. -/
theorem Forest.Packs.exists_first_child {f : Forest κ} {stands : Nat → κ → Prop}
    (packs : f.Packs stands) {id : NodeId} {node : Node} (place : f.nodes[id]? = some node)
    {name : String} {further : List (Symbol κ)}
    (symbols : f.grammar.symbols node.production = .nonterminal name :: further) {branch : Branch}
    (mem : branch ∈ node.branches) :
    ∃ below rest node', branch = .node below :: rest ∧ f.nodes[below]? = some node'
      ∧ f.grammar.name node'.production = name := by
  have packed := packs.node id node place
  obtain ⟨trees, along⟩ := packed.exists_trees branch mem
  have derivation := (packed.derivation_iff trees).2 ⟨branch, mem, along⟩
  rw [symbols] at derivation
  obtain ⟨tree, trees, _, rfl, head, -⟩ := derivation_nonterminal_iff.1 derivation
  obtain ⟨production, rule, children, rfl, -⟩ := derivation_rule_iff.1 head
  cases along with
  | cons covers _ =>
    cases covers with
    | node below =>
      obtain ⟨node', place', _, same, -⟩ := below
      obtain ⟨rfl, -⟩ := Tree.node.inj same
      exact ⟨_, _, node', rfl, place', (Grammar.mem_productionsOf.1 rule).2⟩

/-- A grammar for the empty text only: `S` derives itself, each time behind a `D`, and that has
2⁶⁴ derivations. -/
def crowded : Grammar String :=
  .ofList "S" [⟨"S", [.nonterminal "D", .nonterminal "S"]⟩, ⟨"S", []⟩,
    ⟨"D", List.replicate 64 (.nonterminal "X")⟩, ⟨"X", [.nonterminal "A"]⟩, ⟨"A", []⟩, ⟨"A", []⟩]

section Crowded

variable {stands : Nat → String → Prop} {pos : Nat}

theorem encard_derivation_crowded :
    {trees | Derivation crowded stands (crowded.symbols 2) trees pos pos}.encard = countLimit := by
  have choices : {tree | Derivation crowded stands [.nonterminal "X"] [tree] pos pos}
      = {.node 3 [.node 4 []], .node 3 [.node 5 []]} := by
    ext tree
    exact derivation_pair_iff (by decide) rfl (by decide) rfl rfl
  have symbols : crowded.symbols 2 = List.replicate 64 (.nonterminal "X") := rfl
  rw [symbols, encard_derivation_replicate, choices, Set.encard_pair (by simp)]
  norm_cast

theorem isSome_name?_crowded : ∀ id < crowded.productions.size, ∀ symbol ∈ crowded.symbols id,
    symbol.name?.isSome := by decide

/-- Nothing but the empty stretch is derived. -/
theorem crowded_stop_eq {symbols : List (Symbol String)} {stop : Nat}
    (h : Derives crowded stands symbols pos stop)
    (names : ∀ symbol ∈ symbols, symbol.name?.isSome) : pos = stop := by
  induction h with
  | nil => rfl
  | terminal => exact absurd (names _ List.mem_cons_self) (by simp [Symbol.name?])
  | nonterminal rule _ _ ihHead ihTail =>
    rw [ihHead (isSome_name?_crowded _ (Grammar.mem_productionsOf.1 rule).1),
      ihTail fun symbol mem => names symbol (List.mem_cons_of_mem _ mem)]

/-- A `D` fits before every derivation of `S`. -/
theorem exists_before_crowded (stands : Nat → String → Prop) (pos : Nat) : ∃ first : Tree, ∀ tree,
    Derivation crowded stands [.nonterminal "S"] [tree] pos pos →
      Derivation crowded stands (crowded.symbols 0) [first, tree] pos pos := by
  have present : {trees | Derivation crowded stands (crowded.symbols 2) trees pos pos}.Nonempty :=
    Set.encard_ne_zero.1 (by rw [encard_derivation_crowded]; decide)
  obtain ⟨trees, inside⟩ := present
  exact ⟨.node 2 trees, fun tree behind => derivation_nonterminal_iff.2
    ⟨_, _, pos, rfl, .singleton_node (by decide) inside, behind⟩⟩

section Forest

variable {f : Forest String} {id : NodeId} {node : Node}

theorem crowded_start_eq (packs : f.Packs stands) (grammar : f.grammar = crowded)
    (place : f.nodes[id]? = some node) : node.start = node.stop := by
  have derived := (packs.node id node place).derived
  exact crowded_stop_eq (grammar ▸ derived.read)
    (isSome_name?_crowded _ (grammar ▸ derived.production_lt))

/-- A node for `D` has too many trees, wherever it stands. -/
theorem encard_treesBelow_crowded (packs : f.Packs stands) (grammar : f.grammar = crowded)
    (place : f.nodes[id]? = some node) (named : f.grammar.name node.production = "D") :
    (f.treesBelow stands id).encard = countLimit := by
  have production : node.production = 2 := by
    have rule := Grammar.mem_productionsOf.2
      ⟨(packs.node id node place).derived.production_lt, named⟩
    rw [grammar, show crowded.productionsOf "D" = [2] by decide] at rule
    exact List.mem_singleton.1 rule
  rw [Forest.encard_treesBelow_eq place, grammar, production, crowded_start_eq packs grammar place]
  exact encard_derivation_crowded

/-- A node for `S` behind a `D` has infinitely many trees: the largest would stand in a larger
one. -/
theorem infinite_treesBelow_crowded (packs : f.Packs stands) (grammar : f.grammar = crowded)
    (place : f.nodes[id]? = some node) (production : node.production = 0) :
    (f.treesBelow stands id).Infinite := by
  intro finite
  obtain ⟨_, ⟨node', place', children, rfl, derivation⟩, bound⟩ :=
    Set.exists_max_image _ (sizeOf : Tree → Nat) finite (packs.nonempty_treesBelow place)
  obtain rfl := Option.some.inj (place.symm.trans place')
  change Derivation f.grammar stands (f.grammar.symbols node.production) children node.start
    node.stop at derivation
  rw [grammar, production, crowded_start_eq packs grammar place] at derivation
  obtain ⟨first, before⟩ := exists_before_crowded stands node.stop
  have larger : .node node.production [first, .node 0 children] ∈ f.treesBelow stands id := by
    refine ⟨node, place, _, rfl, ?_⟩
    change Derivation f.grammar stands (f.grammar.symbols node.production) _ node.start node.stop
    rw [grammar, production, crowded_start_eq packs grammar place]
    exact before _ (.singleton_node (by decide) derivation)
  refine Nat.not_le.2 (Forest.sizeOf_lt_sizeOf_node _ ?_) (bound _ larger)
  simp [Node.span, production]

/-- The descent from such a node does not come to its cycle. -/
theorem counting_eq_overflow_crowded (packs : f.Packs stands) (grammar : f.grammar = crowded)
    (place : f.nodes[id]? = some node) (production : node.production = 0) :
    f.counting id = .error .overflow := by
  have packed := packs.node id node place
  obtain ⟨trees, derivation⟩ := derives_iff_exists_derivation.1 packed.derived.read
  obtain ⟨branch, memBranch, -⟩ := (packed.derivation_iff trees).1 derivation
  obtain ⟨first, others, branches⟩ := List.exists_cons_of_ne_nil (List.ne_nil_of_mem memBranch)
  have symbols : f.grammar.symbols node.production = [.nonterminal "D", .nonterminal "S"] := by
    rw [grammar, production]
    rfl
  obtain ⟨below, rest, inner, rfl, placeBelow, named⟩ :=
    packs.exists_first_child place symbols (branches ▸ List.mem_cons_self)
  have card := encard_treesBelow_crowded packs grammar placeBelow named
  exact packs.counting_eq_overflow place branches (Set.finite_of_encard_eq_coe card) card.ge

/-- There is such a root. -/
theorem exists_root_crowded (packs : f.Packs stands) (grammar : f.grammar = crowded)
    (empty : f.tokens.size = 0) :
    ∃ root ∈ f.roots, ∃ node, f.nodes[root]? = some node ∧ node.production = 0 := by
  obtain ⟨first, before⟩ := exists_before_crowded stands 0
  have whole : Derivation f.grammar stands [.nonterminal f.grammar.entry]
      [.node 0 [first, .node 1 []]] 0 f.tokens.size := by
    rw [grammar, empty]
    exact .singleton_node (by decide) (before _ (.singleton_node (by decide) (.nil 0)))
  obtain ⟨root, mem, node, place, _, same, -⟩ := packs.exists_root _ whole
  exact ⟨root, mem, node, place, (Tree.node.inj same).1.symm⟩

end Forest

end Crowded

/-- **A descent may stop at a count that is too large before it meets a cycle**: the root has
infinitely many trees, but the first child of its first branch alone has 2⁶⁴. -/
theorem counting_crowded :
    ∃ f, parse crowded (.ofList String) (· == ·) [] = .ok f
      ∧ ∃ root ∈ f.roots,
        (f.treesBelow (recognize crowded (.ofList String) (· == ·) []).chart.Reads root).Infinite
          ∧ f.count root = none ∧ f.counting root = .error .overflow := by
  have run : (recognize crowded (.ofList String) (· == ·) []).error? = none
      ∧ (recognize crowded (.ofList String) (· == ·) []).chart.tokens.size = 0 := by decide +kernel
  have ok := parse_eq_ok_iff.2 ⟨run.1, rfl⟩
  have packs := Forest.packs_parse ok
  obtain ⟨root, mem, node, place, production⟩ := exists_root_crowded packs rfl run.2
  have stopped := counting_eq_overflow_crowded packs rfl place production
  exact ⟨_, ok, root, mem, infinite_treesBelow_crowded packs rfl place production,
    Forest.count_eq_none_iff.2 ⟨_, stopped⟩, stopped⟩

end Earley
