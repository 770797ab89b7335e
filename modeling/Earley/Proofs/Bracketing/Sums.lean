import Earley.Proofs.Bracketing.Catalan
import Earley.Proofs.Forest.Acceptance
import Earley.Proofs.Numerals

/-!
# Proofs/Bracketing/Sums — sums that recur to the left and sums that recur to the right

Both ways to write the rules of a sum give a chain of atoms a single tree (`Chain.eq_leftTree`,
`Chain.eq_rightTree`), and both trees come to the sum of the atoms (`value?_leftTree`,
`value?_rightTree`).  The arenas differ.  A whole that recurs to the right is asked for behind every
sign, so that there is a node for each stretch of the chain and for each part, below the root or not
(`Chain.hasNode_sums_iff`).
-/

namespace Earley

universe u

variable {κ : Type u} {stands : Nat → κ → Prop} {whole part : String} {row : List (Symbol κ)}
  {plus atom : κ} {tree : Tree} {trees : List Tree} {id : ProdId} {span : Span}
  {pos stop i m count : Nat}

/-! ## Rules for sums -/

/-- **Rules for sums**: a whole is a row or a single part, and a part is an atom. -/
def sums (whole part : String) (row : List (Symbol κ)) (atom : κ) : Grammar κ :=
  .ofList whole [⟨whole, row⟩, ⟨whole, [.nonterminal part]⟩, ⟨part, [.terminal atom]⟩]

/-- The row that recurs to the left. -/
def leftRow (whole part : String) (plus : κ) : List (Symbol κ) :=
  [.nonterminal whole, .terminal plus, .nonterminal part]

/-- The row that recurs to the right. -/
def rightRow (whole part : String) (plus : κ) : List (Symbol κ) :=
  [.nonterminal part, .terminal plus, .nonterminal whole]

theorem eq_of_mem_leftRow {kind : κ} (mem : .terminal kind ∈ leftRow whole part plus) :
    kind = plus := by
  simpa [leftRow] using mem

theorem eq_of_mem_rightRow {kind : κ} (mem : .terminal kind ∈ rightRow whole part plus) :
    kind = plus := by
  simpa [rightRow] using mem

namespace Sums

variable (apart : whole ≠ part)

include apart

theorem mem_productionsOf_whole :
    id ∈ (sums whole part row atom).productionsOf whole ↔ id = 0 ∨ id = 1 := by
  rw [sums, Grammar.mem_productionsOf_ofList]
  constructor
  · rintro ⟨p, place, named⟩
    match id, place with
    | 0, _ => exact .inl rfl
    | 1, _ => exact .inr rfl
    | 2, place => exact absurd (Option.some.inj place ▸ named).symm apart
  · rintro (rfl | rfl)
    · exact ⟨_, rfl, rfl⟩
    · exact ⟨_, rfl, rfl⟩

theorem mem_productionsOf_part :
    id ∈ (sums whole part row atom).productionsOf part ↔ id = 2 := by
  rw [sums, Grammar.mem_productionsOf_ofList]
  constructor
  · rintro ⟨p, place, named⟩
    match id, place with
    | 0, place => exact absurd ((congrArg _ (Option.some.inj place)).trans named) apart
    | 1, place => exact absurd ((congrArg _ (Option.some.inj place)).trans named) apart
    | 2, _ => rfl
  · rintro rfl
    exact ⟨_, rfl, rfl⟩

theorem mem_productionsOf_of_lt (known : id < (sums whole part row atom).productions.size) :
    id ∈ (sums whole part row atom).productionsOf whole
      ∨ id ∈ (sums whole part row atom).productionsOf part := by
  rw [mem_productionsOf_whole apart, mem_productionsOf_part apart]
  match id, known with
  | 0, _ => exact .inl (.inl rfl)
  | 1, _ => exact .inl (.inr rfl)
  | 2, _ => exact .inr rfl

/-- The stretches of a chain are of the productions of a whole. -/
theorem production_stretch_mem :
    (stretch 1 i m).production ∈ (sums whole part row atom).productionsOf whole := by
  rw [mem_productionsOf_whole apart, stretch]
  split
  · exact .inr rfl
  · exact .inl rfl

omit apart in
/-- The kinds of a sum are those of its row and the atom. -/
theorem mem_of_mem_symbols {kind : κ} (only : ∀ kind, .terminal kind ∈ row → kind = plus)
    (mem : .terminal kind ∈ (sums whole part row atom).symbols id) : kind ∈ [atom, plus] := by
  obtain ⟨p, rule, there⟩ := Grammar.exists_of_mem_symbols mem
  have cases : p = ⟨whole, row⟩ ∨ p = ⟨whole, [.nonterminal part]⟩
      ∨ p = ⟨part, [.terminal atom]⟩ := by
    simpa [sums, Grammar.ofList] using rule
  rcases cases with rfl | rfl | rfl
  · exact List.mem_pair.2 (.inr (only kind there))
  · cases List.mem_singleton.1 there
  · exact List.mem_pair.2 (.inl (Symbol.terminal.inj (List.mem_singleton.1 there)))

/-- **A part is an atom.** -/
theorem derivation_part_iff :
    Derivation (sums whole part row atom) stands [.nonterminal part] [tree] pos stop
      ↔ tree = .node 2 [.leaf pos] ∧ stands pos atom ∧ stop = pos + 1 := by
  rw [derivation_rule_iff]
  simp only [mem_productionsOf_part apart, exists_eq_left]
  change (∃ children, tree = .node 2 children
    ∧ Derivation (sums whole part row atom) stands [.terminal atom] children pos stop) ↔ _
  simp only [derivation_terminal_iff, derivation_nil_iff]
  constructor
  · rintro ⟨_, rfl, _, rfl, stand, rfl, rfl⟩
    exact ⟨rfl, stand, rfl⟩
  · rintro ⟨rfl, stand, rfl⟩
    exact ⟨_, rfl, _, rfl, stand, rfl, rfl⟩

/-- **A whole is a part or a row.** -/
theorem derivation_whole_iff :
    Derivation (sums whole part row atom) stands [.nonterminal whole] [tree] pos stop
      ↔ (tree = .node 1 [.node 2 [.leaf pos]] ∧ stands pos atom ∧ stop = pos + 1)
        ∨ ∃ children, tree = .node 0 children
          ∧ Derivation (sums whole part row atom) stands row children pos stop := by
  rw [derivation_rule_iff]
  simp only [mem_productionsOf_whole apart, or_and_right, exists_or, exists_eq_left]
  rw [or_comm]
  refine or_congr_left ?_
  change (∃ children, tree = .node 1 children
    ∧ Derivation (sums whole part row atom) stands [.nonterminal part] children pos stop) ↔ _
  constructor
  · rintro ⟨_, rfl, inner⟩
    obtain ⟨_, rfl⟩ := inner.exists_eq_singleton
    obtain ⟨rfl, stand, rfl⟩ := (derivation_part_iff apart).1 inner
    exact ⟨rfl, stand, rfl⟩
  · rintro ⟨rfl, stand, rfl⟩
    exact ⟨_, rfl, (derivation_part_iff apart).2 ⟨rfl, stand, rfl⟩⟩

theorem derivation_leftRow_iff :
    Derivation (sums whole part row atom) stands (leftRow whole part plus) trees pos stop
      ↔ ∃ left mid, trees = [left, .leaf mid, .node 2 [.leaf (mid + 1)]]
        ∧ Derivation (sums whole part row atom) stands [.nonterminal whole] [left] pos mid
        ∧ stands mid plus ∧ stands (mid + 1) atom ∧ stop = mid + 2 := by
  rw [leftRow, derivation_nonterminal_iff]
  simp only [derivation_terminal_iff]
  constructor
  · rintro ⟨left, _, mid, rfl, front, _, rfl, stand, last⟩
    obtain ⟨_, rfl⟩ := last.exists_eq_singleton
    obtain ⟨rfl, stand', rfl⟩ := (derivation_part_iff apart).1 last
    exact ⟨left, mid, rfl, front, stand, stand', rfl⟩
  · rintro ⟨left, mid, rfl, front, stand, stand', rfl⟩
    exact ⟨left, _, mid, rfl, front, _, rfl, stand,
      (derivation_part_iff apart).2 ⟨rfl, stand', rfl⟩⟩

theorem derivation_rightRow_iff :
    Derivation (sums whole part row atom) stands (rightRow whole part plus) trees pos stop
      ↔ ∃ right, trees = [.node 2 [.leaf pos], .leaf (pos + 1), right]
        ∧ stands pos atom ∧ stands (pos + 1) plus
        ∧ Derivation (sums whole part row atom) stands [.nonterminal whole] [right] (pos + 2)
            stop := by
  rw [rightRow, derivation_nonterminal_iff]
  simp only [derivation_terminal_iff]
  constructor
  · rintro ⟨left, _, mid, rfl, front, _, rfl, stand, last⟩
    obtain ⟨rfl, stand', rfl⟩ := (derivation_part_iff apart).1 front
    obtain ⟨right, rfl⟩ := last.exists_eq_singleton
    exact ⟨right, rfl, stand', stand, last⟩
  · rintro ⟨right, rfl, stand, stand', last⟩
    exact ⟨_, _, _, rfl, (derivation_part_iff apart).2 ⟨rfl, stand, rfl⟩, _, rfl, stand', last⟩

end Sums

/-! ## The trees of sums -/

/-- The tree of the sum of the first atoms that recurs to the left. -/
def leftTree : Nat → Tree
  | 0 => .node 1 [.node 2 [.leaf (atomPlace 1 0)]]
  | m + 1 =>
    .node 0 [leftTree m, .leaf (atomPlace 1 m + 1), .node 2 [.leaf (atomPlace 1 (m + 1))]]

/-- The tree of the sum from an atom on that recurs to the right. -/
def rightTree : Nat → Nat → Tree
  | i, 0 => .node 1 [.node 2 [.leaf (atomPlace 1 i)]]
  | i, m + 1 =>
    .node 0 [.node 2 [.leaf (atomPlace 1 i)], .leaf (atomPlace 1 i + 1), rightTree (i + 1) m]

theorem exists_rightTree_eq_node :
    ∃ children, rightTree i m = .node (if m = 0 then 1 else 0) children := by
  cases m with
  | zero => exact ⟨_, rfl⟩
  | succ => exact ⟨_, rfl⟩

namespace Chain

variable (chain : Chain stands [plus] atom count) (apart : whole ≠ part)

include chain apart

theorem derivation_leftTree (bound : m < count) :
    Derivation (sums whole part (leftRow whole part plus) atom) stands [.nonterminal whole]
      [leftTree m] 0 (atomPlace 1 m + 1) := by
  induction m with
  | zero =>
    have stand := (chain.atom_iff _).2 ⟨0, bound, rfl⟩
    exact (Sums.derivation_whole_iff apart).2 (.inl ⟨rfl, stand, rfl⟩)
  | succ m ih =>
    have stand := (chain.atom_iff _).2 ⟨m + 1, bound, rfl⟩
    have place : atomPlace 1 (m + 1) = atomPlace 1 m + 1 + 1 := atomPlace_succ
    rw [leftTree, place]
    exact (Sums.derivation_whole_iff apart).2 (.inr ⟨_, rfl, (Sums.derivation_leftRow_iff apart).2
      ⟨_, _, rfl, ih (Nat.lt_of_succ_lt bound), (chain.separated m bound).1, place ▸ stand, rfl⟩⟩)

/-- **What recurs to the left has one tree** for every number of atoms. -/
theorem eq_leftTree (h : Derivation (sums whole part (leftRow whole part plus) atom) stands
      [.nonterminal whole] [tree] 0 stop) :
    ∃ m < count, stop = atomPlace 1 m + 1 ∧ tree = leftTree m := by
  -- All that recurs to the left begins with the first atom, so that the end alone is smaller.
  induction stop using Nat.strongRecOn generalizing tree with
  | ind stop ih =>
    rcases (Sums.derivation_whole_iff apart).1 h with ⟨rfl, stand, rfl⟩ | ⟨_, rfl, inner⟩
    · obtain ⟨i, bound, -⟩ := (chain.atom_iff 0).1 stand
      exact ⟨0, Nat.zero_lt_of_lt bound, rfl, rfl⟩
    · obtain ⟨left, mid, rfl, front, -, stand, rfl⟩ :=
        (Sums.derivation_leftRow_iff apart).1 inner
      obtain ⟨m, -, rfl, rfl⟩ := ih mid (by omega) front
      have place : atomPlace 1 (m + 1) = atomPlace 1 m + 1 + 1 := atomPlace_succ
      rw [← place] at stand ⊢
      obtain ⟨j, bound, same⟩ := (chain.atom_iff _).1 stand
      obtain rfl := atomPlace_inj.1 same
      exact ⟨m + 1, bound, congrArg (· + 1) place.symm, rfl⟩

theorem derivation_rightTree (bound : i + m < count) :
    Derivation (sums whole part (rightRow whole part plus) atom) stands [.nonterminal whole]
      [rightTree i m] (atomPlace 1 i) (atomPlace 1 (i + m) + 1) := by
  induction m generalizing i with
  | zero =>
    have stand := (chain.atom_iff _).2 ⟨i, bound, rfl⟩
    exact (Sums.derivation_whole_iff apart).2 (.inl ⟨rfl, stand, rfl⟩)
  | succ m ih =>
    have stand := (chain.atom_iff _).2 ⟨i, by omega, rfl⟩
    have last := ih (show i + 1 + m < count by omega)
    rw [atomPlace_succ, Nat.add_right_comm i 1 m] at last
    exact (Sums.derivation_whole_iff apart).2 (.inr ⟨_, rfl,
      (Sums.derivation_rightRow_iff apart).2
        ⟨_, rfl, stand, (chain.separated i (by omega)).1, last⟩⟩)

/-- **What recurs to the right has one tree** for every stretch of atoms. -/
theorem eq_rightTree (h : Derivation (sums whole part (rightRow whole part plus) atom) stands
      [.nonterminal whole] [tree] pos stop) :
    ∃ i m, i + m < count ∧ pos = atomPlace 1 i ∧ stop = atomPlace 1 (i + m) + 1
      ∧ tree = rightTree i m := by
  induction size : sizeOf tree using Nat.strongRecOn generalizing tree pos with
  | ind _ ih =>
    rcases (Sums.derivation_whole_iff apart).1 h with ⟨rfl, stand, rfl⟩ | ⟨_, rfl, inner⟩
    · obtain ⟨i, bound, rfl⟩ := (chain.atom_iff pos).1 stand
      exact ⟨i, 0, bound, rfl, rfl, rfl⟩
    · obtain ⟨right, rfl, stand, -, last⟩ := (Sums.derivation_rightRow_iff apart).1 inner
      obtain ⟨i, -, rfl⟩ := (chain.atom_iff pos).1 stand
      have smaller := Forest.sizeOf_lt_sizeOf_node 0 (List.mem_cons_of_mem
        (.node 2 [.leaf (atomPlace 1 i)]) (List.mem_pair.2 (.inr rfl) :
          right ∈ [.leaf (atomPlace 1 i + 1), right]))
      obtain ⟨j, m, bound, place, rfl, rfl⟩ := ih _ (size ▸ smaller) last rfl
      obtain rfl := atomPlace_inj.1 ((atomPlace_succ : atomPlace 1 (i + 1) = _).trans place)
      exact ⟨i, m + 1, by omega, rfl, by rw [Nat.add_right_comm i 1 m]; rfl, rfl⟩

/-- **A whole that recurs to the right derives every stretch**, and nothing else. -/
theorem derives_whole_iff (rule : span.production
      ∈ (sums whole part (rightRow whole part plus) atom).productionsOf whole) :
    Derives (sums whole part (rightRow whole part plus) atom) stands
        ((sums whole part (rightRow whole part plus) atom).symbols span.production) span.start
        span.stop
      ↔ ∃ i m, i + m < count ∧ span = stretch 1 i m := by
  constructor
  · intro read
    obtain ⟨start, stop, production⟩ := span
    obtain ⟨_, inner⟩ := derives_iff_exists_derivation.1 read
    obtain ⟨i, m, bound, rfl, rfl, same⟩ := chain.eq_rightTree apart (.singleton_node rule inner)
    obtain ⟨_, top⟩ := exists_rightTree_eq_node
    obtain ⟨rfl, -⟩ := Tree.node.inj (same.trans top)
    exact ⟨i, m, bound, rfl⟩
  · rintro ⟨i, m, bound, rfl⟩
    obtain ⟨_, -, _, same, inner⟩ :=
      derivation_rule_iff.1 (chain.derivation_rightTree apart bound)
    obtain ⟨_, top⟩ := exists_rightTree_eq_node
    obtain ⟨rfl, -⟩ := Tree.node.inj (same.symm.trans top)
    exact inner.derives

omit apart in
/-- A part derives every atom, and nothing else. -/
theorem derives_part_iff : Derives (sums whole part row atom) stands
      ((sums whole part row atom).symbols 2) pos stop
    ↔ ∃ i < count, pos = atomPlace 1 i ∧ stop = atomPlace 1 i + 1 := by
  change Derives (sums whole part row atom) stands [.terminal atom] pos stop ↔ _
  constructor
  · intro read
    cases read with
    | terminal stand tail =>
      cases tail
      obtain ⟨i, bound, rfl⟩ := (chain.atom_iff pos).1 stand
      exact ⟨i, bound, rfl, rfl⟩
  · rintro ⟨i, bound, rfl, rfl⟩
    exact .singleton_terminal ((chain.atom_iff _).2 ⟨i, bound, rfl⟩)

/-- A part and a sign are read in front of every atom but the first. -/
theorem derives_part_plus (bound : i + 1 < count) : Derives (sums whole part row atom) stands
    [.nonterminal part, .terminal plus] (atomPlace 1 i) (atomPlace 1 (i + 1)) := by
  have first : Derives (sums whole part row atom) stands [.nonterminal part] (atomPlace 1 i)
      (atomPlace 1 i + 1) :=
    .singleton_nonterminal ((Sums.mem_productionsOf_part apart).2 rfl)
      (chain.derives_part_iff.2 ⟨i, by omega, rfl, rfl⟩)
  rw [atomPlace_succ]
  exact first.append (.singleton_terminal (chain.separated i bound).1)

end Chain

/-! ## The arena of a sum that recurs to the right -/

/-- The span of a part. -/
def partSpan (i : Nat) : Span := ⟨atomPlace 1 i, atomPlace 1 i + 1, 2⟩

/-- The spans of parts. -/
def partSpans (count : Nat) : Finset Span := (Finset.range count).image partSpan

theorem mem_partSpans : span ∈ partSpans count ↔ ∃ i < count, span = partSpan i := by
  simp only [partSpans, Finset.mem_image, Finset.mem_range, eq_comm]

theorem card_partSpans : (partSpans count).card = count := by
  have injective : Function.Injective partSpan :=
    fun _ _ same => atomPlace_inj.1 (Span.mk.inj same).1
  rw [partSpans, Finset.card_image_of_injective _ injective, Finset.card_range]

/-- **Stretches and parts are apart**, as they are of different productions. -/
theorem disjoint_stretches_partSpans : Disjoint (stretches 1 count) (partSpans count) := by
  refine Finset.disjoint_left.2 fun span mem mem' => ?_
  obtain ⟨i, m, -, rfl⟩ := mem_stretches.1 mem
  obtain ⟨j, -, same⟩ := mem_partSpans.1 mem'
  have production := congrArg Span.production same
  rw [stretch, partSpan] at production
  split at production
  · cases production
  · cases production

theorem card_spans : (stretches 1 count ∪ partSpans count).card
    = count * (count + 1) / 2 + count := by
  rw [Finset.card_union_of_disjoint disjoint_stretches_partSpans, card_stretches, card_partSpans]
  cases count with
  | zero => rfl
  | succ n =>
    have twice : (n + 1) * (n + 1 + 1) = (n + 1) * n + 2 * (n + 1) := by ring
    rw [twice, Nat.add_mul_div_left _ _ Nat.two_pos, Nat.add_sub_cancel, Nat.add_comm (n + 1)]

section Chart

variable [DecidableEq κ] {chart : Chart κ}
  (sound : chart.Sound (sums whole part (rightRow whole part plus) atom))
  (saturated : chart.Saturated (sums whole part (rightRow whole part plus) atom))
  (chain : Chain chart.Reads [plus] atom count) (apart : whole ≠ part)

include sound saturated chain apart

/-- **From every atom on, every stretch has a node**: the rest of a sum is asked for behind each
sign, and so is all that it may begin with. -/
theorem Chain.hasNode_stretch (bound : i + m < count) :
    (Forest.ofChart (sums whole part (rightRow whole part plus) atom) chart).HasNode
      (stretch 1 i m) := by
  induction i generalizing m with
  | zero =>
    exact Forest.hasNode_of_entry sound saturated (Sums.production_stretch_mem apart) atomPlace_zero
      ((chain.derives_whole_iff apart (Sums.production_stretch_mem apart)).2 ⟨0, m, bound, rfl⟩)
  | succ i ih =>
    -- The stretch is what follows the sign in the one that begins an atom earlier.
    have node := ih (show i + (m + 1) < count by omega)
    have same : (stretch 1 i (m + 1)).stop = (stretch 1 (i + 1) m).stop := by
      rw [stretch, stretch, Nat.add_right_comm i 1 m]
      rfl
    have split : (sums whole part (rightRow whole part plus) atom).symbols 0
        = [.nonterminal part, .terminal plus] ++ .nonterminal whole :: [] := rfl
    refine node.of_part sound saturated split (chain.derives_part_plus apart (by omega))
      (Sums.production_stretch_mem apart)
      ((chain.derives_whole_iff apart (Sums.production_stretch_mem apart)).2 ⟨_, _, bound, rfl⟩) ?_
    rw [same]
    exact .nil _

/-- **The nodes of a sum** are those of its stretches and of its parts. -/
theorem Chain.hasNode_sums_iff :
    (Forest.ofChart (sums whole part (rightRow whole part plus) atom) chart).HasNode span
      ↔ span ∈ stretches 1 count ∪ partSpans count := by
  rw [Finset.mem_union, mem_stretches, mem_partSpans]
  constructor
  · intro node
    have derived := node.derived sound saturated
    rcases Sums.mem_productionsOf_of_lt apart derived.production_lt with rule | rule
    · exact .inl ((chain.derives_whole_iff apart rule).1 derived.read)
    · obtain ⟨start, stop, production⟩ := span
      obtain rfl := (Sums.mem_productionsOf_part apart).1 rule
      obtain ⟨i, bound, rfl, rfl⟩ := chain.derives_part_iff.1 derived.read
      exact .inr ⟨i, bound, rfl⟩
  · rintro (⟨i, m, bound, rfl⟩ | ⟨i, bound, rfl⟩)
    · exact chain.hasNode_stretch sound saturated apart bound
    · have node := chain.hasNode_stretch sound saturated apart (show i + 0 < count from bound)
      have split : (sums whole part (rightRow whole part plus) atom).symbols 1
          = [] ++ .nonterminal part :: [] := rfl
      exact node.of_part sound saturated split (.nil _)
        ((Sums.mem_productionsOf_part apart).2 rfl)
        (chain.derives_part_iff.2 ⟨i, bound, rfl, rfl⟩) (.nil _)

theorem Chain.size_nodes_sums :
    (Forest.ofChart (sums whole part (rightRow whole part plus) atom) chart).nodes.size
      = count * (count + 1) / 2 + count :=
  (Forest.size_nodes_eq_card sound saturated fun _ =>
    chain.hasNode_sums_iff sound saturated apart).trans card_spans

end Chart

/-! ## Sums of numerals -/

section Joined

variable {numerals : List Decimal} {tokens : Array (Token (Pattern .standard))}
  {pattern : Pattern .standard} {sign : Char}
  (spelled : tokens.toList.map wordOf = joined pattern sign numerals)

/-- What the rules mean: the first adds. -/
abbrev adding : Semantics (Pattern .standard) Int := .ofOperation (· + ·) .first

include spelled

theorem value?_part (bound : i < numerals.length) :
    (Tree.node 2 [.leaf (atomPlace 1 i)]).value? adding tokens = some numerals[i].value := by
  obtain ⟨token, place, means⟩ :=
    exists_token_of_joined spelled (List.getElem?_eq_getElem bound)
  rw [← means]
  exact Tree.value?_node (Tree.values?_cons (Tree.value?_leaf place) rfl)

/-- **A sum that recurs to the left** comes to the sum of the first numerals. -/
theorem value?_leftTree (bound : m < numerals.length) : (leftTree m).value? adding tokens
    = some ((numerals.map Decimal.value).take (m + 1)).sum := by
  have last (i : Nat) (bound : i < numerals.length) :
      ((numerals.map Decimal.value).take (i + 1)).sum
        = ((numerals.map Decimal.value).take i).sum + numerals[i].value := by
    rw [List.sum_take_succ _ _ (bound.trans_eq (List.length_map _).symm), List.getElem_map]
  induction m with
  | zero =>
    rw [last 0 bound, List.take_zero, List.sum_nil, Int.zero_add]
    exact Tree.value?_node (Tree.values?_cons (value?_part spelled bound) rfl)
  | succ m ih =>
    obtain ⟨token, place⟩ := exists_sign_of_joined spelled bound
    rw [last (m + 1) bound]
    exact Tree.value?_node (Tree.values?_cons (ih (Nat.lt_of_succ_lt bound))
      (Tree.values?_cons (Tree.value?_leaf place)
        (Tree.values?_cons (value?_part spelled bound) rfl)))

/-- **A sum that recurs to the right** comes to the sum of the last numerals. -/
theorem value?_rightTree (length : i + m + 1 = numerals.length) :
    (rightTree i m).value? adding tokens = some ((numerals.map Decimal.value).drop i).sum := by
  have first (i : Nat) (bound : i < numerals.length) : ((numerals.map Decimal.value).drop i).sum
      = numerals[i].value + ((numerals.map Decimal.value).drop (i + 1)).sum := by
    rw [List.drop_eq_getElem_cons (bound.trans_eq (List.length_map _).symm), List.sum_cons,
      List.getElem_map]
  have bound : i < numerals.length := by omega
  induction m generalizing i with
  | zero =>
    have last : (numerals.map Decimal.value).drop (i + 1) = [] :=
      List.drop_of_length_le (by rw [List.length_map]; omega)
    rw [first i bound, last, List.sum_nil, Int.add_zero]
    exact Tree.value?_node (Tree.values?_cons (value?_part spelled bound) rfl)
  | succ m ih =>
    obtain ⟨token, place⟩ := exists_sign_of_joined spelled (show i + 1 < numerals.length by omega)
    rw [first i bound]
    exact Tree.value?_node (Tree.values?_cons (value?_part spelled bound)
      (Tree.values?_cons (Tree.value?_leaf place)
        (Tree.values?_cons (ih (by omega) (by omega)) rfl)))

end Joined

/-- **Tokens have a single tree**, and a value with it. -/
structure SingleTree (g : Grammar (Pattern .standard)) (sem : Semantics (Pattern .standard) Int)
    (tokens : Array (Token (Pattern .standard))) (tree : Tree) (value : Int) : Prop where
  derivation : Derivation g (KindAt tokens) [.nonterminal g.entry] [tree] 0 tokens.size
  unique : ∀ other, Derivation g (KindAt tokens) [.nonterminal g.entry] [other] 0 tokens.size →
    other = tree
  means : tree.value? sem tokens = some value

/-- **A text of words with a single tree** is parsed with a single root, and accepted with the value
of the tree. -/
theorem exists_root_of_singleTree {g : Grammar (Pattern .standard)}
    {kinds : List (Pattern .standard)} {words : List (Word .standard)} {text : String}
    {value : Int}
    (terminals : ∀ id kind, .terminal kind ∈ g.symbols id → kind ∈ kinds)
    (laid : Laid kinds words text.toList)
    (single : ∀ tokens : Array (Token (Pattern .standard)), tokens.toList.map wordOf = words →
      SingleTree g adding tokens tree value) :
    ∃ chart root, g.parse text = .ok (.ofChart g chart) ∧ chart.Sound g ∧ chart.Saturated g
      ∧ chart.Reads = KindAt chart.tokens ∧ chart.tokens.toList.map wordOf = words
      ∧ (Forest.ofChart g chart).roots = [root] ∧ (Forest.ofChart g chart).count root = some 1
      ∧ (Forest.ofChart g chart).accept adding root = some value := by
  obtain ⟨chart, parsed, sound, saturated, reads, spelled⟩ :=
    exists_chart_of_laid terminals laid
      fun tokens spelled => (single tokens spelled).derivation.derives
  have packs := Forest.packs_ofChart sound saturated
  rw [reads] at packs
  obtain ⟨derivation, unique, means⟩ := single chart.tokens spelled
  obtain ⟨root, roots, count, accepted⟩ :=
    packs.exists_root_of_value (fun _ _ => KindAt.lt) rfl derivation unique means
  exact ⟨chart, root, parsed, sound, saturated, reads, spelled, roots, count, accepted⟩

section Single

variable {numerals : List Decimal} {tokens : Array (Token (Pattern .standard))}
  {pattern : Pattern .standard} {sign : Char}
  (spelled : tokens.toList.map wordOf = joined pattern sign numerals)
  (length : numerals.length = m + 1) (other : pattern ≠ .literal (String.singleton sign))
  (apart : whole ≠ part)

include spelled length other apart

/-- **A sum that recurs to the left has a single tree.** -/
theorem singleTree_leftRow : SingleTree
    (sums whole part (leftRow whole part (.literal (String.singleton sign))) pattern) adding tokens
    (leftTree m) (numerals.map Decimal.value).sum := by
  have chain := chain_of_joined spelled other
  have size := (size_of_spelled spelled).trans (length_joined length)
  have bound : m < numerals.length := by omega
  constructor
  case derivation =>
    rw [size]
    exact chain.derivation_leftTree apart bound
  case unique =>
    intro tree derivation
    rw [size] at derivation
    obtain ⟨m', -, same, rfl⟩ := chain.eq_leftTree apart derivation
    rw [atomPlace_inj.1 (Nat.succ.inj same)]
  case means =>
    rw [value?_leftTree spelled bound, ← length, List.take_of_length_le (List.length_map _).le]

/-- **A sum that recurs to the right has a single tree.** -/
theorem singleTree_rightRow : SingleTree
    (sums whole part (rightRow whole part (.literal (String.singleton sign))) pattern) adding tokens
    (rightTree 0 m) (numerals.map Decimal.value).sum := by
  have chain := chain_of_joined spelled other
  have size := (size_of_spelled spelled).trans (length_joined length)
  have bound : 0 + m < numerals.length := by omega
  constructor
  case derivation =>
    have derivation := chain.derivation_rightTree apart bound
    rw [atomPlace_zero, Nat.zero_add] at derivation
    rw [size]
    exact derivation
  case unique =>
    intro tree derivation
    rw [size] at derivation
    obtain ⟨i, m', -, start, same, rfl⟩ := chain.eq_rightTree apart derivation
    obtain rfl : 0 = i := atomPlace_inj.1 (atomPlace_zero.trans start)
    rw [atomPlace_inj.1 (Nat.succ.inj same), Nat.zero_add]
  case means =>
    rw [value?_rightTree spelled (by omega), List.drop_zero]

end Single

/-- Sums of numerals that recur to the left. -/
def leftSum : Grammar (Pattern .standard) :=
  .ofList "sum" [⟨"sum", [.nonterminal "sum", .terminal (.literal "+"), .nonterminal "num"]⟩,
    ⟨"sum", [.nonterminal "num"]⟩, ⟨"num", [.terminal asciiDigits]⟩]

/-- Sums of numerals that recur to the right. -/
def rightSum : Grammar (Pattern .standard) :=
  .ofList "S" [⟨"S", [.nonterminal "N", .terminal (.literal "+"), .nonterminal "S"]⟩,
    ⟨"S", [.nonterminal "N"]⟩, ⟨"N", [.terminal asciiDigits]⟩]

/-- **Sums that recur to the left and to the right agree.**  A text of numerals with plus signs
between them has a single root and a single tree by either rules, which is accepted with the sum of
the numbers.  By the rules that recur to the right there is a node for the sum from every numeral to
every later one, and one for every numeral. -/
theorem sums_agree {numerals : List Decimal} (present : numerals ≠ []) {text : String}
    (spaced : Spaced (joined asciiDigits '+' numerals) text.toList) :
    (∃ f root, leftSum.parse text = .ok f ∧ f.roots = [root] ∧ f.count root = some 1
        ∧ f.accept adding root = some (numerals.map Decimal.value).sum)
      ∧ ∃ f root, rightSum.parse text = .ok f ∧ f.roots = [root] ∧ f.count root = some 1
        ∧ f.accept adding root = some (numerals.map Decimal.value).sum
        ∧ f.nodes.size = numerals.length * (numerals.length + 1) / 2 + numerals.length := by
  obtain ⟨m, length⟩ := Nat.exists_eq_add_of_le' (List.length_pos_iff.2 present)
  have laid := spaced.laid_joined readsDigits_asciiDigits (by decide) (by decide)
  have other : asciiDigits ≠ .literal (String.singleton '+') := Pattern.ofSource_ne_literal
  constructor
  · obtain ⟨chart, root, parsed, -, -, -, -, roots, count, accepted⟩ := exists_root_of_singleTree
      (fun _ _ => Sums.mem_of_mem_symbols fun _ => eq_of_mem_leftRow) laid fun tokens spelled =>
        singleTree_leftRow spelled length other (by decide : "sum" ≠ "num")
    exact ⟨_, root, parsed, roots, count, accepted⟩
  · have apart : "S" ≠ "N" := by decide
    obtain ⟨chart, root, parsed, sound, saturated, reads, spelled, roots, count, accepted⟩ :=
      exists_root_of_singleTree (fun _ _ => Sums.mem_of_mem_symbols fun _ => eq_of_mem_rightRow)
        laid fun tokens spelled => singleTree_rightRow spelled length other apart
    have chain := chain_of_joined spelled other
    rw [← reads] at chain
    exact ⟨_, root, parsed, roots, count, accepted, chain.size_nodes_sums sound saturated apart⟩

/-- Four numerals with blanks among them. -/
theorem sums_agree_four :
    (∃ f root, leftSum.parse " 7+10 +\t0+ 25 " = .ok f ∧ f.roots = [root]
        ∧ f.count root = some 1 ∧ f.accept adding root = some 42)
      ∧ ∃ f root, rightSum.parse " 7+10 +\t0+ 25 " = .ok f ∧ f.roots = [root]
        ∧ f.count root = some 1 ∧ f.accept adding root = some 42 ∧ f.nodes.size = 14 := by
  let seven : Decimal := ⟨"7", by decide, List.all_eq_true.1 (by decide)⟩
  let ten : Decimal := ⟨"10", by decide, List.all_eq_true.1 (by decide)⟩
  let zero : Decimal := ⟨"0", by decide, List.all_eq_true.1 (by decide)⟩
  let twentyFive : Decimal := ⟨"25", by decide, List.all_eq_true.1 (by decide)⟩
  let numerals := [seven, ten, zero, twentyFive]
  have laid := @Spaced.cons .standard ⟨asciiDigits, "7"⟩ _ [' '] _ (by decide) <|
    @Spaced.cons .standard (separator '+') _ [] _ (by decide) <|
    @Spaced.cons .standard ⟨asciiDigits, "10"⟩ _ [] _ (by decide) <|
    @Spaced.cons .standard (separator '+') _ [' '] _ (by decide) <|
    @Spaced.cons .standard ⟨asciiDigits, "0"⟩ _ ['\t'] _ (by decide) <|
    @Spaced.cons .standard (separator '+') _ [] _ (by decide) <|
    @Spaced.cons .standard ⟨asciiDigits, "25"⟩ _ [' '] _ (by decide) <|
    @Spaced.nil .standard [' '] (by decide)
  have spaced : Spaced (joined asciiDigits '+' numerals) " 7+10 +\t0+ 25 ".toList := by
    convert laid using 1
    · rfl
    · decide
  have total : (numerals.map Decimal.value).sum = 42 := by decide
  have nodes : numerals.length * (numerals.length + 1) / 2 + numerals.length = 14 := by decide
  obtain ⟨⟨f, root, parsed, roots, count, value⟩, f', root', parsed', roots', count', value',
    size⟩ := sums_agree (List.cons_ne_nil _ _) spaced
  rw [total] at value value'
  exact ⟨⟨f, root, parsed, roots, count, value⟩, f', root', parsed', roots', count', value',
    size.trans nodes⟩

end Earley
