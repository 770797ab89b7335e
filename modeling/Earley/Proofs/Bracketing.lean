import Earley.Proofs.Forest.Acceptance
import Earley.Proofs.Forest.Extent
import Earley.Proofs.Grammar.Layer
import Earley.Proofs.Registry
import Mathlib.Combinatorics.Enumerative.Catalan.Tree

/-!
# Proofs/Bracketing — a name that doubles brackets a chain of atoms in every way

A name doubles if it is an atom, or itself twice with separators between (`doubling`).  Over a chain
of atoms its derivations are the binary trees: an inner node for each row of separators, a leaf for
each atom (`Chain.derivation_iff`).  So there are Catalan many for every stretch of the chain
(`Chain.encard_trees`).  The separators may be missing, as where a name is put twice side by side.
-/

namespace Earley

universe u

variable {κ : Type u} {g : Grammar κ} {stands : Nat → κ → Prop} {trees : List Tree} {tree : Tree}
  {pos mid stop i m count gap : Nat}

/-! ## Rows -/

theorem derivation_append_iff {before after : List (Symbol κ)} :
    Derivation g stands (before ++ after) trees pos stop
      ↔ ∃ front back mid, trees = front ++ back ∧ Derivation g stands before front pos mid
        ∧ Derivation g stands after back mid stop := by
  induction before generalizing trees pos with
  | nil =>
    simp only [List.nil_append, derivation_nil_iff]
    constructor
    · exact fun h => ⟨[], trees, pos, rfl, ⟨rfl, rfl⟩, h⟩
    · rintro ⟨_, back, _, rfl, ⟨rfl, rfl⟩, h⟩
      exact h
  | cons symbol before ih =>
    cases symbol with
    | terminal kind =>
      simp only [List.cons_append, derivation_terminal_iff, ih]
      constructor
      · rintro ⟨_, rfl, stand, front, back, mid, rfl, first, last⟩
        exact ⟨_, back, mid, rfl, ⟨front, rfl, stand, first⟩, last⟩
      · rintro ⟨_, back, mid, rfl, ⟨front, rfl, stand, first⟩, last⟩
        exact ⟨_, rfl, stand, front, back, mid, rfl, first, last⟩
    | nonterminal name =>
      rw [List.cons_append, derivation_nonterminal_iff]
      simp only [ih]
      constructor
      · rintro ⟨tree, _, split, rfl, head, front, back, mid, rfl, first, last⟩
        exact ⟨_, back, mid, rfl,
          derivation_nonterminal_iff.2 ⟨tree, front, split, rfl, head, first⟩, last⟩
      · rintro ⟨_, back, mid, rfl, inner, last⟩
        obtain ⟨tree, front, split, rfl, head, first⟩ := derivation_nonterminal_iff.1 inner
        exact ⟨tree, _, split, rfl, head, front, back, mid, rfl, first, last⟩

/-- The leaves of tokens side by side. -/
def leaves : Nat → Nat → List Tree
  | _, 0 => []
  | pos, count + 1 => .leaf pos :: leaves (pos + 1) count

/-- **Tokens are read as kinds**, one after the other. -/
def ReadAs (stands : Nat → κ → Prop) : List κ → Nat → Prop
  | [], _ => True
  | kind :: kinds, pos => stands pos kind ∧ ReadAs stands kinds (pos + 1)

theorem derivation_terminals_iff {kinds : List κ} :
    Derivation g stands (kinds.map .terminal) trees pos stop
      ↔ trees = leaves pos kinds.length ∧ stop = pos + kinds.length ∧ ReadAs stands kinds pos := by
  induction kinds generalizing trees pos with
  | nil =>
    rw [List.map_nil, derivation_nil_iff, eq_comm (a := pos)]
    exact and_congr_right fun _ => (and_iff_left trivial).symm
  | cons kind kinds ih =>
    simp only [List.map_cons, derivation_terminal_iff, ih, leaves, ReadAs, List.length_cons]
    constructor
    · rintro ⟨_, rfl, stand, rfl, rfl, others⟩
      exact ⟨rfl, by omega, stand, others⟩
    · rintro ⟨rfl, rfl, stand, others⟩
      exact ⟨_, rfl, stand, rfl, by omega, others⟩

/-! ## Names that double -/

variable {name : String} {separators : List κ} {atom : κ}

/-- **A name that doubles**: it is an atom, or itself twice with separators between. -/
def doubling (name : String) (separators : List κ) (atom : κ) : Grammar κ :=
  .ofList name
    [⟨name, .nonterminal name :: (separators.map .terminal ++ [.nonterminal name])⟩,
      ⟨name, [.terminal atom]⟩]

namespace Doubling

theorem mem_productionsOf_iff {id : ProdId} :
    id ∈ (doubling name separators atom).productionsOf name ↔ id = 0 ∨ id = 1 := by
  rw [doubling, Grammar.mem_productionsOf_ofList]
  constructor
  · rintro ⟨p, place, -⟩
    exact Nat.le_one_iff_eq_zero_or_eq_one.1
      (Nat.le_of_lt_succ (List.getElem?_eq_some_iff.1 place).1)
  · rintro (rfl | rfl)
    · exact ⟨_, rfl, rfl⟩
    · exact ⟨_, rfl, rfl⟩

theorem mem_productionsOf_of_lt {id : ProdId}
    (known : id < (doubling name separators atom).productions.size) :
    id ∈ (doubling name separators atom).productionsOf name :=
  mem_productionsOf_iff.2 (Nat.le_one_iff_eq_zero_or_eq_one.1 (Nat.le_of_lt_succ known))

theorem mem_of_mem_symbols {id : ProdId} {kind : κ}
    (mem : .terminal kind ∈ (doubling name separators atom).symbols id) :
    kind ∈ atom :: separators := by
  obtain ⟨p, rule, there⟩ := Grammar.exists_of_mem_symbols mem
  rcases List.mem_pair.1 rule with rfl | rfl
  · exact List.mem_cons_of_mem _ (by simpa using there)
  · exact List.mem_cons.2 (.inl (by simpa using there))

/-- **A derivation is an atom**, or two derivations with separators between. -/
theorem derivation_iff :
    Derivation (doubling name separators atom) stands [.nonterminal name] [tree] pos stop
      ↔ (tree = .node 1 [.leaf pos] ∧ stands pos atom ∧ stop = pos + 1)
        ∨ ∃ left mid right,
          tree = .node 0 (left :: (leaves mid separators.length ++ [right]))
            ∧ Derivation (doubling name separators atom) stands [.nonterminal name] [left] pos mid
            ∧ ReadAs stands separators mid
            ∧ Derivation (doubling name separators atom) stands [.nonterminal name] [right]
                (mid + separators.length) stop := by
  rw [derivation_rule_iff]
  simp only [mem_productionsOf_iff, or_and_right, exists_or, exists_eq_left]
  rw [or_comm]
  refine or_congr ?_ ?_
  · change (∃ children, tree = .node 1 children
      ∧ Derivation (doubling name separators atom) stands [.terminal atom] children pos stop) ↔ _
    simp only [derivation_terminal_iff, derivation_nil_iff]
    constructor
    · rintro ⟨_, rfl, _, rfl, stand, rfl, rfl⟩
      exact ⟨rfl, stand, rfl⟩
    · rintro ⟨rfl, stand, rfl⟩
      exact ⟨_, rfl, _, rfl, stand, rfl, rfl⟩
  · change (∃ children, tree = .node 0 children
      ∧ Derivation (doubling name separators atom) stands
          (.nonterminal name :: (separators.map .terminal ++ [.nonterminal name])) children pos
          stop) ↔ _
    constructor
    · rintro ⟨_, rfl, row⟩
      obtain ⟨left, _, mid, rfl, first, behind⟩ := derivation_nonterminal_iff.1 row
      obtain ⟨_, _, _, rfl, tokens, last⟩ := derivation_append_iff.1 behind
      obtain ⟨rfl, rfl, between⟩ := derivation_terminals_iff.1 tokens
      obtain ⟨right, rfl⟩ := last.exists_eq_singleton
      exact ⟨left, mid, right, rfl, first, between, last⟩
    · rintro ⟨left, mid, right, rfl, first, between, last⟩
      exact ⟨_, rfl, derivation_nonterminal_iff.2 ⟨left, _, mid, rfl, first,
        derivation_append_iff.2 ⟨_, _, _, rfl, derivation_terminals_iff.2 ⟨rfl, rfl, between⟩,
          last⟩⟩⟩

end Doubling

/-! ## Chains -/

/-- The place of an atom of a chain with as many separators between two atoms. -/
def atomPlace (gap i : Nat) : Nat := i * (gap + 1)

@[simp] theorem atomPlace_zero : atomPlace gap 0 = 0 := Nat.zero_mul _

theorem atomPlace_succ : atomPlace gap (i + 1) = atomPlace gap i + 1 + gap := by
  rw [atomPlace, atomPlace, Nat.succ_mul]
  omega

theorem atomPlace_strictMono : StrictMono (atomPlace gap) :=
  strictMono_nat_of_lt_succ fun i => by
    rw [atomPlace_succ]
    omega

theorem atomPlace_inj {j : Nat} : atomPlace gap i = atomPlace gap j ↔ i = j :=
  atomPlace_strictMono.injective.eq_iff

/-- **A chain of atoms** with separators between them: each atom is at its place and no atom is
anywhere else. -/
structure Chain (stands : Nat → κ → Prop) (separators : List κ) (atom : κ) (count : Nat) :
    Prop where
  atom_iff : ∀ pos, stands pos atom ↔ ∃ i < count, pos = atomPlace separators.length i
  separated : ∀ i, i + 1 < count → ReadAs stands separators (atomPlace separators.length i + 1)

/-- **The tree of a bracketing** that begins with the given atom: an inner node is a row of
separators between two bracketings. -/
def bracketing (gap : Nat) : BinaryTree Unit → Nat → Tree
  | .nil, i => .node 1 [.leaf (atomPlace gap i)]
  | .node _ left right, i =>
    .node 0 (bracketing gap left i :: (leaves (atomPlace gap (i + left.numNodes) + 1) gap
      ++ [bracketing gap right (i + left.numNodes + 1)]))

/-- **A bracketing is known by its tree**, and so is the atom that it begins with. -/
theorem bracketing_inj {shape shape' : BinaryTree Unit} {i' : Nat} :
    bracketing gap shape i = bracketing gap shape' i' ↔ shape = shape' ∧ i = i' := by
  constructor
  · intro same
    induction shape generalizing shape' i i' with
    | nil =>
      cases shape' with
      | nil =>
        obtain ⟨-, leaf⟩ := Tree.node.inj same
        exact ⟨rfl, atomPlace_inj.1 (Tree.leaf.inj (List.cons.inj leaf).1)⟩
      | node => exact nomatch (Tree.node.inj same).1
    | node _ left right ihLeft ihRight =>
      cases shape' with
      | nil => exact nomatch (Tree.node.inj same).1
      | node _ left' right' =>
        obtain ⟨head, tail⟩ := List.cons.inj (Tree.node.inj same).2
        obtain ⟨rfl, rfl⟩ := ihLeft head
        obtain ⟨rfl, -⟩ := ihRight (List.cons.inj (List.append_cancel_left tail)).1
        exact ⟨rfl, rfl⟩
  · rintro ⟨rfl, rfl⟩
    rfl

/-- The bracketing that groups to the right. -/
def rightComb : Nat → BinaryTree Unit
  | 0 => .nil
  | m + 1 => .node () .nil (rightComb m)

/-- The bracketing that groups to the left. -/
def leftComb : Nat → BinaryTree Unit
  | 0 => .nil
  | m + 1 => .node () (leftComb m) .nil

@[simp] theorem numNodes_rightComb : (rightComb m).numNodes = m := by
  induction m with
  | zero => rfl
  | succ m ih => rw [rightComb, BinaryTree.numNodes, ih, BinaryTree.numNodes, Nat.zero_add]

@[simp] theorem numNodes_leftComb : (leftComb m).numNodes = m := by
  induction m with
  | zero => rfl
  | succ m ih => rw [leftComb, BinaryTree.numNodes, ih, BinaryTree.numNodes, Nat.add_zero]

namespace Chain

variable (chain : Chain stands separators atom count)

include chain

/-- **Every bracketing is a derivation.** -/
theorem derivation_bracketing {shape : BinaryTree Unit} (bound : i + shape.numNodes < count) :
    Derivation (doubling name separators atom) stands [.nonterminal name]
      [bracketing separators.length shape i] (atomPlace separators.length i)
      (atomPlace separators.length (i + shape.numNodes) + 1) := by
  induction shape generalizing i with
  | nil => exact Doubling.derivation_iff.2 (.inl ⟨rfl, (chain.atom_iff _).2 ⟨i, bound, rfl⟩, rfl⟩)
  | node _ left right ihLeft ihRight =>
    rw [BinaryTree.numNodes] at bound ⊢
    have last := ihRight (i := i + left.numNodes + 1) (by omega)
    rw [atomPlace_succ, show i + left.numNodes + 1 + right.numNodes
      = i + (left.numNodes + right.numNodes + 1) by omega] at last
    exact Doubling.derivation_iff.2 (.inr ⟨_, _, _, rfl, ihLeft (by omega),
      chain.separated _ (by omega), last⟩)

/-- **Every derivation is a bracketing** of the atoms of a stretch. -/
theorem exists_bracketing (h : Derivation (doubling name separators atom) stands
      [.nonterminal name] [tree] pos stop) :
    ∃ shape i, i + shape.numNodes < count ∧ pos = atomPlace separators.length i
      ∧ stop = atomPlace separators.length (i + shape.numNodes) + 1
      ∧ tree = bracketing separators.length shape i := by
  -- The derivation is taken apart by its tree: the operands are smaller, and as the separators
  -- stand between them, the second begins with the atom behind the last one of the first.
  induction size : sizeOf tree using Nat.strongRecOn generalizing tree pos stop with
  | ind _ ih =>
    rcases Doubling.derivation_iff.1 h with
      ⟨rfl, stand, rfl⟩ | ⟨left, mid, right, rfl, first, -, last⟩
    · obtain ⟨i, bound, rfl⟩ := (chain.atom_iff pos).1 stand
      exact ⟨.nil, i, bound, rfl, rfl, rfl⟩
    · have smaller := Forest.sizeOf_lt_sizeOf_node 0
        (List.mem_cons_self (a := left) (l := leaves mid separators.length ++ [right]))
      have smaller' := Forest.sizeOf_lt_sizeOf_node 0 (List.mem_cons_of_mem left
        (List.mem_append_right (leaves mid separators.length) (List.mem_singleton_self right)))
      obtain ⟨shape, i, -, rfl, rfl, rfl⟩ := ih _ (size ▸ smaller) first rfl
      obtain ⟨shape', j, bound, place, rfl, rfl⟩ := ih _ (size ▸ smaller') last rfl
      rw [← atomPlace_succ, atomPlace_inj] at place
      subst place
      refine ⟨.node () shape shape', i, ?_, rfl, ?_, rfl⟩
      · rw [BinaryTree.numNodes]
        omega
      · rw [BinaryTree.numNodes, ← Nat.add_assoc, ← Nat.add_assoc]
        congr 2
        omega

/-- **The derivations of a stretch of the chain** are the bracketings of its atoms. -/
theorem derivation_iff (bound : i + m < count) :
    Derivation (doubling name separators atom) stands [.nonterminal name] [tree]
        (atomPlace separators.length i) (atomPlace separators.length (i + m) + 1)
      ↔ ∃ shape : BinaryTree Unit, shape.numNodes = m
          ∧ bracketing separators.length shape i = tree := by
  constructor
  · intro h
    obtain ⟨shape, j, -, start, stop, rfl⟩ := chain.exists_bracketing h
    obtain rfl := atomPlace_inj.1 start
    have ends := atomPlace_inj.1 (Nat.succ.inj stop)
    exact ⟨shape, by omega, rfl⟩
  · rintro ⟨shape, rfl, rfl⟩
    exact chain.derivation_bracketing bound

/-- **There are Catalan many** for a stretch. -/
theorem encard_trees (bound : i + m < count) :
    {tree | Derivation (doubling name separators atom) stands [.nonterminal name] [tree]
        (atomPlace separators.length i) (atomPlace separators.length (i + m) + 1)}.encard
      = catalan m := by
  have image : {tree | Derivation (doubling name separators atom) stands [.nonterminal name] [tree]
      (atomPlace separators.length i) (atomPlace separators.length (i + m) + 1)}
        = (bracketing separators.length · i) '' {shape : BinaryTree Unit | shape.numNodes = m} := by
    ext tree
    exact chain.derivation_iff bound
  have injective : Function.Injective (bracketing separators.length · i) :=
    fun _ _ same => (bracketing_inj.1 same).1
  rw [image, injective.encard_image, ← BinaryTree.coe_treesOfNumNodesEq,
    Set.encard_coe_eq_coe_finsetCard, BinaryTree.treesOfNumNodesEq_card_eq_catalan]

end Chain

end Earley
