import Earley.Proofs.Grammar.Derivation

/-!
# Proofs/Grammar/Tree — derivation trees

A tree has productions at its inner nodes and indices of tokens at its leaves.  `Derivation` lays
the trees of a list of symbols over the tokens, as `Derives` lays the symbols alone; that a stretch
is derived means that it has trees (`derives_iff_exists_derivation`).  Trees know where they end:
`Derivation.stop_eq`.
-/

namespace Earley

universe u

variable {κ : Type u}

/-- **A derivation tree**: a token, or a production over the trees of its symbols. -/
inductive Tree where
  | leaf (index : Nat)
  | node (production : ProdId) (children : List Tree)

/-- **The trees derive the symbols** over the tokens from the first position up to the second. -/
inductive Derivation (g : Grammar κ) (stands : Nat → κ → Prop) :
    List (Symbol κ) → List Tree → Nat → Nat → Prop
  | nil (pos : Nat) : Derivation g stands [] [] pos pos
  | leaf {kind : κ} {rest : List (Symbol κ)} {trees : List Tree} {pos stop : Nat}
      (stand : stands pos kind) (tail : Derivation g stands rest trees (pos + 1) stop) :
      Derivation g stands (.terminal kind :: rest) (.leaf pos :: trees) pos stop
  | node {name : String} {id : ProdId} {rest : List (Symbol κ)} {children trees : List Tree}
      {pos mid stop : Nat} (rule : id ∈ g.productionsOf name)
      (head : Derivation g stands (g.symbols id) children pos mid)
      (tail : Derivation g stands rest trees mid stop) :
      Derivation g stands (.nonterminal name :: rest) (.node id children :: trees) pos stop

variable {g : Grammar κ} {stands : Nat → κ → Prop} {symbols : List (Symbol κ)}
  {trees : List Tree} {pos stop : Nat}

namespace Derivation

theorem derives (h : Derivation g stands symbols trees pos stop) :
    Derives g stands symbols pos stop := by
  induction h with
  | nil pos => exact .nil pos
  | leaf stand _ ih => exact .terminal stand ih
  | node rule _ _ ihHead ihTail => exact .nonterminal rule ihHead ihTail

/-- A tree stays a derivation where its tokens may be read as more kinds. -/
theorem mono {stands' : Nat → κ → Prop} (h : Derivation g stands symbols trees pos stop)
    (imp : ∀ index kind, stands index kind → stands' index kind) :
    Derivation g stands' symbols trees pos stop := by
  induction h with
  | nil pos => exact .nil pos
  | leaf stand _ ih => exact .leaf (imp _ _ stand) ih
  | node rule _ _ ihHead ihTail => exact .node rule ihHead ihTail

theorem singleton_node {name : String} {id : ProdId} (rule : id ∈ g.productionsOf name)
    (head : Derivation g stands (g.symbols id) trees pos stop) :
    Derivation g stands [.nonterminal name] [.node id trees] pos stop :=
  .node rule head (.nil _)

/-- The tree of a nonterminal is a production of its name over trees of the symbols. -/
theorem exists_node {name : String} {tree : Tree}
    (h : Derivation g stands [.nonterminal name] [tree] pos stop) :
    ∃ id ∈ g.productionsOf name, ∃ children, tree = .node id children
      ∧ Derivation g stands (g.symbols id) children pos stop := by
  cases h with
  | node rule head tail =>
    obtain ⟨⟩ := tail
    exact ⟨_, rule, _, rfl, head⟩

/-- **A leaf stands for a terminal**, at the same place among the symbols as among the trees. -/
theorem exists_kind (h : Derivation g stands symbols trees pos stop) {place index : Nat}
    (leaf : trees[place]? = some (.leaf index)) :
    ∃ kind, symbols[place]? = some (.terminal kind) ∧ stands index kind := by
  induction h generalizing place with
  | nil => exact nomatch leaf
  | @leaf kind _ _ _ _ stand _ ih =>
    cases place with
    | zero =>
      obtain rfl := Tree.leaf.inj (Option.some.inj leaf)
      exact ⟨kind, rfl, stand⟩
    | succ place => exact ih leaf
  | node _ _ _ _ ih =>
    cases place with
    | zero => exact nomatch Option.some.inj leaf
    | succ place => exact ih leaf

/-- **Trees know where they end**, whatever symbols they derive. -/
theorem stop_eq {symbols' : List (Symbol κ)} {stop' : Nat}
    (h : Derivation g stands symbols trees pos stop)
    (h' : Derivation g stands symbols' trees pos stop') : stop = stop' := by
  induction h generalizing symbols' stop' with
  | nil pos =>
    obtain ⟨⟩ := h'
    rfl
  | leaf _ _ ih =>
    cases h' with
    | leaf _ tail => exact ih tail
  | node _ _ _ ihHead ihTail =>
    cases h' with
    | node _ head tail =>
      obtain rfl := ihHead head
      exact ihTail tail

end Derivation

/-! ## The first symbol -/

theorem derivation_nil_iff : Derivation g stands [] trees pos stop ↔ trees = [] ∧ pos = stop := by
  constructor
  · rintro ⟨⟩
    exact ⟨rfl, rfl⟩
  · rintro ⟨rfl, rfl⟩
    exact .nil pos

theorem derivation_terminal_iff {kind : κ} :
    Derivation g stands (.terminal kind :: symbols) trees pos stop
      ↔ ∃ rest, trees = .leaf pos :: rest ∧ stands pos kind
        ∧ Derivation g stands symbols rest (pos + 1) stop := by
  constructor
  · intro h
    cases h with
    | leaf stand tail => exact ⟨_, rfl, stand, tail⟩
  · rintro ⟨rest, rfl, stand, tail⟩
    exact .leaf stand tail

theorem derivation_nonterminal_iff {name : String} :
    Derivation g stands (.nonterminal name :: symbols) trees pos stop
      ↔ ∃ tree rest mid, trees = tree :: rest
        ∧ Derivation g stands [.nonterminal name] [tree] pos mid
        ∧ Derivation g stands symbols rest mid stop := by
  constructor
  · intro h
    cases h with
    | node rule head tail => exact ⟨_, _, _, rfl, .singleton_node rule head, tail⟩
  · rintro ⟨tree, rest, mid, rfl, head, tail⟩
    obtain ⟨id, rule, children, rfl, inner⟩ := head.exists_node
    exact .node rule inner tail

theorem derivation_rule_iff {name : String} {tree : Tree} :
    Derivation g stands [.nonterminal name] [tree] pos stop
      ↔ ∃ id ∈ g.productionsOf name, ∃ children, tree = .node id children
        ∧ Derivation g stands (g.symbols id) children pos stop := by
  refine ⟨Derivation.exists_node, ?_⟩
  rintro ⟨id, rule, children, rfl, inner⟩
  exact .singleton_node rule inner

/-- **To be derived is to have trees.** -/
theorem derives_iff_exists_derivation :
    Derives g stands symbols pos stop ↔ ∃ trees, Derivation g stands symbols trees pos stop := by
  refine ⟨fun h => ?_, fun ⟨_, h⟩ => h.derives⟩
  induction h with
  | nil pos => exact ⟨[], .nil pos⟩
  | terminal stand _ ih =>
    obtain ⟨trees, tail⟩ := ih
    exact ⟨_, .leaf stand tail⟩
  | nonterminal rule _ _ ihHead ihTail =>
    obtain ⟨children, head⟩ := ihHead
    obtain ⟨trees, tail⟩ := ihTail
    exact ⟨_, .node rule head tail⟩

end Earley
