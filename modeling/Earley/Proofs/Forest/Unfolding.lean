import Earley.Proofs.Forest.Packing

/-!
# Proofs/Forest/Unfolding — the trees of a forest are the derivation trees of the input

An unfolding of a forest picks one of the branches of every node that it visits, by its number; a
node that is visited twice may be given two branches, and a forest with a cycle has unfoldings
without bound.  Each unfolding is a derivation (`Unfolds.along`), and where a forest packs the
derivations, each derivation below a node comes from one unfolding (`Packs.exists_unfolds`) and from
no other (`Unfolds.unique`).
-/

namespace Earley

universe u v

variable {κ : Type u}

/-- **A finite unfolding**: a token, or a node with the number of the branch that was picked there
over the unfoldings of its children. -/
inductive Unfolding where
  | token (index : Nat)
  | node (id : NodeId) (choice : Nat) (children : List Unfolding)

namespace Forest

/-- **The children unfold** to trees: a token to its leaf, a node to its production over what the
children of the picked branch unfold to. -/
inductive Unfolds (f : Forest κ) : Branch → List Unfolding → List Tree → Prop
  | nil : Unfolds f [] [] []
  | token {index : Nat} {branch : Branch} {unfoldings : List Unfolding} {trees : List Tree}
      (tail : Unfolds f branch unfoldings trees) :
      Unfolds f (.token index :: branch) (.token index :: unfoldings) (.leaf index :: trees)
  | node {id : NodeId} {production : ProdId} {start stop : Nat} {branches : List Branch}
      {choice : Nat} {picked branch : Branch} {inner unfoldings : List Unfolding}
      {children trees : List Tree} (place : f.nodes[id]? = some ⟨production, start, stop, branches⟩)
      (pick : branches[choice]? = some picked) (below : Unfolds f picked inner children)
      (tail : Unfolds f branch unfoldings trees) :
      Unfolds f (.node id :: branch) (.node id choice inner :: unfoldings)
        (.node production children :: trees)

variable {f : Forest κ} {stands : Nat → κ → Prop} {branch : Branch}
  {unfoldings unfoldings' : List Unfolding} {trees : List Tree}

/-- **What children unfold to lies along them.** -/
theorem Unfolds.along (packs : f.Packs stands) (h : f.Unfolds branch unfoldings trees) :
    f.Along stands branch trees := by
  induction h with
  | nil => exact .nil
  | token _ ih => exact .cons (.token _) ih
  | node place pick _ _ ihBelow ihTail =>
    refine .cons (.node ⟨_, place, _, rfl, ?_⟩) ihTail
    exact ((packs.node _ _ place).derivation_iff _).2 ⟨_, List.mem_of_getElem? pick, ihBelow⟩

/-- **Children unfold to whatever lies along them.**  The induction is on the derivation; the branch
to pick at a node is the one along which the trees of its symbols lie. -/
theorem Packs.exists_unfolds (packs : f.Packs stands) {symbols : List (Symbol κ)} {pos stop : Nat}
    (derivation : Derivation f.grammar stands symbols trees pos stop)
    (along : f.Along stands branch trees) : ∃ unfoldings, f.Unfolds branch unfoldings trees := by
  induction derivation generalizing branch with
  | nil pos =>
    obtain ⟨⟩ := along
    exact ⟨[], .nil⟩
  | leaf _ _ ih =>
    cases along with
    | cons first rest =>
      obtain ⟨unfoldings, tail⟩ := ih rest
      cases first with
      | token index => exact ⟨_, .token tail⟩
      | node below =>
        obtain ⟨_, _, _, same, _⟩ := below
        obtain ⟨⟩ := same
  | @node name id _ children _ pos mid stop rule head _ ihHead ihTail =>
    cases along with
    | cons first rest =>
      obtain ⟨unfoldings, tail⟩ := ihTail rest
      cases first with
      | node below =>
        obtain ⟨node, place, _, same, derivation⟩ := below
        obtain ⟨rfl, rfl⟩ := Tree.node.inj same
        obtain ⟨picked, mem, alongPicked⟩ :=
          ((packs.node _ _ place).derivation_iff _).1 derivation
        obtain ⟨inner, below⟩ := ihHead alongPicked
        obtain ⟨choice, pick⟩ := List.mem_iff_getElem?.1 mem
        exact ⟨_, .node place pick below tail⟩

/-- **Children unfold to given trees in one way only.** -/
theorem Unfolds.unique (packs : f.Packs stands) (h : f.Unfolds branch unfoldings trees)
    (h' : f.Unfolds branch unfoldings' trees) : unfoldings = unfoldings' := by
  induction h generalizing unfoldings' with
  | nil =>
    obtain ⟨⟩ := h'
    rfl
  | token _ ih =>
    cases h' with
    | token tail' => rw [ih tail']
  | @node id production start stop branches choice picked _ _ _ children _ place pick below _
      ihBelow ihTail =>
    cases h' with
    | @node _ _ _ _ branches' choice' picked' _ _ _ _ _ place' pick' below' tail' =>
      obtain ⟨-, rfl, rfl, rfl⟩ := Node.mk.inj (Option.some.inj (place.symm.trans place'))
      have packed := packs.node id _ place
      obtain rfl := packed.branch_eq picked (List.mem_of_getElem? pick) picked'
        (List.mem_of_getElem? pick') children (below.along packs) (below'.along packs)
      have bound := (List.getElem?_eq_some_iff.1 pick).1
      obtain rfl := (List.getElem?_inj bound packed.nodup).1 (pick.trans pick'.symm)
      rw [ihBelow below', ihTail tail']

/-- **The unfoldings of a node** make the trees below it. -/
theorem Packs.exists_unfolds_iff (packs : f.Packs stands) {id : NodeId} {tree : Tree} :
    (∃ unfolding, f.Unfolds [.node id] [unfolding] [tree]) ↔ tree ∈ f.treesBelow stands id := by
  constructor
  · rintro ⟨unfolding, unfolds⟩
    exact Child.covers_node_iff.1 (List.forall₂_cons.1 (unfolds.along packs)).1
  · intro mem
    have along : f.Along stands [.node id] [tree] := .cons (.node mem) .nil
    obtain ⟨node, place, children, rfl, derivation⟩ := mem
    have rule := Grammar.mem_productionsOf_name (packs.node id node place).derived.production_lt
    obtain ⟨unfoldings, unfolds⟩ := packs.exists_unfolds (.singleton_node rule derivation) along
    cases unfolds with
    | node place pick below tail =>
      obtain ⟨⟩ := tail
      exact ⟨_, .node place pick below .nil⟩

end Forest

/-- **Forest exactness.**  The forest of a parse has the tokens of the chart.  Its roots, none
listed twice, are nodes over all of them; their unfoldings are the derivation trees of the entry
over the whole input, with the tokens as they were read; and every such tree comes from a single
root and a single selection of branches. -/
theorem unfoldings_of_parse [DecidableEq κ] {σ : Type v} {g : Grammar κ}
    {tokenizer : Tokenizer κ σ} {equals : String → κ → Bool} {state : σ} {f : Forest κ}
    (h : parse g tokenizer equals state = .ok f) :
    let chart := (recognize g tokenizer equals state).chart
    f.tokens = chart.tokens
      ∧ (∀ root ∈ f.roots, ∃ node, f.nodes[root]? = some node
          ∧ node.start = 0 ∧ node.stop = chart.tokens.size)
      ∧ f.roots.Nodup
      ∧ (∀ tree, (∃ root ∈ f.roots, ∃ unfolding, f.Unfolds [.node root] [unfolding] [tree]) ↔
          Derivation g chart.Reads [.nonterminal g.entry] [tree] 0 chart.tokens.size)
      ∧ ∀ tree, Derivation g chart.Reads [.nonterminal g.entry] [tree] 0 chart.tokens.size →
          ∃! way : NodeId × Unfolding,
            way.1 ∈ f.roots ∧ f.Unfolds [.node way.1] [way.2] [tree] := by
  intro chart
  have packs : f.Packs chart.Reads := Forest.packs_parse h
  obtain rfl : f = .ofChart g chart := (parse_eq_ok_iff.1 h).2
  refine ⟨rfl, fun root mem => ?_, packs.nodup_roots, fun tree => ?_, fun tree derivation => ?_⟩
  · obtain ⟨node, place, -, start, stop⟩ := packs.root root mem
    exact ⟨node, place, start, stop⟩
  · refine Iff.trans ?_ packs.exists_root_iff
    exact exists_congr fun root => and_congr_right fun _ => packs.exists_unfolds_iff
  · obtain ⟨root, mem, below⟩ := packs.exists_root tree derivation
    obtain ⟨unfolding, unfolds⟩ := packs.exists_unfolds_iff.2 below
    refine ⟨(root, unfolding), ⟨mem, unfolds⟩, ?_⟩
    rintro ⟨root', unfolding'⟩ ⟨mem', unfolds'⟩
    have below' := packs.exists_unfolds_iff.1 ⟨unfolding', unfolds'⟩
    obtain rfl := packs.root_eq root mem root' mem' tree below below'
    rw [Prod.mk.injEq]
    exact ⟨rfl, (List.cons.inj (unfolds'.unique packs unfolds)).1⟩

/-- A grammar in which `S` derives itself. -/
def looping : Grammar String :=
  .ofList "S" [⟨"S", [.nonterminal "S"]⟩, ⟨"S", [.terminal "a"]⟩]

/-- Loops through `S`, as many as `depth`, over the token `a`. -/
def Tree.loops : Nat → Tree
  | 0 => .node 1 [.leaf 0]
  | depth + 1 => .node 0 [loops depth]

/-- One token has derivations without bound, and each of them one selection of branches. -/
theorem unfoldings_of_parse_looping :
    ∃ f, parse looping (.ofList String) (· == ·) [⟨"a", "a", 0, 1⟩] = .ok f ∧ ∀ depth,
      ∃! way : NodeId × Unfolding,
        way.1 ∈ f.roots ∧ f.Unfolds [.node way.1] [way.2] [Tree.loops depth] := by
  have run : (recognize looping (.ofList String) (· == ·) [⟨"a", "a", 0, 1⟩]).error? = none
      ∧ (recognize looping (.ofList String) (· == ·) [⟨"a", "a", 0, 1⟩]).chart.tokens.size = 1
      ∧ "a" ∈ (recognize looping (.ofList String) (· == ·)
          [⟨"a", "a", 0, 1⟩]).chart.accepted.getD 0 [] := by decide +kernel
  obtain ⟨done, size, reads⟩ := run
  have ok := parse_eq_ok_iff.2 ⟨done, rfl⟩
  obtain ⟨-, -, -, -, unique⟩ := unfoldings_of_parse ok
  refine ⟨_, ok, fun depth => unique _ ?_⟩
  rw [size]
  induction depth with
  | zero => exact .singleton_node (by decide) (.leaf reads (.nil 1))
  | succ depth ih => exact .singleton_node (by decide) ih

end Earley
