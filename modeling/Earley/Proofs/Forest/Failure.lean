import Earley.Proofs.Forest.Acceptance

/-!
# Proofs/Forest/Failure — when evaluation has a value, and why it has none

A resolution may be that of another forest: it may name nodes that this one lacks and branches out
of range, leave nodes open, and loop.  Evaluation comes to a value exactly if the picks lead to
nodes with a picked branch only and never back (`evaluate_isOk_iff`); the error that it comes to
otherwise is true of a node that they lead to (`evaluate_fault`).

A run may as well keep the nodes that it is in as one set, put in where a node is entered and taken
out where it is left with a value (`Forest.Reduces`).  It may leave nodes in the set when it fails,
but then nothing reads the set any more; so it comes to the same.
-/

namespace Earley

universe u v w

variable {κ : Type u} {V : Type v}

namespace Forest

variable {f : Forest κ} {sem : Semantics κ V} {r : Resolution} {picks : Picks}
  {path : List NodeId} {root id : NodeId} {node : Node} {branch children : Branch}
  {done made : Array (Reduction V)} {error : EvalError}

/-! ## Faults -/

/-- **What an error says**, of picks that are followed from a node on. -/
inductive Fault (f : Forest κ) (picks : Picks) (root : NodeId) : EvalError → Prop
  | unresolved {id : NodeId} (reaches : f.Reaches picks root id) (unpicked : picks id = none) :
      Fault f picks root (.unresolved id)
  | loop {id : NodeId} (reaches : f.Reaches picks root id)
      (back : Relation.TransGen (f.Leads picks) id id) : Fault f picks root (.loop id)
  | missing {id : NodeId} (reaches : f.Reaches picks root id) (absent : f.nodes[id]? = none) :
      Fault f picks root (.missing id)
  | noBranch {id : NodeId} {index : Nat} {node : Node} (reaches : f.Reaches picks root id)
      (pick : picks id = some index) (place : f.nodes[id]? = some node)
      (beyond : node.branches.length ≤ index) : Fault f picks root (.noBranch id index)
  | noToken {id : NodeId} {index : Nat} {branch : Branch} (reaches : f.Reaches picks root id)
      (pick : f.picked? picks id = some branch) (mem : .token index ∈ branch)
      (absent : f.tokens[index]? = none) : Fault f picks root (.noToken index)

/-- At a node evaluation fails by a fault, or on the children of the picked branch. -/
theorem evalNode_fault (reaches : f.Reaches r.branch? root id)
    (above : ∀ ancestor ∈ path, Relation.TransGen (f.Leads r.branch?) ancestor id)
    (fails : f.evalNode sem r path done id = ⟨made, .error error⟩) :
    f.Fault r.branch? root error ∨ ∃ branch, id ∉ path ∧ f.picked? r.branch? id = some branch
      ∧ f.evalChildren sem r (id :: path) done branch = (made, .error error) := by
  rw [evalNode] at fails
  split at fails
  case h_1 record =>
    obtain ⟨-, same⟩ := Evaluation.mk.inj fails
    exact .inl (Except.error.inj same ▸ .unresolved reaches record)
  case h_2 index record =>
    split at fails
    case isTrue on =>
      obtain ⟨-, same⟩ := Evaluation.mk.inj fails
      exact .inl (Except.error.inj same ▸ .loop reaches (above id on))
    case isFalse off =>
      split at fails
      case isFalse beyond =>
        obtain ⟨-, same⟩ := Evaluation.mk.inj fails
        exact .inl (Except.error.inj same ▸
          .missing reaches (Array.getElem?_eq_none (Nat.not_lt.1 beyond)))
      case isTrue bound =>
        have place := Array.getElem?_eq_getElem bound
        split at fails
        case h_1 beyond =>
          obtain ⟨-, same⟩ := Evaluation.mk.inj fails
          exact .inl (Except.error.inj same ▸
            .noBranch reaches record place (List.getElem?_eq_none_iff.1 beyond))
        case h_2 branch atIndex =>
          refine .inr ⟨branch, off, picked?_eq_some_iff.2 ⟨_, _, place, record, atIndex⟩, ?_⟩
          split at fails
          case h_1 made' error' same =>
            obtain ⟨rfl, result⟩ := Evaluation.mk.inj fails
            rw [same, Except.error.inj result]
          case h_2 => cases fails

/-- Where a token is present, evaluation fails on the children behind it. -/
theorem evalChildren_token_error {index : Nat} {token : Token κ}
    (place : f.tokens[index]? = some token)
    (fails : f.evalChildren sem r path done (.token index :: children) = (made, .error error)) :
    f.evalChildren sem r path done children = (made, .error error) := by
  rw [evalChildren, place] at fails
  rcases rest : f.evalChildren sem r path done children with ⟨made', error' | values⟩
  · simp only [rest, Except.map] at fails
    rw [(Prod.mk.inj fails).1, Except.error.inj (Prod.mk.inj fails).2]
  · simp only [rest, Except.map] at fails
    cases fails

/-- Where a node stands first, evaluation fails there or on the children behind it. -/
theorem evalChildren_node_error
    (fails : f.evalChildren sem r path done (.node id :: children) = (made, .error error)) :
    f.evalNode sem r path done id = ⟨made, .error error⟩
      ∨ ∃ done', f.evalChildren sem r path done' children = (made, .error error) := by
  rw [evalChildren] at fails
  rcases first : f.evalNode sem r path done id with ⟨done', error' | value⟩
  · simp only [first] at fails
    rw [(Prod.mk.inj fails).1, Except.error.inj (Prod.mk.inj fails).2]
    exact .inl rfl
  · refine .inr ⟨done', ?_⟩
    rcases rest : f.evalChildren sem r path done' children with ⟨made', error' | values⟩
    · simp only [first, rest, Except.map] at fails
      rw [(Prod.mk.inj fails).1, Except.error.inj (Prod.mk.inj fails).2]
    · simp only [first, rest, Except.map] at fails
      cases fails

/-- **Evaluation of the children of a node fails by a fault.**  The induction is on the nodes off
the path, and inside it on the children. -/
theorem evalChildren_fault (reaches : f.Reaches r.branch? root id)
    (pick : f.picked? r.branch? id = some branch)
    (above : ∀ ancestor ∈ path, Relation.TransGen (f.Leads r.branch?) ancestor id)
    (sub : children ⊆ branch)
    (fails : f.evalChildren sem r (id :: path) done children = (made, .error error)) :
    f.Fault r.branch? root error := by
  induction size : offPath f.nodes.size (id :: path) using Nat.strongRecOn
    generalizing path done children made id branch with
  | ind _ outer =>
    induction children generalizing done with
    | nil =>
      rw [evalChildren] at fails
      cases fails
    | cons child children inner =>
      obtain ⟨mem, others⟩ := List.cons_subset.1 sub
      cases child with
      | token index =>
        cases place : f.tokens[index]? with
        | none =>
          rw [evalChildren, place] at fails
          obtain ⟨-, same⟩ := Prod.mk.inj fails
          exact Except.error.inj same ▸ .noToken reaches pick mem place
        | some token => exact inner others (evalChildren_token_error place fails)
      | node below =>
        rcases evalChildren_node_error fails with first | ⟨done', rest⟩
        · have leads : f.Leads r.branch? id below := ⟨branch, pick, mem⟩
          have above' : ∀ ancestor ∈ id :: path,
              Relation.TransGen (f.Leads r.branch?) ancestor below :=
            List.forall_mem_cons.2 ⟨.single leads, fun other on => (above other on).tail leads⟩
          rcases evalNode_fault (reaches.tail leads) above' first with
            fault | ⟨branch', off, pick', fails'⟩
          · exact fault
          · have fewer := offPath_cons_lt (lt_size_of_picked pick') off
            exact outer _ (size ▸ fewer) (reaches.tail leads) pick' above'
              (List.Subset.refl branch') fails' rfl
        · exact inner others rest

/-- **An evaluation that fails names a fault.** -/
theorem evaluate_fault (fails : (f.evaluate sem r root).result = .error error) :
    f.Fault r.branch? root error := by
  rcases evaluation : f.evaluate sem r root with ⟨made, result⟩
  obtain rfl : result = .error error := by rwa [evaluation] at fails
  rcases evalNode_fault .refl (fun _ on => absurd on List.not_mem_nil) evaluation with
    fault | ⟨branch, -, pick, fails⟩
  · exact fault
  · exact evalChildren_fault .refl pick (fun _ on => absurd on List.not_mem_nil)
      (List.Subset.refl branch) fails

/-- **Where all nodes are resolved**, the faults left are loops and missing tokens. -/
theorem Fault.of_resolves (h : f.Fault picks root error) (resolves : f.Resolves picks root) :
    (∃ id, error = .loop id) ∨ ∃ id branch index, f.picked? picks id = some branch
      ∧ .token index ∈ branch ∧ f.tokens[index]? = none := by
  have picked : ∀ id, f.Reaches picks root id → ∃ node index, f.nodes[id]? = some node
      ∧ picks id = some index ∧ index < node.branches.length := by
    intro id reaches
    obtain ⟨branch, pick⟩ := resolves id reaches
    obtain ⟨node, index, place, record, atIndex⟩ := picked?_eq_some_iff.1 pick
    exact ⟨node, index, place, record, (List.getElem?_eq_some_iff.1 atIndex).1⟩
  cases h with
  | @unresolved id reaches unpicked =>
    obtain ⟨_, _, -, record, -⟩ := picked id reaches
    cases unpicked.symm.trans record
  | @loop id _ _ => exact .inl ⟨id, rfl⟩
  | @missing id reaches absent =>
    obtain ⟨_, _, place, -, -⟩ := picked id reaches
    cases absent.symm.trans place
  | @noBranch id _ _ reaches record place beyond =>
    obtain ⟨_, _, place', record', within⟩ := picked id reaches
    obtain rfl := Option.some.inj (place.symm.trans place')
    obtain rfl := Option.some.inj (record.symm.trans record')
    exact absurd within (Nat.not_lt.2 beyond)
  | noToken _ pick mem absent => exact .inr ⟨_, _, _, pick, mem, absent⟩

/-! ## Success -/

/-- **The tokens below a node are there**, as far as the picks lead. -/
def HasTokens (f : Forest κ) (picks : Picks) (root : NodeId) : Prop :=
  ∀ id branch index, f.Reaches picks root id → f.picked? picks id = some branch →
    .token index ∈ branch → f.tokens[index]? ≠ none

section Values

variable {trees : List Tree} {tree : Tree} {values : List V} {value : V}

/-- With the trees that children follow to, each child has its tree, and its value. -/
theorem Follows.exists_valued (h : f.Follows picks children trees)
    (valued : Tree.values? sem f.tokens trees = some values) {child : Child NodeId}
    (mem : child ∈ children) :
    ∃ tree value, f.Follows picks [child] [tree] ∧ tree.value? sem f.tokens = some value := by
  induction h generalizing values with
  | nil => exact absurd mem List.not_mem_nil
  | token _ ih =>
    obtain ⟨⟨value, first⟩, _, others⟩ := Tree.exists_of_values?_cons valued
    rcases List.mem_cons.1 mem with rfl | mem
    · exact ⟨_, value, .token .nil, first⟩
    · exact ih others mem
  | node place pick below _ _ ihTail =>
    obtain ⟨⟨value, first⟩, _, others⟩ := Tree.exists_of_values?_cons valued
    rcases List.mem_cons.1 mem with rfl | mem
    · exact ⟨_, value, .node place pick below .nil, first⟩
    · exact ihTail others mem

/-- Where a node has a tree with a value, each child of its picked branch has. -/
theorem Follows.exists_valued_child (h : f.Follows picks [.node id] [tree])
    (valued : tree.value? sem f.tokens = some value) (pick : f.picked? picks id = some branch)
    {child : Child NodeId} (mem : child ∈ branch) :
    ∃ tree value, f.Follows picks [child] [tree] ∧ tree.value? sem f.tokens = some value := by
  cases h with
  | node _ pick' inner _ =>
    obtain rfl := Option.some.inj (pick.symm.trans pick')
    obtain ⟨_, values, -⟩ := Option.map_eq_some_iff.1 valued
    exact inner.exists_valued values mem

/-- **Where a node has a tree with a value, every node below it has.** -/
theorem Follows.exists_valued_of_reaches (h : f.Follows picks [.node root] [tree])
    (valued : tree.value? sem f.tokens = some value) (reaches : f.Reaches picks root id) :
    ∃ tree value, f.Follows picks [.node id] [tree] ∧ tree.value? sem f.tokens = some value := by
  induction reaches with
  | refl => exact ⟨tree, value, h, valued⟩
  | tail _ leads ih =>
    obtain ⟨_, _, follows, valued⟩ := ih
    obtain ⟨_, pick, mem⟩ := leads
    exact follows.exists_valued_child valued pick mem

theorem Follows.hasTokens (h : f.Follows picks [.node root] [tree])
    (valued : tree.value? sem f.tokens = some value) : f.HasTokens picks root := by
  intro id branch index reaches pick mem
  obtain ⟨_, _, follows, valued⟩ := h.exists_valued_of_reaches valued reaches
  obtain ⟨_, _, leaf, valued⟩ := follows.exists_valued_child valued pick mem
  cases leaf with
  | token =>
    obtain ⟨token, place, -⟩ := Option.map_eq_some_iff.1 valued
    rw [place]
    exact Option.some_ne_none token

end Values

/-- **Evaluation comes to a value** exactly if the picks lead to nodes with a picked branch, to
tokens that are there, and never back. -/
theorem evaluate_isOk_iff (f : Forest κ) (sem : Semantics κ V) (r : Resolution) (root : NodeId) :
    (∃ value, (f.evaluate sem r root).result = .ok value)
      ↔ f.Resolves r.branch? root ∧ ¬ f.Loops r.branch? root ∧ f.HasTokens r.branch? root := by
  rcases f.evaluate_cases sem r root with
    ⟨tree, value, reductions, folds, same⟩ | ⟨stuck, made, error, same⟩
  · have follows := folds.follows
    have valued := Tree.value?_of_values? folds.values_eq
    refine ⟨fun _ => ⟨follows.resolves, follows.not_loops, follows.hasTokens valued⟩, fun _ => ?_⟩
    exact ⟨value, congrArg Evaluation.result same⟩
  · constructor
    · rintro ⟨value, ok⟩
      cases (congrArg Evaluation.result same).symm.trans ok
    · rintro ⟨resolves, straight, tokens⟩
      rcases stuck.reason root rfl (fun _ on => absurd on List.not_mem_nil) with
        open_ | loops | ⟨id, branch, index, reaches, pick, mem, absent⟩
      · exact absurd resolves open_
      · exact absurd loops straight
      · exact absurd absent (tokens id branch index reaches pick mem)

/-! ## One set of active nodes -/

/-- **A run with one set of active nodes**: the children are worked out from left to right.  A node
that has a branch recorded is put into the set, unless it is there already; it is taken out when it
has its value, and stays in when the run fails below it. -/
inductive Reduces (f : Forest κ) (sem : Semantics κ V) (r : Resolution) :
    List NodeId → Branch → Option (List V) → List NodeId → Prop
  | nil {active : List NodeId} : Reduces f sem r active [] (some []) active
  | token {active after : List NodeId} {index : Nat} {token : Token κ} {children : Branch}
      {values : Option (List V)} (place : f.tokens[index]? = some token)
      (rest : Reduces f sem r active children values after) :
      Reduces f sem r active (.token index :: children) (values.map (sem.leaf token :: ·)) after
  | unresolved {active : List NodeId} {id : NodeId} {children : Branch}
      (record : r.branch? id = none) : Reduces f sem r active (.node id :: children) none active
  | loop {active : List NodeId} {id : NodeId} {index : Nat} {children : Branch}
      (record : r.branch? id = some index) (on : id ∈ active) :
      Reduces f sem r active (.node id :: children) none active
  | missing {active : List NodeId} {id : NodeId} {index : Nat} {children : Branch}
      (record : r.branch? id = some index) (off : id ∉ active) (absent : f.nodes[id]? = none) :
      Reduces f sem r active (.node id :: children) none (id :: active)
  | noBranch {active : List NodeId} {id : NodeId} {index : Nat} {node : Node} {children : Branch}
      (record : r.branch? id = some index) (off : id ∉ active) (place : f.nodes[id]? = some node)
      (beyond : node.branches[index]? = none) :
      Reduces f sem r active (.node id :: children) none (id :: active)
  | fails {active after : List NodeId} {id : NodeId} {branch children : Branch} (off : id ∉ active)
      (pick : f.picked? r.branch? id = some branch)
      (below : Reduces f sem r (id :: active) branch none after) :
      Reduces f sem r active (.node id :: children) none after
  | reduces {active inner after : List NodeId} {id : NodeId} {node : Node}
      {branch children : Branch} {args : List V} {values : Option (List V)} (off : id ∉ active)
      (place : f.nodes[id]? = some node) (pick : f.picked? r.branch? id = some branch)
      (below : Reduces f sem r (id :: active) branch (some args) inner)
      (rest : Reduces f sem r (inner.erase id) children values after) :
      Reduces f sem r active (.node id :: children)
        (values.map (sem.reduce node.production args :: ·)) after

section Active

variable {active after : List NodeId} {values : Option (List V)}

/-- **A run that succeeds leaves the set as it was.** -/
theorem Reduces.after_eq (h : f.Reduces sem r active children values after)
    (succeeds : values ≠ none) : after = active := by
  induction h with
  | nil => rfl
  | token _ _ ih => exact ih fun none => succeeds (by rw [none]; rfl)
  | unresolved | loop | missing | noBranch | fails => exact absurd rfl succeeds
  | reduces _ _ _ _ _ ihBelow ihRest =>
    rw [ihBelow (Option.some_ne_none _), List.erase_cons_head] at ihRest
    exact ihRest fun none => succeeds (by rw [none]; rfl)

theorem toOption_map {α : Type u} {β : Type v} {ε : Type w} (g : α → β) (x : Except ε α) :
    (x.map g).toOption = x.toOption.map g := by
  cases x <;> rfl

theorem toOption_evalChildren_of_error
    (fails : ∃ error, f.evalNode sem r path done id = ⟨made, .error error⟩) :
    (f.evalChildren sem r path done (.node id :: children)).2.toOption = none := by
  obtain ⟨error, same⟩ := fails
  simp only [evalChildren, same]
  rfl

/-- **A run comes to what evaluation comes to** where the nodes of the set are the path. -/
theorem Reduces.toOption_evalChildren (h : f.Reduces sem r active children values after)
    (done : Array (Reduction V)) :
    (f.evalChildren sem r active done children).2.toOption = values := by
  induction h generalizing done with
  | nil => rw [evalChildren]; rfl
  | token place _ ih =>
    simp only [evalChildren, place]
    rw [toOption_map, ih]
  | @unresolved _ id _ record =>
    have unpicked : f.picked? r.branch? id = none := by simp [picked?, record]
    exact toOption_evalChildren_of_error (evalNode_of_none unpicked)
  | loop _ on => exact toOption_evalChildren_of_error (evalNode_of_mem on)
  | @missing _ id _ _ _ _ absent =>
    have unpicked : f.picked? r.branch? id = none := by rw [picked?, absent, Option.bind_none]
    exact toOption_evalChildren_of_error (evalNode_of_none unpicked)
  | @noBranch _ id _ _ _ record _ place beyond =>
    have unpicked : f.picked? r.branch? id = none := by
      rw [picked?, place, Option.bind_some, record, Option.bind_some, beyond]
    exact toOption_evalChildren_of_error (evalNode_of_none unpicked)
  | @fails active _ id branch _ off pick _ ih =>
    rcases inner : f.evalChildren sem r (id :: active) done branch with ⟨made, error | args⟩
    · exact toOption_evalChildren_of_error ⟨error, evalNode_of_error off pick inner⟩
    · refine absurd (ih done) ?_
      rw [inner]
      exact Option.some_ne_none args
  | @reduces active _ _ id node branch _ args _ off place pick below _ ihBelow ihRest =>
    rcases inner : f.evalChildren sem r (id :: active) done branch with ⟨made, error | args'⟩
    · refine absurd (ihBelow done).symm ?_
      rw [inner]
      exact Option.some_ne_none args
    · have same := ihBelow done
      rw [inner] at same
      obtain rfl := Option.some.inj same
      rw [below.after_eq (Option.some_ne_none _), List.erase_cons_head] at ihRest
      simp only [evalChildren, evalNode_of_ok off place pick inner]
      rw [toOption_map, ihRest]

/-- At a node there is a run if there is one behind it, and one below it where the run enters. -/
theorem exists_reduces_node (rest : f.Reduces sem r active children values after)
    (below : ∀ branch, id ∉ active → f.picked? r.branch? id = some branch →
      ∃ values after, f.Reduces sem r (id :: active) branch values after) :
    ∃ values after, f.Reduces sem r active (.node id :: children) values after := by
  cases record : r.branch? id with
  | none => exact ⟨_, _, .unresolved record⟩
  | some index =>
    by_cases on : id ∈ active
    · exact ⟨_, _, .loop record on⟩
    cases place : f.nodes[id]? with
    | none => exact ⟨_, _, .missing record on place⟩
    | some node =>
      cases atIndex : node.branches[index]? with
      | none => exact ⟨_, _, .noBranch record on place atIndex⟩
      | some branch =>
        have pick := picked?_eq_some_iff.2 ⟨node, index, place, record, atIndex⟩
        obtain ⟨args, left, run⟩ := below branch on pick
        cases args with
        | none => exact ⟨_, _, .fails on pick run⟩
        | some args =>
          have rest' : f.Reduces sem r (left.erase id) children values after := by
            rwa [run.after_eq (Option.some_ne_none args), List.erase_cons_head]
          exact ⟨_, _, .reduces on place pick run rest'⟩

/-- **There is always a run**, where the tokens are there.  The induction is on the nodes that are
not in the set, and inside it on the children. -/
theorem exists_reduces (leaves : ∀ index, .token index ∈ children → f.tokens[index]? ≠ none)
    (below : ∀ id, .node id ∈ children → f.HasTokens r.branch? id) :
    ∃ values after, f.Reduces sem r active children values after := by
  induction size : offPath f.nodes.size active using Nat.strongRecOn
    generalizing active children with
  | ind _ outer =>
    induction children with
    | nil => exact ⟨_, _, .nil⟩
    | cons child children inner =>
      obtain ⟨values, after, rest⟩ := inner
        (fun index mem => leaves index (List.mem_cons_of_mem child mem))
        fun id mem => below id (List.mem_cons_of_mem child mem)
      cases child with
      | token index =>
        obtain ⟨token, place⟩ := Option.ne_none_iff_exists'.1 (leaves index List.mem_cons_self)
        exact ⟨_, _, .token place rest⟩
      | node id =>
        have tokens := below id List.mem_cons_self
        refine exists_reduces_node rest fun branch off pick => ?_
        refine outer _ (size ▸ offPath_cons_lt (lt_size_of_picked pick) off)
          (fun index mem => tokens id branch index .refl pick mem) (fun other mem => ?_) rfl
        exact fun _ _ _ reaches => tokens _ _ _ (.head ⟨branch, pick, mem⟩ reaches)

end Active

/-- **Runs with one set come to the value of the node**, whatever they leave in the set. -/
theorem exists_reduces_iff (tokens : f.HasTokens r.branch? root) {values : Option (List V)} :
    (∃ after, f.Reduces sem r [] [.node root] values after)
      ↔ values = (f.evaluate sem r root).result.toOption.map ([·]) := by
  have exact : ∀ {values after}, f.Reduces sem r [] [.node root] values after →
      values = (f.evaluate sem r root).result.toOption.map ([·]) := by
    intro values after run
    rw [← run.toOption_evalChildren #[], evalChildren_singleton, toOption_map]
  constructor
  · rintro ⟨after, run⟩
    exact exact run
  · rintro rfl
    have run : ∃ values after, f.Reduces sem r [] [.node root] values after := by
      refine exists_reduces (fun index mem => nomatch List.mem_singleton.1 mem) fun id mem => ?_
      obtain rfl := Child.node.inj (List.mem_singleton.1 mem)
      exact tokens
    obtain ⟨values, after, run⟩ := run
    exact ⟨after, exact run ▸ run⟩

/-! ## Values -/

/-- **A value is that of the one tree which the picks unfold to**, and the reductions are those of
its inner nodes. -/
theorem exists_tree_of_evaluate {value : V} (ok : (f.evaluate sem r root).result = .ok value) :
    ∃ tree, (∀ trees, f.Follows r.branch? [.node root] trees ↔ trees = [tree])
      ∧ tree.value? sem f.tokens = some value
      ∧ ReductionsOf sem f.tokens (f.evaluate sem r root).reductions.toList tree.postorder := by
  rcases f.evaluate_cases sem r root with
    ⟨tree, value', reductions, folds, same⟩ | ⟨-, _, _, same⟩
  · rw [same] at ok ⊢
    obtain rfl := Except.ok.inj ok
    refine ⟨tree, fun trees => ⟨fun h => h.unique folds.follows, ?_⟩,
      Tree.value?_of_values? folds.values_eq, ?_⟩
    · rintro rfl
      exact folds.follows
    · simpa [Tree.postorders] using folds.reductionsOf
  · rw [same] at ok
    cases ok

/-- **No token is missing in the forest of a parse.** -/
theorem hasTokens_parse [DecidableEq κ] {σ : Type w} {g : Grammar κ} {tokenizer : Tokenizer κ σ}
    {equals : String → κ → Bool} {state : σ} (h : parse g tokenizer equals state = .ok f)
    (picks : Picks) (root : NodeId) : f.HasTokens picks root := by
  have reads : ∀ index kind, (recognize g tokenizer equals state).chart.Reads index kind →
      index < f.tokens.size := by
    rw [(parse_eq_ok_iff.1 h).2]
    exact fun _ _ => Chart.sound_recognize.lt_of_reads
  exact fun _ _ _ _ pick mem => (packs_parse h).exists_token reads pick mem

end Forest

/-- **Evaluation is total and exact** for any forest and any resolution, be it that of another
forest.  It comes to a value exactly if the picks lead to nodes with a picked branch and to tokens
that are there, and never back.  The value is that of the one tree which the picks unfold to, worked
out from its leaves up, and any error is true of a node that they lead to.  In the forest of a parse
no token is missing, and a run with one set of active nodes comes to the same. -/
theorem evaluate_exact [DecidableEq κ] (f : Forest κ) (sem : Semantics κ V) (r : Resolution)
    (root : NodeId) :
    let evaluation := f.evaluate sem r root
    ((∃ value, evaluation.result = .ok value) ↔
        f.Resolves r.branch? root ∧ ¬ f.Loops r.branch? root ∧ f.HasTokens r.branch? root)
      ∧ (∀ value, evaluation.result = .ok value → ∃ tree,
          (∀ trees, f.Follows r.branch? [.node root] trees ↔ trees = [tree])
            ∧ tree.value? sem f.tokens = some value
            ∧ ReductionsOf sem f.tokens evaluation.reductions.toList tree.postorder)
      ∧ (∀ error, evaluation.result = .error error → f.Fault r.branch? root error)
      ∧ ∀ (σ : Type w) (g : Grammar κ) (tokenizer : Tokenizer κ σ) (equals : String → κ → Bool)
          (state : σ), parse g tokenizer equals state = .ok f →
        ((∃ value, evaluation.result = .ok value) ↔
            f.Resolves r.branch? root ∧ ¬ f.Loops r.branch? root)
          ∧ (∀ index, evaluation.result ≠ .error (.noToken index))
          ∧ ∀ values, (∃ after, f.Reduces sem r [] [.node root] values after) ↔
              values = evaluation.result.toOption.map ([·]) := by
  intro evaluation
  refine ⟨f.evaluate_isOk_iff sem r root, fun value => Forest.exists_tree_of_evaluate,
    fun error => Forest.evaluate_fault, fun σ g tokenizer equals state h => ?_⟩
  have tokens := Forest.hasTokens_parse h r.branch? root
  refine ⟨?_, fun index fails => ?_, fun values => Forest.exists_reduces_iff tokens⟩
  · rw [f.evaluate_isOk_iff sem r root]
    exact and_congr_right fun _ => and_iff_left tokens
  · cases Forest.evaluate_fault fails with
    | noToken reaches pick mem absent => exact tokens _ _ _ reaches pick mem absent

end Earley
