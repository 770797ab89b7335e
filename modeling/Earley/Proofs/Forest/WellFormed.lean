import Earley.Forest.Outline
import Earley.Proofs.Forest.Failure

/-!
# Proofs/Forest/WellFormed — the shape of a forest, and why no descent leaves it

A node of a forest stands over a stretch of the tokens, once for each production and stretch; each
of its branches fills the symbols of its production one by one (`Forest.Fills`), from the beginning
of the stretch to its end and without gaps (`Forest.Gapless`).  A thread of spans does so, and the
branches are the threads over numbers (`Forest.wellFormed_ofChart`).

Every child is therefore present in the forest.  A descent from a node of the forest, be it to
choose, to evaluate, to count or to write, looks nothing up that is missing.
-/

namespace Earley

universe u v w

variable {κ : Type u}

namespace Forest

/-! ## The shape of a forest -/

/-- **A child fills a symbol**: a token a kind that it was read as, a node of the forest its
name. -/
inductive Fills (f : Forest κ) (accepted : Array (List κ)) : Child NodeId → Symbol κ → Prop
  | token {index : Nat} {kind : κ} (bound : index < f.tokens.size)
      (reads : kind ∈ accepted.getD index []) : Fills f accepted (.token index) (.terminal kind)
  | node {id : NodeId} {node : Node} {name : String} (place : f.nodes[id]? = some node)
      (named : f.nameOf node = name) : Fills f accepted (.node id) (.nonterminal name)

/-- **The children lie side by side** from one position up to another. -/
def Gapless (f : Forest κ) : Branch → Nat → Nat → Prop
  | [], start, stop => start = stop
  | child :: rest, start, stop =>
    (f.extent child).1 = start ∧ f.Gapless rest (f.extent child).2 stop

/-- **The shape of a node** of a forest. -/
structure WellFormedNode (f : Forest κ) (accepted : Array (List κ)) (node : Node) : Prop where
  production_lt : node.production < f.grammar.productions.size
  start_le : node.start ≤ node.stop
  stop_le : node.stop ≤ f.tokens.size
  branches_ne_nil : node.branches ≠ []
  nodup : node.branches.Nodup
  fills : ∀ branch ∈ node.branches,
    List.Forall₂ (f.Fills accepted) branch (f.grammar.symbols node.production)
  gapless : ∀ branch ∈ node.branches, f.Gapless branch node.start node.stop

/-- **The shape of a forest** over tokens that were read as the given kinds. -/
structure WellFormed (f : Forest κ) (accepted : Array (List κ)) : Prop where
  node : ∀ (id : NodeId) (node : Node), f.nodes[id]? = some node → f.WellFormedNode accepted node
  /-- A production stands over a stretch once. -/
  unique : ∀ (id id' : NodeId) (node node' : Node), f.nodes[id]? = some node →
    f.nodes[id']? = some node' → node.production = node'.production → node.start = node'.start →
      node.stop = node'.stop → id = id'
  root : ∀ root ∈ f.roots, ∃ node, f.nodes[root]? = some node
    ∧ f.nameOf node = f.grammar.entry ∧ node.start = 0 ∧ node.stop = f.tokens.size
  nodup_roots : f.roots.Nodup

/-! ## The forest of a chart -/

section Chart

variable [DecidableEq κ] {g : Grammar κ} {chart : Chart κ}

/-- **A thread fills its symbols** and has no gaps, also over numbers. -/
theorem fills_of_thread (sound : chart.Sound g) (saturated : chart.Saturated g)
    {symbols : List (Symbol κ)} {cs : List (Child Span)} {branch : Branch} {pos stop : Nat}
    (thread : (Weave.ofChart g chart).Thread symbols cs pos stop)
    (row : List.Forall₂ (Child.Numbered (Weave.ofChart g chart).arenaSpans) cs branch) :
    List.Forall₂ ((Forest.ofChart g chart).Fills chart.accepted) branch symbols
      ∧ (Forest.ofChart g chart).Gapless branch pos stop := by
  induction thread generalizing branch with
  | nil =>
    obtain ⟨⟩ := row
    exact ⟨.nil, rfl⟩
  | token reads _ ih =>
    cases row with
    | cons head row =>
      obtain ⟨⟩ := head
      exact ⟨.cons (.token (sound.lt_of_reads reads) reads) (ih row).1, rfl, (ih row).2⟩
  | @node name span _ _ _ _ meets _ ih =>
    cases row with
    | cons head row =>
      cases head with
      | @node _ id place =>
        obtain ⟨start, named, -⟩ := (Weave.exact_ofChart sound saturated).mem_meeting_iff.1 meets
        have atId := (getElem?_nodes_ofChart sound saturated).2 ⟨span, place, rfl⟩
        have extent : (Forest.ofChart g chart).extent (.node id) = (span.start, span.stop) := by
          rw [Forest.extent, atId]
          rfl
        refine ⟨.cons (.node atId named) (ih row).1, ?_⟩
        rw [Gapless, extent]
        exact ⟨start, (ih row).2⟩

/-- **The forest of a chart is well-formed.** -/
theorem wellFormed_ofChart (sound : chart.Sound g) (saturated : chart.Saturated g) :
    (Forest.ofChart g chart).WellFormed chart.accepted := by
  have woven := Weave.exact_ofChart sound saturated
  have packs := packs_ofChart sound saturated
  have reads : ∀ index kind, chart.Reads index kind → index < chart.tokens.size :=
    fun _ _ => sound.lt_of_reads
  constructor
  case node =>
    intro id node atId
    have packed := packs.node id node atId
    obtain ⟨span, place, rfl⟩ := (getElem?_nodes_ofChart sound saturated).1 atId
    have rows : ∀ branch ∈ ((Weave.ofChart g chart).node span).branches, ∃ cs,
        (Weave.ofChart g chart).Thread (g.symbols span.production) cs span.start span.stop
          ∧ List.Forall₂ (Child.Numbered (Weave.ofChart g chart).arenaSpans) cs branch :=
      fun _ mem => (Weave.mem_branches_node_iff woven.wf).1 mem
    exact
      { production_lt := packed.derived.production_lt
        start_le := packed.derived.read.le
        stop_le := packed.derived.read.stop_le reads (packed.derived.reachable.le reads)
        branches_ne_nil := by
          obtain ⟨trees, derivation⟩ := derives_iff_exists_derivation.1 packed.derived.read
          obtain ⟨branch, mem, -⟩ := (packed.derivation_iff trees).1 derivation
          exact List.ne_nil_of_mem mem
        nodup := packed.nodup
        fills := fun branch mem => by
          obtain ⟨cs, thread, row⟩ := rows branch mem
          exact (fills_of_thread sound saturated thread row).1
        gapless := fun branch mem => by
          obtain ⟨cs, thread, row⟩ := rows branch mem
          exact (fills_of_thread sound saturated thread row).2 }
  case unique =>
    intro id id' node node' atId atId' production start stop
    obtain ⟨⟨_, _, _⟩, place, rfl⟩ := (getElem?_nodes_ofChart sound saturated).1 atId
    obtain ⟨⟨_, _, _⟩, place', rfl⟩ := (getElem?_nodes_ofChart sound saturated).1 atId'
    obtain rfl : _ = _ := production
    obtain rfl : _ = _ := start
    obtain rfl : _ = _ := stop
    have bound := (List.getElem?_eq_some_iff.1 place).1
    exact (List.getElem?_inj bound (Weave.nodup_arenaSpans woven.wf)).1 (place.trans place'.symm)
  case root => exact packs.root
  case nodup_roots => exact packs.nodup_roots

end Chart

/-! ## Descents -/

/-- **A child is present**: a token of the input or a node of the forest. -/
def Present (f : Forest κ) : Child NodeId → Prop
  | .token index => index < f.tokens.size
  | .node id => id < f.nodes.size

/-- **All children are present.** -/
def Complete (f : Forest κ) : Prop :=
  ∀ (id : NodeId) (node : Node), f.nodes[id]? = some node →
    ∀ branch ∈ node.branches, ∀ child ∈ branch, f.Present child

variable {f : Forest κ} {accepted : Array (List κ)} {id : NodeId} {branch : Branch}

theorem Fills.present {child : Child NodeId} {symbol : Symbol κ}
    (h : f.Fills accepted child symbol) : f.Present child := by
  cases h with
  | token bound _ => exact bound
  | node place _ => exact (Array.getElem?_eq_some_iff.1 place).1

theorem WellFormed.complete (h : f.WellFormed accepted) : f.Complete := by
  intro id node place branch mem child memChild
  obtain ⟨index, bound, rfl⟩ := List.getElem_of_mem memChild
  have fills := (h.node id node place).fills branch mem
  exact (List.Forall₂.get fills bound (fills.length_eq ▸ bound)).present

namespace Complete

variable (complete : f.Complete)

include complete

/-- From a node of the forest, all descents stay in the forest. -/
theorem lt_size {below : NodeId} (bound : id < f.nodes.size)
    (path : Relation.ReflTransGen f.Parent id below) : below < f.nodes.size := by
  rcases path.cases_tail with rfl | ⟨above, -, node, place, branch, mem, memChild⟩
  · exact bound
  · exact complete above node place branch mem (.node below) memChild

theorem present_of_picked {picks : Picks} (pick : f.picked? picks id = some branch) :
    ∀ child ∈ branch, f.Present child := by
  obtain ⟨node, index, place, -, atIndex⟩ := picked?_eq_some_iff.1 pick
  exact complete id node place branch (List.mem_of_getElem? atIndex)

/-- **No choice comes to a node that is missing.** -/
theorem chooseFrom_ne_missing {chooser : Chooser κ} {r : Resolution} {stack : List Task}
    (inside : ∀ id, .enter id ∈ stack → id < f.nodes.size) (missing : NodeId) :
    (f.chooseFrom chooser r stack).result ≠ .error (.missing missing) := by
  fun_induction chooseFrom f chooser r stack with
  | case1 => exact fun same => nomatch same
  | case2 r id index stack ih => exact ih fun x mem => inside x (List.mem_cons_of_mem _ mem)
  | case3 r id stack met ih => exact ih fun x mem => inside x (List.mem_cons_of_mem _ mem)
  | case4 => exact fun same => nomatch same
  | case5 r id stack fresh bound node answer index branch pick _ ih =>
    refine ih fun x mem => ?_
    rcases List.mem_append.1 mem with mem | mem
    · obtain ⟨child, memChild, same⟩ := List.mem_map.1 mem
      obtain rfl := Task.enter.inj same
      obtain ⟨_, -, picked⟩ := Option.bind_eq_some_iff.1 pick
      obtain ⟨_, atIndex, same⟩ := Option.map_eq_some_iff.1 picked
      obtain ⟨-, rfl⟩ := Prod.mk.inj same
      exact complete id node (Array.getElem?_eq_getElem bound) _ (List.mem_of_getElem? atIndex) _
        (Branch.mem_nodes.1 memChild)
    · exact inside x (List.mem_cons_of_mem _
        ((List.mem_cons.1 mem).resolve_left fun same => nomatch same))
  | case6 r id stack fresh beyond => exact absurd (inside id List.mem_cons_self) beyond

end Complete

/-! ### Evaluation -/

section Evaluation

variable {V : Type w} {sem : Semantics κ V} {r : Resolution} {error : EvalError}

/-- With the branches that a chooser picked, evaluation fails by loops only. -/
theorem Complete.evaluate_error (complete : f.Complete) {chooser : Chooser κ}
    (chosen : (f.choose chooser id).resolution? = some r)
    (fails : (f.evaluate sem r id).result = .error error) : ∃ below, error = .loop below := by
  have resolved : f.Resolves r.branch? id := by
    rcases f.choose_cases chooser id with ⟨r', reached, same⟩ | ⟨-, none⟩
    · obtain rfl := Option.some.inj (same.symm.trans chosen)
      exact reached.resolves
    · exact absurd (none.symm.trans chosen) (Option.some_ne_none r).symm
  rcases (evaluate_fault fails).of_resolves resolved with
    loop | ⟨_, _, index, pick, mem, absent⟩
  · exact loop
  · have bound : index < f.tokens.size := complete.present_of_picked pick _ mem
    exact absurd (Array.getElem?_eq_none_iff.1 absent) (Nat.not_le.2 bound)

end Evaluation

/-! ### Outlines -/

/-- A way that leaves its start for good, or ends there. -/
theorem eq_or_leaves {α : Type v} {R : α → α → Prop} {a b : α} (way : Relation.ReflTransGen R a b) :
    a = b ∨ ∃ x, R a x ∧ x ≠ a ∧ Relation.ReflTransGen (fun y z => R y z ∧ z ≠ a) x b := by
  induction way with
  | refl => exact .inl rfl
  | @tail c d _ step ih =>
    by_cases back : d = a
    · exact .inl back.symm
    · rcases ih with rfl | ⟨x, first, away, rest⟩
      · exact .inr ⟨d, step, back, .refl⟩
      · exact .inr ⟨x, first, away, rest.tail ⟨step, back⟩⟩

/-- **What an entry shows is there**: a token of the input or a node of the forest, if it is not the
heading of a branch. -/
def Shows (f : Forest κ) : Entry → Prop
  | .token index => index < f.tokens.size
  | .node id | .cycle id => id < f.nodes.size
  | .branch _ => True

section Outline

variable {path : List NodeId} {depth : Nat} {line : Line} {node : Node}

/-- **Induction along a descent** that does not enter a node of its path again.  What is to be shown
at a node off the path may be used at all children of its branches. -/
@[elab_as_elim]
theorem descent_induction (f : Forest κ) {motive : List NodeId → Child NodeId → Prop}
    (token : ∀ path index, motive path (.token index))
    (again : ∀ path id, id ∈ path → motive path (.node id))
    (missing : ∀ path id, id ∉ path → f.nodes[id]? = none → motive path (.node id))
    (enter : ∀ path id node, id ∉ path → f.nodes[id]? = some node →
      (∀ branch ∈ node.branches, ∀ child ∈ branch, motive (id :: path) child) →
        motive path (.node id))
    (path : List NodeId) (child : Child NodeId) : motive path child := by
  induction size : offPath f.nodes.size path using Nat.strongRecOn generalizing path child with
  | ind _ ih =>
    cases child with
    | token index => exact token path index
    | node id =>
      by_cases on : id ∈ path
      · exact again path id on
      · cases place : f.nodes[id]? with
        | none => exact missing path id on place
        | some node =>
          have bound := (Array.getElem?_eq_some_iff.1 place).1
          exact enter path id node on place fun branch _ child _ =>
            ih _ (size ▸ offPath_cons_lt bound on) (id :: path) child rfl

theorem outlineChild_token (index : Nat) :
    f.outlineChild path depth (.token index) = [⟨depth, .token index⟩] := by
  rw [outlineChild]

theorem outlineChild_again (on : id ∈ path) :
    f.outlineChild path depth (.node id) = [⟨depth, .cycle id⟩] := by
  rw [outlineChild, dif_pos on]

theorem outlineChild_missing (off : id ∉ path) (absent : f.nodes[id]? = none) :
    f.outlineChild path depth (.node id) = [] := by
  rw [outlineChild, dif_neg off, dif_neg (Nat.not_lt.2 (Array.getElem?_eq_none_iff.1 absent))]

theorem outlineChild_enter (off : id ∉ path) (place : f.nodes[id]? = some node) :
    f.outlineChild path depth (.node id) = ⟨depth, .node id⟩
      :: f.outlineBranches (id :: path) (depth + 1) node.isAmbiguous 0 node.branches := by
  obtain ⟨bound, rfl⟩ := Array.getElem?_eq_some_iff.1 place
  rw [outlineChild, dif_neg off, dif_pos bound]

theorem outlineChildren_eq (f : Forest κ) (path : List NodeId) (depth : Nat)
    (children : List (Child NodeId)) :
    f.outlineChildren path depth children = children.flatMap (f.outlineChild path depth) := by
  induction children with
  | nil =>
    rw [outlineChildren]
    rfl
  | cons child children ih => rw [outlineChildren, ih, List.flatMap_cons]

/-- **Branches are written one after the other**, each under its heading if they have any. -/
theorem outlineBranches_eq (f : Forest κ) (path : List NodeId) (depth : Nat) (headed : Bool)
    (index : Nat) (branches : List Branch) :
    f.outlineBranches path depth headed index branches
      = (branches.zipIdx index).flatMap fun (branch, index) =>
          if headed then
            ⟨depth, .branch index⟩ :: branch.flatMap (f.outlineChild path (depth + 1))
          else branch.flatMap (f.outlineChild path depth) := by
  induction branches generalizing index with
  | nil =>
    rw [outlineBranches]
    rfl
  | cons branch branches ih =>
    rw [outlineBranches, ih, outlineChildren_eq, outlineChildren_eq, List.zipIdx_cons,
      List.flatMap_cons]

/-- A line below a node is the heading of a branch or a line of one of its children. -/
theorem of_mem_outlineBranches {headed : Bool} {index : Nat} {branches : List Branch}
    (mem : line ∈ f.outlineBranches path depth headed index branches) :
    (∃ index, line = ⟨depth, .branch index⟩) ∨ ∃ branch ∈ branches, ∃ child ∈ branch,
      line ∈ f.outlineChild path (if headed then depth + 1 else depth) child := by
  rw [outlineBranches_eq] at mem
  obtain ⟨⟨branch, number⟩, memZip, mem⟩ := List.mem_flatMap.1 mem
  have memBranch : branch ∈ branches := List.fst_mem_of_mem_zipIdx memZip
  cases headed with
  | false =>
    obtain ⟨child, memChild, mem⟩ := List.mem_flatMap.1 mem
    exact .inr ⟨branch, memBranch, child, memChild, mem⟩
  | true =>
    rcases List.mem_cons.1 mem with rfl | mem
    · exact .inl ⟨number, rfl⟩
    · obtain ⟨child, memChild, mem⟩ := List.mem_flatMap.1 mem
      exact .inr ⟨branch, memBranch, child, memChild, mem⟩

/-- **Every line of an outline shows what is there.** -/
theorem Complete.shows (complete : f.Complete) {child : Child NodeId} (present : f.Present child)
    (mem : line ∈ f.outlineChild path depth child) : f.Shows line.entry := by
  induction path, child using f.descent_induction generalizing depth with
  | token path index =>
    rw [outlineChild_token, List.mem_singleton] at mem
    exact mem ▸ present
  | again path id on =>
    rw [outlineChild_again on, List.mem_singleton] at mem
    exact mem ▸ present
  | missing path id off absent =>
    rw [outlineChild_missing off absent] at mem
    exact absurd mem List.not_mem_nil
  | enter path id node off place ih =>
    rw [outlineChild_enter off place] at mem
    rcases List.mem_cons.1 mem with rfl | mem
    · exact present
    · rcases of_mem_outlineBranches mem with ⟨index, rfl⟩ | ⟨branch, memBranch, child, memChild,
        mem⟩
      · trivial
      · exact ih branch memBranch child memChild
          (complete id node place branch memBranch child memChild) mem

/-- A line of a child stands below its node. -/
theorem mem_outlineBranches {headed : Bool} {index : Nat} {branches : List Branch} {branch : Branch}
    {child : Child NodeId} (memBranch : branch ∈ branches) (memChild : child ∈ branch)
    (mem : line ∈ f.outlineChild path (if headed then depth + 1 else depth) child) :
    line ∈ f.outlineBranches path depth headed index branches := by
  rw [← List.zipIdx_map_fst index branches] at memBranch
  obtain ⟨entry, memZip, rfl⟩ := List.mem_map.1 memBranch
  rw [outlineBranches_eq]
  refine List.mem_flatMap.2 ⟨entry, memZip, ?_⟩
  cases headed with
  | false => exact List.mem_flatMap.2 ⟨child, memChild, mem⟩
  | true => exact List.mem_cons_of_mem _ (List.mem_flatMap.2 ⟨child, memChild, mem⟩)

/-- **The outline has a line for every node below**: on a way that comes to no node twice, none is
marked as a cycle. -/
theorem exists_line (bound : id < f.nodes.size) (off : id ∉ path) {below : NodeId}
    (complete : f.Complete)
    (way : Relation.ReflTransGen (fun a b => f.Parent a b ∧ b ∉ path) id below) :
    ∃ line ∈ f.outlineChild path depth (.node id), line.entry = .node below := by
  induction size : offPath f.nodes.size path using Nat.strongRecOn
    generalizing path depth id with
  | ind _ ih =>
    rw [outlineChild, dif_neg off, dif_pos bound]
    rcases eq_or_leaves way with rfl | ⟨next, ⟨parent, offNext⟩, away, rest⟩
    · exact ⟨_, List.mem_cons_self, rfl⟩
    · obtain ⟨node, place, branch, memBranch, memChild⟩ := parent
      obtain ⟨_, rfl⟩ := Array.getElem?_eq_some_iff.1 place
      have off' : next ∉ id :: path := fun mem => (List.mem_cons.1 mem).elim away offNext
      have rest' : Relation.ReflTransGen (fun a b => f.Parent a b ∧ b ∉ id :: path) next below := by
        refine Relation.ReflTransGen.mono (fun a b step => ⟨step.1.1, fun mem => ?_⟩) _ _ rest
        exact (List.mem_cons.1 mem).elim step.2 step.1.2
      obtain ⟨line, mem, shown⟩ := ih _ (size ▸ offPath_cons_lt bound off)
        (complete id _ place branch memBranch (.node next) memChild) off' rest' rfl
      exact ⟨line, List.mem_cons_of_mem _ (mem_outlineBranches memBranch memChild mem), shown⟩

end Outline

end Forest

/-- **Well-formedness.**  In the forest of a parse a production stands over a stretch of the tokens
once; each branch of a node fills the symbols of its production, without gaps and with tokens of the
kinds that they were read as, and the roots are the nodes of the entry over all tokens.  From a node
of the forest, therefore, no descent looks anything up that is missing: a choice comes to no missing
node, evaluation with the picked branches fails by loops only, a count is not given only where there
are too many trees, and the lines of an outline show what is there, with every node below among
it. -/
theorem wellFormed_of_parse [DecidableEq κ] {σ : Type v} {g : Grammar κ}
    {tokenizer : Tokenizer κ σ} {equals : String → κ → Bool} {state : σ} {f : Forest κ}
    (h : parse g tokenizer equals state = .ok f) (V : Type w) :
    let chart := (recognize g tokenizer equals state).chart
    f.tokens = chart.tokens ∧ f.WellFormed chart.accepted
      ∧ (∀ (id : NodeId) (node : Node), f.nodes[id]? = some node →
          ∀ branch ∈ node.branches, ∀ child ∈ branch, f.Present child)
      ∧ ∀ id < f.nodes.size,
          (∀ chooser missing, (f.choose chooser id).result ≠ .error (.missing missing))
            ∧ (∀ (sem : Semantics κ V) (r : Resolution) (error : EvalError),
                (f.choose sem.chooser id).resolution? = some r →
                  (f.evaluate sem r id).result = .error error → ∃ below, error = .loop below)
            ∧ (f.count id = none → 2 ^ 64 ≤ (f.treesBelow chart.Reads id).encard)
            ∧ (∀ line ∈ f.outline id, f.Shows line.entry)
            ∧ ∀ below, Relation.ReflTransGen f.Parent id below →
                below < f.nodes.size ∧ ∃ line ∈ f.outline id, line.entry = .node below := by
  intro chart
  have packs : f.Packs chart.Reads := Forest.packs_parse h
  obtain rfl : f = .ofChart g chart := (parse_eq_ok_iff.1 h).2
  have wellFormed : (Forest.ofChart g chart).WellFormed chart.accepted :=
    Forest.wellFormed_ofChart Chart.sound_recognize Chart.saturated_recognize
  have complete := wellFormed.complete
  refine ⟨rfl, wellFormed, complete, fun id bound => ⟨fun chooser missing => ?_,
    fun sem r error => complete.evaluate_error, fun missing => ?_, fun line mem => ?_,
    fun below way => ⟨complete.lt_size bound way, ?_⟩⟩⟩
  · refine complete.chooseFrom_ne_missing (fun other mem => ?_) missing
    obtain rfl := Forest.Task.enter.inj (List.mem_singleton.1 mem)
    exact bound
  · exact_mod_cast (packs.tally_count (Array.getElem?_eq_getElem bound)).2 missing
  · exact complete.shows (show Forest.Present _ (.node id) from bound) mem
  · refine Forest.exists_line bound List.not_mem_nil complete ?_
    exact Relation.ReflTransGen.mono (fun a b parent => ⟨parent, List.not_mem_nil⟩) _ _ way

/-- The forest of one token that derives `S` without bound is well-formed, and the outline of its
root comes to an end. -/
theorem wellFormed_of_parse_looping :
    ∃ f, parse looping (.ofList String) (· == ·) [⟨"a", "a", 0, 1⟩] = .ok f
      ∧ f.WellFormed #[["a"]]
      ∧ ∃ root ∈ f.roots, (∀ line ∈ f.outline root, f.Shows line.entry)
          ∧ ∃ line ∈ f.outline root, line.entry = .node root := by
  have run : (recognize looping (.ofList String) (· == ·) [⟨"a", "a", 0, 1⟩]).error? = none
      ∧ (recognize looping (.ofList String) (· == ·) [⟨"a", "a", 0, 1⟩]).chart.tokens.size = 1
      ∧ (recognize looping (.ofList String) (· == ·) [⟨"a", "a", 0, 1⟩]).chart.accepted
        = #[["a"]] := by decide +kernel
  obtain ⟨done, size, accepted⟩ := run
  have ok := parse_eq_ok_iff.2 ⟨done, rfl⟩
  have reads : (recognize looping (.ofList String) (· == ·) [⟨"a", "a", 0, 1⟩]).chart.Reads 0 "a" :=
    by rw [Chart.Reads, accepted]; decide
  obtain ⟨-, wellFormed, -, descents⟩ := wellFormed_of_parse ok Nat
  rw [accepted] at wellFormed
  obtain ⟨root, mem, _, place, -⟩ := (Forest.packs_parse ok).exists_root (.loops 0) (by
    change Derivation looping _ [.nonterminal "S"] _ 0 (Chart.tokens _).size
    rw [size]
    exact .singleton_node (by decide) (.leaf reads (.nil 1)))
  obtain ⟨-, -, -, shows, below⟩ := descents root (Array.getElem?_eq_some_iff.1 place).1
  exact ⟨_, ok, wellFormed, root, mem, shows, (below root .refl).2⟩

end Earley
