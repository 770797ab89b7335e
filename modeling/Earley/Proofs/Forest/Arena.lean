import Earley.Proofs.Forest.Discovery
import Earley.Proofs.Forest.Numbering
import Earley.Proofs.Forest.Viable

/-!
# Proofs/Forest/Arena — the forest of a chart has a node for every span found, and drops none

The branches of a node are the threads of its span with all spans replaced by their numbers
(`mem_branches_node_iff`), in the same order (`pairwise_branches_node`).  Every span of a chart is
derived, and a derivation is a thread whose spans are derived in turn; so every node is viable
(`Exact.viable_of_derives`) and the pruning has nothing to drop (`Forest.nodes_ofChart`).
-/

namespace Earley

universe u

variable {κ : Type u}

/-! ## Rows of numbers -/

section Rows

variable {spans : List Span} {cs : List (Child Span)} {branch : Branch}

theorem exists_numbered (h : ∀ span, .node span ∈ cs → span ∈ spans) :
    ∃ branch : Branch, List.Forall₂ (Child.Numbered spans) cs branch := by
  induction cs with
  | nil => exact ⟨[], .nil⟩
  | cons child cs ih =>
    obtain ⟨branch, row⟩ := ih fun span mem => h span (List.mem_cons_of_mem _ mem)
    cases child with
    | token index => exact ⟨.token index :: branch, .cons (.token index) row⟩
    | node span =>
      obtain ⟨id, place⟩ := List.mem_iff_getElem?.1 (h span List.mem_cons_self)
      exact ⟨.node id :: branch, .cons (.node place) row⟩

/-- The nodes of a row of numbers are the places of its spans. -/
theorem exists_span_of_mem_nodes (row : List.Forall₂ (Child.Numbered spans) cs branch) {id : NodeId}
    (mem : id ∈ branch.nodes) : ∃ span, .node span ∈ cs ∧ spans[id]? = some span := by
  induction row with
  | nil => exact absurd mem List.not_mem_nil
  | cons head _ ih =>
    cases head with
    | token index =>
      obtain ⟨span, memSpan, place⟩ := ih mem
      exact ⟨span, List.mem_cons_of_mem _ memSpan, place⟩
    | @node span other place =>
      rcases List.mem_cons.1 (show id ∈ other :: Branch.nodes _ from mem) with rfl | mem
      · exact ⟨span, List.mem_cons_self, place⟩
      · obtain ⟨span, memSpan, place⟩ := ih mem
        exact ⟨span, List.mem_cons_of_mem _ memSpan, place⟩

end Rows

namespace Weave

variable [DecidableEq κ] {weave : Weave κ} {span : Span} {id : NodeId}

/-! ## Nodes -/

/-- The node that a span becomes. -/
def node (weave : Weave κ) (span : Span) : Node where
  production := span.production
  start := span.start
  stop := span.stop
  branches := renumber (weave.numbering weave.arenaSpans).number? (weave.branches span)

/-- The nodes before any is dropped. -/
def created (weave : Weave κ) : Array Node :=
  weave.nodes (weave.numbering weave.arenaSpans) weave.arenaSpans

theorem getElem?_created : weave.created[id]? = weave.arenaSpans[id]?.map weave.node := by
  simp only [created, nodes, List.getElem?_toArray, Array.getElem?_map]
  rfl

theorem size_created : weave.created.size = weave.arenaSpans.length := by
  simp [created, nodes]

theorem number?_eq_some_iff (wf : weave.index.WellFormed)
    (listed : span ∈ weave.index.startingAt span.start) :
    (weave.numbering weave.arenaSpans).number? span = some id
      ↔ weave.arenaSpans[id]? = some span :=
  Numbering.number?_eq_some_iff (nodup_arenaSpans wf) (SpanIndex.lt_of_mem_startingAt listed)

theorem forall₂_mapOption_iff (wf : weave.index.WellFormed) {cs : List (Child Span)}
    {branch : Branch}
    (listed : ∀ span, .node span ∈ cs → span ∈ weave.index.startingAt span.start) :
    List.Forall₂ (fun old new =>
        old.mapOption (weave.numbering weave.arenaSpans).number? = some new) cs branch
      ↔ List.Forall₂ (Child.Numbered weave.arenaSpans) cs branch := by
  induction cs generalizing branch with
  | nil => rw [List.forall₂_nil_left_iff, List.forall₂_nil_left_iff]
  | cons child cs ih =>
    rw [List.forall₂_cons_left_iff, List.forall₂_cons_left_iff]
    refine exists₂_congr fun new rest => ?_
    rw [ih fun span mem => listed span (List.mem_cons_of_mem _ mem),
      mapOption_eq_some_iff fun span same id =>
        number?_eq_some_iff wf (listed span (same ▸ List.mem_cons_self))]

omit [DecidableEq κ] in
theorem listed_of_thread (wf : weave.index.WellFormed) {symbols : List (Symbol κ)}
    {cs : List (Child Span)} {pos stop : Nat} (thread : weave.Thread symbols cs pos stop) :
    ∀ child, .node child ∈ cs → child ∈ weave.index.startingAt child.start :=
  fun _ mem => (mem_meeting_iff.1 (thread.meets wf mem)).1

/-- **The branches of a node are the threads of its span**, over numbers. -/
theorem mem_branches_node_iff (wf : weave.index.WellFormed) {branch : Branch} :
    branch ∈ (weave.node span).branches ↔
      ∃ cs, weave.Thread (weave.grammar.symbols span.production) cs span.start span.stop
        ∧ List.Forall₂ (Child.Numbered weave.arenaSpans) cs branch := by
  simp only [node, mem_renumber_iff, branches_eq_threads, mem_threads_iff wf]
  refine exists_congr fun cs => and_congr_right fun thread => ?_
  exact forall₂_mapOption_iff wf (listed_of_thread wf thread)

/-- **A number comes before another**: its span precedes the other one. -/
def Precedes (weave : Weave κ) (id other : NodeId) : Prop :=
  ∃ x y, weave.arenaSpans[id]? = some x ∧ weave.arenaSpans[other]? = some y ∧ x.Precedes y

theorem Precedes.ne {other : NodeId} (h : weave.Precedes id other) : id ≠ other := by
  rintro rfl
  obtain ⟨x, y, place, place', precedes⟩ := h
  exact precedes.before.ne (Option.some.inj (place.symm.trans place'))

/-- Numbers leave rows in their order. -/
theorem lex_of_numbered (wf : weave.index.WellFormed) {row row' : List (Child Span)}
    {branch branch' : Branch} (less : Child.Lex Span.Precedes row row')
    (number : List.Forall₂ (Child.Numbered weave.arenaSpans) row branch)
    (number' : List.Forall₂ (Child.Numbered weave.arenaSpans) row' branch') :
    Child.Lex weave.Precedes branch branch' := by
  induction less generalizing branch branch' with
  | here less =>
    obtain ⟨_, _, head, -, rfl⟩ := List.forall₂_cons_left_iff.1 number
    obtain ⟨_, _, head', -, rfl⟩ := List.forall₂_cons_left_iff.1 number'
    cases head with
    | node place =>
      cases head' with
      | node place' => exact .here ⟨_, _, place, place', less⟩
  | there _ ih =>
    obtain ⟨_, _, head, rest, rfl⟩ := List.forall₂_cons_left_iff.1 number
    obtain ⟨_, _, head', rest', rfl⟩ := List.forall₂_cons_left_iff.1 number'
    rw [Child.Numbered.rightUnique (nodup_arenaSpans wf) head head']
    exact .there (ih rest rest')

/-- **The branches of a node are in lexicographic order.** -/
theorem pairwise_branches_node (wf : weave.index.WellFormed) :
    (weave.node span).branches.Pairwise (Child.Lex weave.Precedes) := by
  rw [node, branches_eq_threads]
  refine List.pairwise_filterMap.2 ((pairwise_threads wf).imp_of_mem ?_)
  intro row row' mem mem' less branch number branch' number'
  rw [mapM_eq_some_iff, forall₂_mapOption_iff wf
    (listed_of_thread wf ((mem_threads_iff wf).1 mem))] at number
  rw [mapM_eq_some_iff, forall₂_mapOption_iff wf
    (listed_of_thread wf ((mem_threads_iff wf).1 mem'))] at number'
  exact lex_of_numbered wf less number number'

/-- **No branch of a node is listed twice.** -/
theorem nodup_branches_node (wf : weave.index.WellFormed) : (weave.node span).branches.Nodup :=
  (pairwise_branches_node wf).imp fun less => less.ne fun _ _ => Precedes.ne

/-- With a thread of a node its branch is there. -/
theorem exists_branch_of_thread (wf : weave.index.WellFormed) (mem : span ∈ weave.arenaSpans)
    {cs : List (Child Span)} (thread : weave.Thread (weave.grammar.symbols span.production) cs
      span.start span.stop) :
    ∃ branch ∈ (weave.node span).branches,
      List.Forall₂ (Child.Numbered weave.arenaSpans) cs branch := by
  obtain ⟨branch, row⟩ := exists_numbered fun child memChild =>
    mem_arenaSpans_of_thread wf mem thread memChild
  exact ⟨branch, (mem_branches_node_iff wf).2 ⟨cs, thread, row⟩, row⟩

/-- The candidates are the numbers of the spans that meet the entry at the beginning. -/
theorem mem_candidates_iff (wf : weave.index.WellFormed) :
    id ∈ weave.candidates (weave.numbering weave.arenaSpans) ↔
      ∃ span ∈ weave.meeting ⟨weave.grammar.entry, 0⟩, weave.arenaSpans[id]? = some span := by
  rw [candidates, List.mem_filterMap]
  refine exists_congr fun span => and_congr_right fun meets => number?_eq_some_iff wf ?_
  exact mem_startingAt_of_mem_arenaSpans wf (mem_arenaSpans_of_meets_entry wf meets)

/-- The candidates are in the order of their spans. -/
theorem pairwise_candidates (wf : weave.index.WellFormed) :
    (weave.candidates (weave.numbering weave.arenaSpans)).Pairwise weave.Precedes := by
  refine List.pairwise_filterMap.2 (((wf.ordered 0).filter _).imp_of_mem ?_)
  intro x y meets meets' before id number other number'
  have listed := mem_startingAt_of_mem_arenaSpans wf (mem_arenaSpans_of_meets_entry wf meets)
  have listed' := mem_startingAt_of_mem_arenaSpans wf (mem_arenaSpans_of_meets_entry wf meets')
  have start := wf.start_eq 0 x (List.mem_of_mem_filter meets)
  have start' := wf.start_eq 0 y (List.mem_of_mem_filter meets')
  exact ⟨x, y, (number?_eq_some_iff wf listed).1 number, (number?_eq_some_iff wf listed').1 number',
    start.trans start'.symm, before⟩

theorem nodup_candidates (wf : weave.index.WellFormed) :
    (weave.candidates (weave.numbering weave.arenaSpans)).Nodup :=
  (pairwise_candidates wf).imp Precedes.ne

/-! ## Nothing to drop -/

/-- **The weave of an input**: its spans are the derived ones, and tokens are read as they stand. -/
structure Exact (weave : Weave κ) (stands : Nat → κ → Prop) : Prop where
  wf : weave.index.WellFormed
  reads : ∀ index kind, kind ∈ weave.accepted.getD index [] ↔ stands index kind
  listed : ∀ start span, span ∈ weave.index.startingAt start
    ↔ span.start = start ∧ span.Derived weave.grammar stands

variable {stands : Nat → κ → Prop}

omit [DecidableEq κ] in
theorem Exact.mem_meeting_iff (h : weave.Exact stands) {name : String} {pos : Nat} :
    span ∈ weave.meeting ⟨name, pos⟩ ↔ span.start = pos ∧ weave.grammar.name span.production = name
      ∧ span.Derived weave.grammar stands := by
  rw [Weave.mem_meeting_iff, h.listed, Grammar.mem_productionsOf]
  constructor
  · rintro ⟨⟨rfl, derived⟩, -, rfl⟩
    exact ⟨rfl, rfl, derived⟩
  · rintro ⟨rfl, rfl, derived⟩
    exact ⟨⟨rfl, derived⟩, derived.production_lt, rfl⟩

/-- A span with a thread of viable nodes is a viable node. -/
theorem viable_of_thread (wf : weave.index.WellFormed) (place : weave.arenaSpans[id]? = some span)
    {cs : List (Child Span)} (thread : weave.Thread (weave.grammar.symbols span.production) cs
      span.start span.stop)
    (viable : ∀ child, .node child ∈ cs → ∀ below, weave.arenaSpans[below]? = some child →
      Arena.Viable (weave.created.map Node.branches) below) :
    Arena.Viable (weave.created.map Node.branches) id := by
  obtain ⟨branch, mem, row⟩ := exists_branch_of_thread wf (List.mem_of_getElem? place) thread
  have listed : branch ∈ (weave.created.map Node.branches).getD id [] := by
    simpa [Array.getD_eq_getD_getElem?, getElem?_created, place] using mem
  refine .intro listed fun below memBelow => ?_
  obtain ⟨child, memChild, placeBelow⟩ := exists_span_of_mem_nodes row memBelow
  exact viable child memChild below placeBelow

/-- **A derivation is a thread of viable nodes.** -/
theorem Exact.viable_of_derives (h : weave.Exact stands) {symbols : List (Symbol κ)}
    {pos stop : Nat} (derives : Derives weave.grammar stands symbols pos stop)
    (awaited : Awaited weave.grammar stands symbols pos) :
    ∃ cs, weave.Thread symbols cs pos stop ∧ ∀ span, .node span ∈ cs → ∀ id,
      weave.arenaSpans[id]? = some span → Arena.Viable (weave.created.map Node.branches) id := by
  induction derives with
  | nil pos => exact ⟨[], .nil pos, fun _ mem => absurd mem List.not_mem_nil⟩
  | @terminal kind rest pos stop stand tail ih =>
    obtain ⟨cs, thread, viable⟩ := ih (awaited.tail (.singleton_terminal stand))
    refine ⟨.token pos :: cs, .token ((h.reads _ _).2 stand) thread, fun span mem => ?_⟩
    exact viable span ((List.mem_cons.1 mem).resolve_left fun same => nomatch same)
  | @nonterminal name id rest pos mid stop rule head tail ihHead ihTail =>
    obtain ⟨inner, threadInner, viableInner⟩ := ihHead (.of_rule awaited.head rule)
    obtain ⟨cs, thread, viable⟩ := ihTail (awaited.tail (.singleton_nonterminal rule head))
    obtain ⟨bound, named⟩ := Grammar.mem_productionsOf.1 rule
    have derived : Span.Derived weave.grammar stands ⟨pos, mid, id⟩ :=
      ⟨bound, by rw [named]; exact awaited.head, head⟩
    refine ⟨.node ⟨pos, mid, id⟩ :: cs, .node (h.mem_meeting_iff.2 ⟨rfl, named, derived⟩) thread,
      fun span mem place atPlace => ?_⟩
    rcases List.mem_cons.1 mem with same | mem
    · obtain rfl := Child.node.inj same
      exact viable_of_thread h.wf atPlace threadInner viableInner
    · exact viable span mem place atPlace

theorem Exact.derived_of_place (h : weave.Exact stands)
    (place : weave.arenaSpans[id]? = some span) :
    span.Derived weave.grammar stands :=
  ((h.listed _ _).1 (mem_startingAt_of_mem_arenaSpans h.wf (List.mem_of_getElem? place))).2

/-- **Every node is viable.** -/
theorem Exact.viable_created (h : weave.Exact stands) :
    Arena.viable (weave.created.map Node.branches) = Array.replicate weave.created.size true := by
  have sizes : (Arena.viable (weave.created.map Node.branches)).size = weave.created.size := by
    rw [Arena.size_viable, Array.size_map]
  refine Array.ext (by rw [sizes, Array.size_replicate]) fun id bound _ => ?_
  have inside : id < weave.arenaSpans.length := by
    rw [← size_created, ← sizes]
    exact bound
  have place := List.getElem?_eq_getElem inside
  have derived := h.derived_of_place place
  obtain ⟨cs, thread, viable⟩ := h.viable_of_derives derived.read derived.awaited
  have isMarked := Arena.getD_viable_iff.2 (viable_of_thread h.wf place thread viable)
  rw [Array.getElem_replicate]
  simpa [Array.getD, bound] using isMarked

theorem lt_size_of_mem_branches (wf : weave.index.WellFormed) {branch : Branch}
    (mem : branch ∈ (weave.node span).branches) (memNode : id ∈ branch.nodes) :
    id < weave.created.size := by
  obtain ⟨cs, -, row⟩ := (mem_branches_node_iff wf).1 mem
  obtain ⟨child, -, place⟩ := exists_span_of_mem_nodes row memNode
  rw [size_created]
  exact (List.getElem?_eq_some_iff.1 place).1

/-- **Pruning leaves the nodes as they are.** -/
theorem Exact.pruneNodes_created (h : weave.Exact stands) :
    pruneNodes (Arena.viable (weave.created.map Node.branches)) weave.created = weave.created := by
  rw [h.viable_created]
  refine pruneNodes_replicate fun node mem branch memBranch id memNode => ?_
  obtain ⟨place, atPlace⟩ := Array.mem_iff_getElem?.1 mem
  rw [getElem?_created, Option.map_eq_some_iff] at atPlace
  obtain ⟨span, -, rfl⟩ := atPlace
  exact lt_size_of_mem_branches h.wf memBranch memNode

end Weave

/-! ## The forest of a chart -/

section Chart

variable {g : Grammar κ} {chart : Chart κ}

/-- **The weave of a sound and saturated chart is exact.** -/
theorem Weave.exact_ofChart (sound : chart.Sound g) (saturated : chart.Saturated g) :
    (Weave.ofChart g chart).Exact chart.Reads where
  wf :=
    { ordered := fun _ => pairwise_startingAt sound
      start_eq := fun _ _ mem => ((Chart.mem_startingAt_iff sound saturated).1 mem).1
      le := fun _ _ mem => by
        obtain ⟨rfl, derived⟩ := (Chart.mem_startingAt_iff sound saturated).1 mem
        exact derived.read.le }
  reads := fun _ _ => Iff.rfl
  listed := fun _ _ => Chart.mem_startingAt_iff sound saturated

variable [DecidableEq κ]

/-- **Nothing is dropped**: the nodes of the forest are the ones created. -/
theorem Forest.nodes_ofChart (sound : chart.Sound g) (saturated : chart.Saturated g) :
    (Forest.ofChart g chart).nodes = (Weave.ofChart g chart).created :=
  (Weave.exact_ofChart sound saturated).pruneNodes_created

/-- The roots are the candidates that end with the last token. -/
theorem Forest.roots_ofChart (sound : chart.Sound g) (saturated : chart.Saturated g) :
    (Forest.ofChart g chart).roots =
      ((Weave.ofChart g chart).candidates
        ((Weave.ofChart g chart).numbering (Weave.ofChart g chart).arenaSpans)).filter fun id =>
          (Weave.ofChart g chart).created[id]?.any fun node => node.stop = chart.tokens.size := by
  have woven := Weave.exact_ofChart sound saturated
  have kept : ∀ id ∈ (Weave.ofChart g chart).candidates
      ((Weave.ofChart g chart).numbering (Weave.ofChart g chart).arenaSpans),
      (ranks (Arena.viable ((Weave.ofChart g chart).created.map Node.branches))).getD id none
        = some id := by
    intro id mem
    obtain ⟨span, -, place⟩ := (Weave.mem_candidates_iff woven.wf).1 mem
    rw [woven.viable_created, Weave.size_created]
    exact getD_ranks_replicate (List.getElem?_eq_some_iff.1 place).1
  rw [← Forest.nodes_ofChart sound saturated]
  exact congrArg (List.filter _) ((List.filterMap_congr kept).trans List.filterMap_some)

/-- **The roots are the nodes of the entry over all tokens.** -/
theorem Forest.mem_roots_ofChart (sound : chart.Sound g) (saturated : chart.Saturated g)
    {root : NodeId} : root ∈ (Forest.ofChart g chart).roots ↔
      ∃ span, (Weave.ofChart g chart).arenaSpans[root]? = some span
        ∧ g.name span.production = g.entry ∧ span.start = 0 ∧ span.stop = chart.tokens.size := by
  have woven := Weave.exact_ofChart sound saturated
  rw [Forest.roots_ofChart sound saturated, List.mem_filter, Weave.mem_candidates_iff woven.wf]
  constructor
  · rintro ⟨⟨span, meets, place⟩, whole⟩
    obtain ⟨start, named, -⟩ := woven.mem_meeting_iff.1 meets
    refine ⟨span, place, named, start, ?_⟩
    simpa [Weave.getElem?_created, place, Weave.node] using whole
  · rintro ⟨span, place, named, start, stop⟩
    refine ⟨⟨span, ?_, place⟩, by simpa [Weave.getElem?_created, place, Weave.node] using stop⟩
    exact woven.mem_meeting_iff.2 ⟨start, named, woven.derived_of_place place⟩

/-- **No root is listed twice.** -/
theorem Forest.nodup_roots_ofChart (sound : chart.Sound g) (saturated : chart.Saturated g) :
    (Forest.ofChart g chart).roots.Nodup := by
  rw [Forest.roots_ofChart sound saturated]
  exact (Weave.nodup_candidates (Weave.exact_ofChart sound saturated).wf).filter _

end Chart

end Earley
