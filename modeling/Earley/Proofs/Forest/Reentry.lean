import Earley.Proofs.Forest.Search

/-!
# Proofs/Forest/Reentry — the search for a goal ends with all nodes and all their branches

A goal that is met and was not expanded is pending; to expand it leaves one less, so that every
search ends (`Consistent.answers`).  For any sets whose items fit their places the outermost search
leaves a node for each span of every goal that it expanded, with all threads of the span as branches
(`search_exact`), also where a row went through a node that was still waiting for its own.  For the
entry this is the arena that `Weave.created` lists goal by goal.
-/

namespace Earley

universe u

variable {κ : Type u}

namespace Extraction

/-! ## Every search ends -/

section Whole

variable {weave : Weave κ} {s s' : Extraction} {goal : Goal} {ids : List NodeId}

theorem goals_register {spans : List Span} : (s.register goal spans).goals = s.goals ++ [goal] := by
  simp [goals, register]

theorem spans_register :
    (s.register goal (weave.meeting goal)).spans weave = s.spans weave ++ weave.meeting goal := by
  simp [spans, goals_register]

theorem lookup_eq_none_iff : s.found.lookup goal = none ↔ goal ∉ s.goals := by
  rw [List.lookup_eq_none_iff, goals, List.mem_map]
  constructor
  · rintro fresh ⟨entry, mem, rfl⟩
    simpa using fresh entry mem
  · intro fresh entry mem
    simpa using fun same : goal = entry.1 => fresh ⟨entry, mem, same.symm⟩

/-- The nodes of a new goal are those behind the others. -/
theorem places_range' (spans more : List Span) :
    Places (spans ++ more) (.range' spans.length more.length) more := by
  refine List.forall₂_iff_get.2 ⟨List.length_range', fun place h h' => ?_⟩
  simp [h']

theorem Consistent.register (h : s.Consistent weave) (fresh : goal ∉ s.goals) :
    (s.register goal (weave.meeting goal)).Consistent weave where
  nodup := by
    rw [goals_register, List.nodup_append]
    exact ⟨h.nodup, List.nodup_singleton goal, fun a mem b memB same =>
      fresh (List.mem_singleton.1 memB ▸ same ▸ mem)⟩
  spans_eq := by
    rw [spans_register, ← h.spans_eq]
    simp [Extraction.register, Node.span, Function.comp_def]
  places := by
    intro entry mem
    rw [spans_register]
    rcases List.mem_append.1 mem with old | new
    · exact (h.places entry old).imp fun _ _ => getElem?_of_initial (List.prefix_append _ _)
    · obtain rfl := List.mem_singleton.1 new
      rw [h.size_eq]
      exact places_range' _ _

/-- A goal that was expanded is pending no more. -/
theorem pending_register {spans : List Span} :
    (s.register goal spans).pending weave = (s.pending weave).erase goal := by
  have nodup : (s.pending weave).Nodup := SpanIndex.nodup_goals.filter _
  rw [nodup.erase_eq_filter, pending, pending, List.filter_filter, goals_register]
  refine List.filter_congr fun other _ => ?_
  by_cases same : other = goal <;> simp [same]

theorem met_register {spans : List Span} : (s.register goal spans).met weave
    = s.met weave ++ if goal ∈ weave.index.goals weave.grammar then [goal] else [] := by
  rw [met, met, goals_register, List.filter_append]
  split <;> simp_all

theorem mem_pending : goal ∈ s.pending weave
    ↔ goal ∈ weave.index.goals weave.grammar ∧ goal ∉ s.goals := by
  simp [pending]

/-- What is not in the index is met by no span. -/
theorem meeting_eq_nil (unlisted : goal ∉ weave.index.goals weave.grammar) :
    weave.meeting goal = [] := by
  refine List.eq_nil_iff_forall_not_mem.2 fun span meets => unlisted ?_
  obtain ⟨listed, rule⟩ := Weave.mem_meeting_iff.1 meets
  exact SpanIndex.mem_goals_iff.2 ⟨span, listed, (Grammar.mem_productionsOf.1 rule).2⟩

variable [DecidableEq κ]

theorem discover_cons_of_notMem {subgoals : Goal → List Goal} {pending stack : List Goal}
    (stale : goal ∉ pending) : discover subgoals pending (goal :: stack)
      = discover subgoals pending stack := by
  rw [discover, dif_neg stale]

/-- A goal that was expanded is answered at once. -/
theorem answers_of_mem (h : s.Consistent weave) (known : goal ∈ s.goals) :
    Answers weave goal s := by
  cases atGoal : s.found.lookup goal with
  | none => exact absurd known (lookup_eq_none_iff.1 atGoal)
  | some ids =>
    refine ⟨ids, s, fun depth within => ?_, ?_, (lookup_eq_some_iff_mem h.nodup).1 atGoal⟩
    · obtain ⟨depth, rfl⟩ := Nat.exists_eq_add_one_of_ne_zero (Nat.ne_zero_of_lt within)
      simp only [search, atGoal]
    have stale : goal ∉ s.pending weave := fun mem => (mem_pending.1 mem).2 known
    refine { Grows.refl h with order := fun stack => ?_ }
    rw [List.singleton_append, discover_cons_of_notMem stale]

/-- What is not in the index asks for nothing. -/
theorem subgoals_eq_nil (unlisted : goal ∉ weave.index.goals weave.grammar) :
    weave.subgoals goal = [] := by
  rw [Weave.subgoals, meeting_eq_nil unlisted, List.flatMap_nil]

/-- **To expand a goal** is to make its nodes and to give them their branches. -/
theorem Grows.of_register (fresh : goal ∉ s.goals)
    (grows : Grows weave (.range' s.nodes.size (weave.meeting goal).length) (weave.subgoals goal)
      (s.register goal (weave.meeting goal)) s') : Grows weave [] [goal] s s' := by
  have size : (s.register goal (weave.meeting goal)).nodes.size
      = s.nodes.size + (weave.meeting goal).length := by simp [register]
  constructor
  case consistent => exact grows.consistent
  case found => exact (List.prefix_append _ _).trans grows.found
  case kept =>
    intro id lt _
    rw [grows.kept id (by omega) (by rw [List.mem_range'_1]; omega)]
    exact Array.getElem?_append_left lt
  case settled =>
    intro id lt new
    have le : s.nodes.size ≤ id := new.resolve_right List.not_mem_nil
    refine grows.settled id lt ?_
    rw [size, List.mem_range'_1]
    omega
  case order =>
    intro stack
    rw [← grows.order, met_register, pending_register, List.singleton_append]
    by_cases listed : goal ∈ weave.index.goals weave.grammar
    · rw [if_pos listed, discover, dif_pos (mem_pending.2 ⟨listed, fresh⟩), List.append_assoc,
        List.singleton_append]
    -- a goal without spans is remembered too, but `discover` passes it over
    · have stale : goal ∉ s.pending weave := fun mem => listed (mem_pending.1 mem).1
      rw [if_neg listed, discover_cons_of_notMem stale, List.erase_of_not_mem stale,
        subgoals_eq_nil listed, List.append_nil, List.nil_append]

/-- **A new goal is answered**, when its nodes are given their branches. -/
theorem answers_of_settle (fresh : goal ∉ s.goals)
    (settles : ∃ s', (∀ depth, (s.pending weave).length ≤ depth →
        settle weave (search weave depth) (.range' s.nodes.size (weave.meeting goal).length)
          (s.register goal (weave.meeting goal)) = some s')
      ∧ Grows weave (.range' s.nodes.size (weave.meeting goal).length) (weave.subgoals goal)
        (s.register goal (weave.meeting goal)) s') : Answers weave goal s := by
  obtain ⟨s', settles, grows⟩ := settles
  refine ⟨_, s', fun depth within => ?_, grows.of_register fresh,
    grows.found.subset (List.mem_append_right _ (List.mem_singleton_self _))⟩
  obtain ⟨depth, rfl⟩ := Nat.exists_eq_add_one_of_ne_zero (Nat.ne_zero_of_lt within)
  simp only [search, lookup_eq_none_iff.2 fresh, settles depth (Nat.le_of_lt_succ within),
    Option.bind_eq_bind, Option.bind_some]

/-- **Every search comes to an end.**  The induction is on the number of goals that are met and not
expanded yet: what a search for one of them asks for, it asks for when there are fewer. -/
theorem Consistent.answers (h : s.Consistent weave) (goal : Goal) : Answers weave goal s := by
  induction count : (s.pending weave).length using Nat.strong_induction_on generalizing s goal with
  | _ count ih =>
    subst count
    by_cases known : goal ∈ s.goals
    · exact answers_of_mem h known
    refine answers_of_settle known ?_
    have start := h.register known
    by_cases listed : goal ∈ weave.index.goals weave.grammar
    · have less : ((s.register goal (weave.meeting goal)).pending weave).length
          < (s.pending weave).length := by
        rw [pending_register, List.length_erase_of_mem (mem_pending.2 ⟨listed, known⟩)]
        exact Nat.sub_one_lt_of_lt (List.length_pos_of_mem (mem_pending.2 ⟨listed, known⟩))
      have ready : (s.register goal (weave.meeting goal)).Ready weave :=
        fun later consistent found goal =>
          ih _ (Nat.lt_of_le_of_lt (pending_le found) less) consistent goal rfl
      have listed : (goal, _) ∈ (s.register goal (weave.meeting goal)).found :=
        List.mem_append_right _ (List.mem_singleton_self _)
      obtain ⟨s', settles, grows⟩ := ready.settle start List.prefix_rfl (start.places _ listed)
      exact ⟨s', fun depth le => settles depth (Nat.lt_of_lt_of_le less le), grows⟩
    · rw [meeting_eq_nil listed] at start ⊢
      rw [subgoals_eq_nil listed]
      exact ⟨_, fun _ _ => rfl, .refl start⟩

end Whole

/-! ## The outermost search -/

section Outermost

variable {weave : Weave κ} {s : Extraction} {goal : Goal} {ids : List NodeId} {id : NodeId}

theorem consistent_empty : ({} : Extraction).Consistent weave :=
  ⟨List.nodup_nil, rfl, fun _ mem => absurd mem List.not_mem_nil⟩

theorem pending_empty : ({} : Extraction).pending weave = weave.index.goals weave.grammar :=
  List.filter_eq_self.2 fun _ _ => rfl

theorem met_flatMap_meeting : (s.met weave).flatMap weave.meeting = s.spans weave := by
  refine Weave.flatMap_filter_of_forall fun goal _ unlisted => meeting_eq_nil ?_
  simpa using unlisted

variable [DecidableEq κ]

/-- **The goals come as `discover` lists them.** -/
theorem Grows.discover_eq (grows : Grows weave [] [goal] {} s) :
    discover weave.subgoals (weave.index.goals weave.grammar) [goal] = s.met weave := by
  have order := grows.order []
  rwa [List.append_nil, pending_empty, discover, List.append_nil] at order

theorem Grows.arenaSpans_eq (grows : Grows weave [] [⟨weave.grammar.entry, 0⟩] {} s) :
    weave.arenaSpans = s.spans weave := by
  rw [Weave.arenaSpans, Weave.goalsFound, grows.discover_eq, met_flatMap_meeting]

/-- **The nodes of the outermost search for the entry** are the ones created. -/
theorem Grows.nodes_eq (wf : weave.index.WellFormed)
    (grows : Grows weave [] [⟨weave.grammar.entry, 0⟩] {} s) : s.nodes = weave.created := by
  have nodup := Weave.nodup_arenaSpans wf
  refine Array.ext_getElem? fun id => ?_
  rw [Weave.getElem?_created, grows.arenaSpans_eq, ← grows.consistent.spans_eq, List.getElem?_map,
    Array.getElem?_toList]
  cases atId : s.nodes[id]? with
  | none => rfl
  | some node =>
    obtain ⟨node', atId', rows⟩ := grows.settled id (Array.getElem?_eq_some_iff.1 atId).1
      (.inl (Nat.zero_le id))
    obtain rfl : node = node' := Option.some.inj (atId.symm.trans atId')
    have place : (s.spans weave)[id]? = some node.span := by
      rw [← grows.consistent.spans_eq, List.getElem?_map, Array.getElem?_toList, atId]
      rfl
    rw [← grows.arenaSpans_eq] at rows place
    have rows' := Weave.forall₂_branches_node wf (List.mem_of_getElem? place)
    have branches := List.right_unique_forall₂' (Relator.RightUnique.forall₂
      (Child.Numbered.rightUnique nodup)) rows rows'
    have whole : node = { node with branches := (weave.node node.span).branches } := by
      rw [← branches]
    exact congrArg some whole

theorem filterMap_eq_of_forall₂ {α β : Type} {f : α → Option β} {xs : List α} {ys : List β}
    (h : List.Forall₂ (fun y x => f x = some y) ys xs) : xs.filterMap f = ys := by
  induction h with
  | nil => rfl
  | cons head _ ih => rw [List.filterMap_cons_some head, ih]

/-- **What it gives for the entry** are the candidates for roots. -/
theorem Grows.ids_eq (wf : weave.index.WellFormed)
    (grows : Grows weave [] [⟨weave.grammar.entry, 0⟩] {} s)
    (found : (⟨weave.grammar.entry, 0⟩, ids) ∈ s.found) :
    ids = weave.candidates (weave.numbering weave.arenaSpans) := by
  refine (filterMap_eq_of_forall₂ ?_).symm
  have places := grows.consistent.places _ found
  rw [← grows.arenaSpans_eq] at places
  refine places.imp fun id span place => (Weave.number?_eq_some_iff wf ?_).2 place
  exact Weave.mem_startingAt_of_mem_arenaSpans wf (List.mem_of_getElem? place)

end Outermost

end Extraction

/-! ## Any sets that fit -/

section Recorded

variable {g : Grammar κ} {sets : Array ItemSet} {span : Span}

/-- **A span is recorded**: its production is complete in the set of its end. -/
def Recorded (g : Grammar κ) (sets : Array ItemSet) (span : Span) : Prop :=
  ∃ item ∈ (sets.getD span.stop {}).toList,
    item.isComplete g = true ∧ item.origin = span.start ∧ item.production = span.production

theorem mem_startingAt_iff_recorded {start : Nat} :
    span ∈ (SpanIndex.ofSets g sets).startingAt start
      ↔ span.start = start ∧ start < sets.size ∧ Recorded g sets span := by
  change span ∈ (SpanIndex.ofSets g (Chart.mk sets #[] #[] : Chart κ).sets).startingAt start ↔ _
  rw [mem_startingAt_ofSets]
  refine and_congr_right fun same => and_congr_right fun _ => ?_
  rw [Recorded, same]
  rfl

theorem FittingSets.wellFormed (fits : FittingSets g sets) :
    (SpanIndex.ofSets g sets).WellFormed where
  ordered := fun start => by
    have fits' : FittingSets g (Chart.mk sets #[] #[] : Chart κ).sets := fits
    exact fits'.pairwise_startingAt
  start_eq := fun _ _ listed => (mem_startingAt_iff_recorded.1 listed).1
  le := fun start span listed => by
    obtain ⟨rfl, -, item, mem, -, origin, -⟩ := mem_startingAt_iff_recorded.1 listed
    exact origin ▸ ((fits span.stop).inRange item mem).origin_le

/-- **The spans that meet a goal are the recorded ones** of its name from its position on. -/
theorem FittingSets.mem_meeting_iff (fits : FittingSets g sets) {accepted : Array (List κ)}
    {goal : Goal} : span ∈ Weave.meeting ⟨g, .ofSets g sets, accepted⟩ goal
      ↔ span.start = goal.start ∧ g.name span.production = goal.name ∧ Recorded g sets span := by
  rw [Weave.mem_meeting_iff, mem_startingAt_iff_recorded, Grammar.mem_productionsOf]
  constructor
  · rintro ⟨⟨start, -, recorded⟩, -, named⟩
    exact ⟨start, named, recorded⟩
  · rintro ⟨start, named, item, mem, complete, origin, same⟩
    have range := (fits span.stop).inRange item mem
    have there : item ∈ (Chart.mk sets #[] #[] : Chart κ).itemsAt span.stop := mem
    have bound : span.stop < sets.size := Chart.lt_of_mem_itemsAt there
    refine ⟨⟨start, ?_, item, mem, complete, origin, same⟩, same ▸ range.production_lt, named⟩
    have := range.origin_le
    omega

variable [DecidableEq κ]

/-- **The search that is asked again while it is at work finds what is recorded.**  For any sets
whose items fit their places and any accepted kinds, the outermost search for a goal comes to an
end: at most one search more than there are goals in the index is at work within the others, and no
node is looked up that is not there.  It expands no goal twice.  Each goal that it expanded, its own
among them, has one node for each recorded span of its name from its position on, in the order of
their ends and productions, and the arena has these nodes and no others.  Every node has one branch
for each thread of its span: a child for each symbol, without gaps from its start to its end, a
token that was read as the terminal or the node of any recorded span of the nonterminal.  The search
for the entry makes the nodes that `Weave.created` lists and gives the candidates for roots. -/
theorem search_exact (fits : FittingSets g sets) (accepted : Array (List κ)) (goal : Goal) :
    let weave : Weave κ := ⟨g, .ofSets g sets, accepted⟩
    ∃ ids s, (∀ depth, (weave.index.goals g).length < depth →
        Extraction.search weave depth goal {} = some (ids, s))
      ∧ (s.found.map Prod.fst).Nodup
      ∧ (goal, ids) ∈ s.found
      ∧ (∀ other, (weave.meeting other).Pairwise Span.Before ∧ ∀ span, span ∈ weave.meeting other
        ↔ span.start = other.start ∧ g.name span.production = other.name ∧ Recorded g sets span)
      ∧ (∀ entry ∈ s.found, List.Forall₂ (fun (id : NodeId) span =>
        s.nodes[id]?.map Node.span = some span) entry.2 (weave.meeting entry.1))
      ∧ s.nodes.toList.map Node.span = (s.found.map Prod.fst).flatMap weave.meeting
      ∧ (s.nodes.toList.map Node.span).Nodup
      ∧ (∀ (id : NodeId) node, s.nodes[id]? = some node → ∃ rows : List (List (Child Span)),
        rows.Nodup
          ∧ (∀ row, row ∈ rows
            ↔ weave.Thread (g.symbols node.production) row node.start node.stop)
          ∧ List.Forall₂ (List.Forall₂ (Child.Numbered (s.nodes.toList.map Node.span))) rows
            node.branches)
      ∧ (goal = ⟨g.entry, 0⟩ →
        s.nodes = weave.created ∧ ids = weave.candidates (weave.numbering weave.arenaSpans)) := by
  intro weave
  have wf : weave.index.WellFormed := fits.wellFormed
  have start : ({} : Extraction).Consistent weave := Extraction.consistent_empty
  obtain ⟨ids, s, searched, grows, found⟩ := start.answers goal
  have spans_eq := grows.consistent.spans_eq
  refine ⟨ids, s, fun depth within => searched depth ?_, grows.consistent.nodup, found,
    fun other => ⟨(wf.ordered other.start).filter _, fun span => fits.mem_meeting_iff⟩,
    fun entry mem => ?_, spans_eq, ?_, fun id node atId => ?_, ?_⟩
  · rwa [Extraction.Within, Extraction.pending_empty]
  · refine (grows.consistent.places entry mem).imp fun id span place => ?_
    rwa [← spans_eq, List.getElem?_map, Array.getElem?_toList] at place
  · rw [spans_eq]
    exact Weave.nodup_flatMap_meeting wf grows.consistent.nodup
  · obtain ⟨node', atId', rows⟩ := grows.settled id (Array.getElem?_eq_some_iff.1 atId).1
      (.inl (Nat.zero_le id))
    obtain rfl : node = node' := Option.some.inj (atId.symm.trans atId')
    rw [Weave.branches_eq_threads, ← spans_eq] at rows
    exact ⟨_, (Weave.pairwise_threads wf).imp fun less => less.ne fun _ _ precedes =>
      precedes.before.ne, fun row => Weave.mem_threads_iff wf, rows⟩
  · rintro rfl
    exact ⟨grows.nodes_eq wf, grows.ids_eq wf found⟩

end Recorded

/-- Two complete productions over one token, one of which derives its own name. -/
def loopingSets : Array ItemSet := #[{}, ⟨#[⟨0, 1, 0⟩, ⟨1, 1, 0⟩]⟩]

theorem fittingSets_looping : FittingSets looping loopingSets := by
  rintro (_ | _ | pos)
  · exact ItemSet.fits_empty
  · refine ⟨by decide, ?_⟩
    change ∀ item ∈ [⟨0, 1, 0⟩, ⟨1, 1, 0⟩], Item.InRange looping 1 item
    simp only [List.forall_mem_cons]
    exact ⟨⟨by decide, by decide, by decide⟩, ⟨by decide, by decide, by decide⟩,
      List.forall_mem_nil _⟩
  · have beyond : ¬ pos + 1 + 1 < loopingSets.size := by simp [loopingSets]
    simp only [Array.getD, beyond, dite_false]
    exact ItemSet.fits_empty

/-- What stands in a list has its partner in a related one. -/
theorem exists_mem_of_forall₂ {α β : Type} {R : α → β → Prop} {xs : List α} {ys : List β}
    (h : List.Forall₂ R xs ys) {x : α} (mem : x ∈ xs) : ∃ y ∈ ys, R x y := by
  induction h with
  | nil => exact absurd mem List.not_mem_nil
  | cons head _ ih =>
    rcases List.mem_cons.1 mem with rfl | mem
    · exact ⟨_, List.mem_cons_self, head⟩
    · obtain ⟨y, memY, related⟩ := ih mem
      exact ⟨y, List.mem_cons_of_mem _ memY, related⟩

/-- **A node finds itself while it is at work**: the search for `S` from the beginning comes upon
itself, and the node of `S -> S` becomes its own child. -/
theorem search_exact_looping :
    FittingSets looping loopingSets
      ∧ ∃ depth ids s node, ∃ id : NodeId,
        Extraction.search ⟨looping, .ofSets looping loopingSets, #[["a"]]⟩ depth ⟨"S", 0⟩ {}
            = some (ids, s)
          ∧ s.nodes[id]? = some node ∧ [.node id] ∈ node.branches := by
  refine ⟨fittingSets_looping, ?_⟩
  obtain ⟨ids, s, searched, -, found, meets, places, -, nodup, branches, -⟩ :=
    search_exact fittingSets_looping #[["a"]] ⟨"S", 0⟩
  have meets := ((meets ⟨"S", 0⟩).2 ⟨0, 1, 0⟩).2
    ⟨rfl, by decide, ⟨0, 1, 0⟩, by decide, by decide, rfl, rfl⟩
  obtain ⟨id, -, made⟩ := exists_mem_of_forall₂ (places _ found).flip meets
  obtain ⟨⟨production, start, stop, below⟩, atId, span_eq⟩ := Option.map_eq_some_iff.1 made
  obtain ⟨rfl, rfl, rfl⟩ := Span.mk.inj span_eq
  obtain ⟨rows, -, threads, numbered⟩ := branches _ _ atId
  obtain ⟨branch, listed, row⟩ :=
    exists_mem_of_forall₂ numbered ((threads _).2 (.node meets (.nil 1)))
  have itself : (s.nodes.toList.map Node.span)[id]? = some ⟨0, 1, 0⟩ := by
    rw [List.getElem?_map, Array.getElem?_toList, made]
  obtain rfl : [.node id] = branch := List.right_unique_forall₂'
    (Child.Numbered.rightUnique nodup) (.cons (.node itself) .nil) row
  exact ⟨_, ids, s, _, id, searched _ (Nat.lt_succ_self _), atId, listed⟩

end Earley
