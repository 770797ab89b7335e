import Earley.Forest.Search
import Earley.Proofs.Forest.Pruning

/-!
# Proofs/Forest/Search — the extraction as a search that is asked again while it is at work

`search` gives the nodes of a goal and remembers them.  It makes them before it has their branches,
so that a search for the same goal further down finds them; their branches are laid afterwards, one
node after the other, and this asks for further goals.  So a row of children may name a node whose
own branches are still missing.

That does no harm, because only the number and the end of such a node are looked at.  Each part of
the search is compared with what it would lay over spans, and `Grows` says what it adds to the
state: all nodes that it makes have their branches when it is done, the others stay as they are, and
the goals come in the order of `discover`.
-/

namespace Earley

universe u

variable {κ : Type u}

namespace Extraction

/-! ## States -/

section State

variable {weave : Weave κ} {s s' s'' : Extraction} {goal : Goal} {id : NodeId} {ids : List NodeId}

/-- The goals that were expanded. -/
def goals (s : Extraction) : List Goal := s.found.map Prod.fst

/-- The spans that became nodes. -/
def spans (weave : Weave κ) (s : Extraction) : List Span := s.goals.flatMap weave.meeting

/-- The goals that are met and were not expanded yet. -/
def pending (weave : Weave κ) (s : Extraction) : List Goal :=
  (weave.index.goals weave.grammar).filter fun goal => goal ∉ s.goals

/-- **A depth is enough** if it is more than there are goals pending. -/
def Within (weave : Weave κ) (s : Extraction) (depth : Nat) : Prop :=
  (s.pending weave).length < depth

/-- The goals that are met and were expanded. -/
def met (weave : Weave κ) (s : Extraction) : List Goal :=
  s.goals.filter fun goal => goal ∈ weave.index.goals weave.grammar

/-- Nodes at the places of the spans. -/
abbrev Places (spans : List Span) (ids : List NodeId) (places : List Span) : Prop :=
  List.Forall₂ (fun (id : NodeId) span => spans[id]? = some span) ids places

/-- **A consistent state**: no goal was expanded twice, the nodes are those of the spans that meet
the goals, and each goal has its own. -/
structure Consistent (weave : Weave κ) (s : Extraction) : Prop where
  nodup : s.goals.Nodup
  spans_eq : s.nodes.toList.map Node.span = s.spans weave
  places : ∀ entry ∈ s.found, Places (s.spans weave) entry.2 (weave.meeting entry.1)

theorem pending_le (found : s.found <+: s'.found) :
    (s'.pending weave).length ≤ (s.pending weave).length := by
  obtain ⟨rest, found⟩ := found
  refine (List.monotone_filter_right _ fun goal fresh => ?_).length_le
  rw [decide_eq_true_eq, goals, ← found, List.map_append, List.mem_append, not_or] at fresh
  exact decide_eq_true fresh.1

theorem Within.mono {depth : Nat} (h : s.Within weave depth) (found : s.found <+: s'.found) :
    s'.Within weave depth :=
  Nat.lt_of_le_of_lt (pending_le found) h

theorem spans_mono (h : s.found <+: s'.found) : s.spans weave <+: s'.spans weave :=
  (h.map Prod.fst).flatMap weave.meeting

theorem getElem?_of_initial {α : Type} {xs ys : List α} {x : α} {place : Nat} (h : xs <+: ys)
    (atPlace : xs[place]? = some x) : ys[place]? = some x := by
  obtain ⟨more, rfl⟩ := h
  rwa [List.getElem?_append_left (List.getElem?_eq_some_iff.1 atPlace).1]

theorem numbered_mono {xs ys : List Span} (h : xs <+: ys) {old : Child Span} {new : Child NodeId}
    (numbered : Child.Numbered xs old new) : Child.Numbered ys old new := by
  cases numbered with
  | token index => exact .token index
  | node place => exact .node (getElem?_of_initial h place)

theorem Consistent.size_eq (h : s.Consistent weave) : s.nodes.size = (s.spans weave).length := by
  rw [← h.spans_eq, List.length_map, Array.length_toList]

theorem Consistent.exists_node (h : s.Consistent weave) {span : Span}
    (place : (s.spans weave)[id]? = some span) :
    ∃ node, s.nodes[id]? = some node ∧ node.span = span := by
  rw [← h.spans_eq, List.getElem?_map, Option.map_eq_some_iff] at place
  simpa using place

theorem size_le (h : s.Consistent weave) (h' : s'.Consistent weave) (found : s.found <+: s'.found) :
    s.nodes.size ≤ s'.nodes.size := by
  rw [h.size_eq, h'.size_eq]
  exact (spans_mono found).length_le

variable [DecidableEq κ]

/-- **A node has its branches**: all threads of its span. -/
def Settled (weave : Weave κ) (s : Extraction) (id : NodeId) : Prop :=
  ∃ node, s.nodes[id]? = some node
    ∧ List.Forall₂ (List.Forall₂ (Child.Numbered (s.spans weave))) (weave.branches node.span)
      node.branches

theorem Settled.mono (h : s.Settled weave id) (found : s.found <+: s'.found)
    (kept : s'.nodes[id]? = s.nodes[id]?) : s'.Settled weave id := by
  obtain ⟨node, atId, rows⟩ := h
  exact ⟨node, kept.trans atId, rows.imp fun _ _ row => row.imp fun _ _ numbered =>
    numbered_mono (spans_mono found) numbered⟩

/-- **What a part of the search adds to a state**: the nodes `touched` and all new ones have their
branches in the end, the others are as before, and the goals `asked` are expanded in the order of
`discover`. -/
structure Grows (weave : Weave κ) (touched : List NodeId) (asked : List Goal) (s s' : Extraction) :
    Prop where
  consistent : s'.Consistent weave
  found : s.found <+: s'.found
  kept : ∀ id < s.nodes.size, id ∉ touched → s'.nodes[id]? = s.nodes[id]?
  settled : ∀ id < s'.nodes.size, s.nodes.size ≤ id ∨ id ∈ touched → s'.Settled weave id
  order : ∀ stack, s.met weave ++ discover weave.subgoals (s.pending weave) (asked ++ stack)
    = s'.met weave ++ discover weave.subgoals (s'.pending weave) stack

theorem Grows.refl (h : s.Consistent weave) : Grows weave [] [] s s where
  consistent := h
  found := List.prefix_rfl
  kept := fun _ _ _ => rfl
  settled := fun _ lt new => new.elim (fun le => absurd lt (Nat.not_lt.2 le))
    fun mem => absurd mem List.not_mem_nil
  order := fun _ => rfl

theorem Grows.spans_initial {touched : List NodeId} {asked : List Goal}
    (h : Grows weave touched asked s s') : s.spans weave <+: s'.spans weave :=
  Extraction.spans_mono h.found

/-- **One part of the search after the other.** -/
theorem Grows.trans {touched touched' : List NodeId} {asked asked' : List Goal}
    (start : s.Consistent weave) (h : Grows weave touched asked s s')
    (h' : Grows weave touched' asked' s' s'') :
    Grows weave (touched ++ touched') (asked ++ asked') s s'' where
  consistent := h'.consistent
  found := h.found.trans h'.found
  kept := by
    intro id lt untouched
    rw [List.mem_append, not_or] at untouched
    have lt' := Nat.lt_of_lt_of_le lt (size_le start h.consistent h.found)
    rw [h'.kept id lt' untouched.2, h.kept id lt untouched.1]
  settled := by
    intro id lt new
    by_cases later : s'.nodes.size ≤ id ∨ id ∈ touched'
    · exact h'.settled id lt later
    · rw [not_or, Nat.not_le] at later
      refine (h.settled id later.1 ?_).mono h'.found (h'.kept id later.1 later.2)
      exact new.imp_right fun mem => (List.mem_append.1 mem).resolve_right later.2
  order := by
    intro stack
    rw [List.append_assoc, h.order, h'.order]

end State

/-! ## The parts of a search -/

section Parts

/-- A child over spans and the same child over numbers, with its end. -/
def Ended (spans : List Span) (old : Child Span) (new : Nat × Child NodeId) : Prop :=
  new.1 = old.stop ∧ Child.Numbered spans old new.2

/-- The beginning of a row over spans and the same one over numbers. -/
def Begun (spans : List Span) (old : Nat × List (Child Span)) (new : Nat × Branch) : Prop :=
  new.1 = old.1 ∧ List.Forall₂ (Child.Numbered spans) old.2 new.2

variable {weave : Weave κ} {s s' : Extraction} {stop pos : Nat} {ids : List NodeId}

/-- The nodes of spans are children with the ends of the spans. -/
theorem Consistent.childrenOf_eq (h : s.Consistent weave) {spans : List Span}
    (places : Places (s.spans weave) ids spans) : ∃ ended, s.childrenOf ids = some ended
      ∧ List.Forall₂ (Ended (s.spans weave)) (spans.map .node) ended := by
  induction places with
  | nil => exact ⟨[], rfl, .nil⟩
  | @cons id span ids spans place _ ih =>
    obtain ⟨ended, children, rows⟩ := ih
    obtain ⟨node, atId, rfl⟩ := h.exists_node place
    refine ⟨(node.stop, .node id) :: ended, ?_, .cons ⟨rfl, .node place⟩ rows⟩
    unfold childrenOf at children ⊢
    simp [List.mapM_cons, atId, children]

variable [DecidableEq κ]

/-- **The search for a goal comes to an end** and remembers what it gives: it needs no more depth
than there are goals pending, and gives the same with more. -/
def Answers (weave : Weave κ) (goal : Goal) (s : Extraction) : Prop :=
  ∃ ids s', (∀ depth, s.Within weave depth → search weave depth goal s = some (ids, s'))
    ∧ Grows weave [] [goal] s s' ∧ (goal, ids) ∈ s'.found

/-- Every search comes to an end, as soon as the goals of a state are expanded. -/
def Ready (weave : Weave κ) (s : Extraction) : Prop :=
  ∀ s', s'.Consistent weave → s.found <+: s'.found → ∀ goal, Answers weave goal s'

theorem Ready.mono (h : s.Ready weave) (found : s.found <+: s'.found) : s'.Ready weave :=
  fun later consistent more => h later consistent (found.trans more)

/-- **The children for a symbol** are those over spans. -/
theorem Ready.children (ready : s.Ready weave) (start : s.Consistent weave) (pos : Nat)
    (symbol : Symbol κ) :
    ∃ ended s', (∀ depth, s.Within weave depth →
        children weave (search weave depth) pos symbol s = some (ended, s'))
      ∧ Grows weave [] (symbol.name?.toList.map (⟨·, pos⟩)) s s'
      ∧ List.Forall₂ (Ended (s'.spans weave)) (weave.children pos symbol) ended := by
  cases symbol with
  | terminal kind =>
    refine ⟨_, s, fun _ _ => rfl, .refl start, ?_⟩
    rw [Weave.children]
    split
    · exact .cons ⟨rfl, .token pos⟩ .nil
    · exact .nil
  | nonterminal name =>
    obtain ⟨ids, s', searched, grows, known⟩ := ready s start List.prefix_rfl ⟨name, pos⟩
    obtain ⟨ended, lookedUp, rows⟩ :=
      grows.consistent.childrenOf_eq (grows.consistent.places _ known)
    refine ⟨ended, s', fun depth within => ?_, grows, rows⟩
    simp only [Extraction.children, searched depth within, lookedUp, Option.bind_eq_bind,
      Option.bind_some]

/-- **One more child** for each beginning of a row. -/
theorem Ready.extend (ready : s.Ready weave) (start : s.Consistent weave) (stop : Nat)
    (last : Bool) (symbol : Symbol κ) {spans : List Span} (known : spans <+: s.spans weave)
    {rows : List (Nat × List (Child Span))} {begun : List (Nat × Branch)}
    (same : List.Forall₂ (Begun spans) rows begun) :
    ∃ extended s', (∀ depth, s.Within weave depth →
        extend weave (search weave depth) stop last symbol begun s = some (extended, s'))
      ∧ Grows weave [] (symbol.name?.toList.flatMap fun name => rows.map fun row => ⟨name, row.1⟩)
        s s'
      ∧ List.Forall₂ (Begun (s'.spans weave)) (weave.extend stop last symbol rows) extended := by
  induction same generalizing s with
  | nil =>
    refine ⟨[], s, fun _ _ => rfl, ?_, .nil⟩
    cases symbol <;> exact Grows.refl start
  | @cons row first rows begun head tail ih =>
    obtain ⟨pos, branch⟩ := first
    obtain rfl : pos = row.1 := head.1
    obtain ⟨ended, s₁, found, grows, fit⟩ := ready.children start row.1 symbol
    have known₁ : spans <+: s₁.spans weave := known.trans grows.spans_initial
    obtain ⟨more, s₂, laid, grows', rest⟩ := ih (ready.mono grows.found) grows.consistent known₁
    let fitting := ended.filter fun entry => reaches stop last entry.1
    refine ⟨fitting.map (fun entry => (entry.1, branch ++ [entry.2])) ++ more, s₂,
      fun depth within => ?_, ?_, ?_⟩
    · simp only [Extraction.extend, found depth within, laid depth (within.mono grows.found),
        Option.bind_eq_bind, Option.bind_some, fitting]
    -- the child of the first beginning is asked for before those of the others
    · have both := grows.trans start grows'
      cases symbol with
      | terminal kind => simpa [Symbol.name?] using both
      | nonterminal name => simpa [Symbol.name?] using both
    · rw [Weave.extend, List.flatMap_cons]
      refine List.rel_append ?_ rest
      refine List.forall₂_map_left_iff.2 (List.forall₂_map_right_iff.2 ?_)
      have alike : ∀ child entry, Ended (s₁.spans weave) child entry →
          (reaches stop last child.stop ↔ reaches stop last entry.1) := fun _ _ h => by rw [h.1]
      refine (List.rel_filter alike fit).imp fun child entry h => ?_
      have later := grows'.spans_initial
      refine ⟨h.1, List.rel_append (head.2.imp fun _ _ => numbered_mono (known₁.trans later)) ?_⟩
      exact .cons (numbered_mono later h.2) .nil

/-- No positions, no goals. -/
theorem goalsWithin_nil {symbols : List (Symbol κ)} : weave.goalsWithin stop symbols [] = [] := by
  induction symbols with
  | nil => rfl
  | cons symbol symbols ih => simp [Weave.goalsWithin, ih]

/-- The goals for the first symbol, and those behind the beginnings of rows that it extends. -/
theorem goalsWithin_cons {symbol : Symbol κ} {rest : List (Symbol κ)}
    {rows : List (Nat × List (Child Span))} :
    weave.goalsWithin stop (symbol :: rest) (rows.map Prod.fst)
      = (symbol.name?.toList.flatMap fun name => rows.map fun row => ⟨name, row.1⟩)
        ++ weave.goalsWithin stop rest
          ((weave.extend stop rest.isEmpty symbol rows).map Prod.fst) := by
  cases rest with
  | nil => simp [Weave.goalsWithin, Function.comp_def]
  | cons next rest =>
    simp [Weave.goalsWithin, Weave.extend, Weave.childrenUpTo, Function.comp_def,
      List.flatMap_map, List.map_flatMap]

/-- **All symbols, one after the other.** -/
theorem Ready.lay (ready : s.Ready weave) (start : s.Consistent weave) (stop : Nat)
    (symbols : List (Symbol κ)) {rows : List (Nat × List (Child Span))}
    {begun : List (Nat × Branch)} (same : List.Forall₂ (Begun (s.spans weave)) rows begun) :
    ∃ laid s', (∀ depth, s.Within weave depth →
        lay weave (search weave depth) stop symbols begun s = some (laid, s'))
      ∧ Grows weave [] (weave.goalsWithin stop symbols (rows.map Prod.fst)) s s'
      ∧ List.Forall₂ (Begun (s'.spans weave)) (weave.lay stop symbols rows) laid := by
  induction symbols generalizing rows begun s with
  | nil => exact ⟨begun, s, fun _ _ => rfl, .refl start, same⟩
  | cons symbol rest ih =>
    obtain ⟨extended, s₁, extension, grows, same₁⟩ :=
      ready.extend start stop rest.isEmpty symbol List.prefix_rfl same
    have empty : extended.isEmpty = (weave.extend stop rest.isEmpty symbol rows).isEmpty := by
      rw [Bool.eq_iff_iff, List.isEmpty_iff_length_eq_zero, List.isEmpty_iff_length_eq_zero,
        same₁.length_eq]
    rw [goalsWithin_cons, Weave.lay, ← empty]
    cases none : extended.isEmpty with
    | true =>
      refine ⟨[], s₁, fun depth within => ?_, ?_, .nil⟩
      · simp only [Extraction.lay, extension depth within, none, Option.bind_eq_bind,
          Option.bind_some, if_true]
      -- no beginnings are left, and so nothing more would be asked for
      rw [empty, List.isEmpty_iff] at none
      rwa [none, List.map_nil, goalsWithin_nil, List.append_nil]
    | false =>
      obtain ⟨laid, s₂, lays, grows', same₂⟩ := ih (ready.mono grows.found) grows.consistent same₁
      refine ⟨laid, s₂, fun depth within => ?_, grows.trans start grows', same₂⟩
      simp only [Extraction.lay, extension depth within, none, lays depth (within.mono grows.found),
        Option.bind_eq_bind, Option.bind_some, Bool.false_eq_true, if_false]

/-- **The branches of a node** are the threads of its span. -/
theorem Ready.thread (ready : s.Ready weave) (start : s.Consistent weave) {id : NodeId}
    {node : Node} (atId : s.nodes[id]? = some node) :
    ∃ branches s', (∀ depth, s.Within weave depth →
        thread weave (search weave depth) id s = some (branches, s'))
      ∧ Grows weave []
        (weave.goalsWithin node.stop (weave.grammar.symbols node.production) [node.start]) s s'
      ∧ List.Forall₂ (List.Forall₂ (Child.Numbered (s'.spans weave))) (weave.branches node.span)
        branches := by
  have begun : List.Forall₂ (Begun (s.spans weave)) [(node.start, [])] [(node.start, [])] :=
    .cons ⟨rfl, .nil⟩ .nil
  obtain ⟨rows, s', laid, grows, same⟩ :=
    ready.lay start node.stop (weave.grammar.symbols node.production) begun
  refine ⟨(rows.filter fun row => row.1 = node.stop).map Prod.snd, s', fun depth within => ?_,
    grows, ?_⟩
  · simp only [Extraction.thread, atId, laid depth within, Option.bind_eq_bind, Option.bind_some]
  refine List.forall₂_map_left_iff.2 (List.forall₂_map_right_iff.2 ?_)
  have alike : ∀ row entry, Begun (s'.spans weave) row entry →
      (decide (row.1 = node.stop) ↔ decide (entry.1 = node.stop)) := fun _ _ h => by rw [h.1]
  exact (List.rel_filter alike same).imp fun _ _ h => h.2

/-- **A node is given its branches.** -/
theorem grows_setBranches (h : s.Consistent weave) {id : NodeId} {span : Span}
    {branches : List Branch} (place : (s.spans weave)[id]? = some span)
    (rows : List.Forall₂ (List.Forall₂ (Child.Numbered (s.spans weave))) (weave.branches span)
      branches) : Grows weave [id] [] s (s.setBranches id branches) := by
  obtain ⟨node, atId, rfl⟩ := h.exists_node place
  have others (other : NodeId) : (s.setBranches id branches).nodes[other]?
      = if id = other then s.nodes[other]?.map fun node => { node with branches }
        else s.nodes[other]? := Array.getElem?_modify
  refine ⟨⟨h.nodup, ?_, h.places⟩, List.prefix_rfl, fun other _ untouched => ?_,
    fun other lt touched => ?_, fun stack => rfl⟩
  · refine Eq.trans (List.ext_getElem? fun other => ?_) h.spans_eq
    rw [List.getElem?_map, Array.getElem?_toList, others, List.getElem?_map, Array.getElem?_toList]
    split
    · rw [Option.map_map]
      rfl
    · rfl
  · rw [others, if_neg fun same => untouched (List.mem_singleton.2 same.symm)]
  · have same : other = id := by
      refine List.mem_singleton.1 (touched.resolve_left (Nat.not_le.2 ?_))
      simpa [setBranches] using lt
    subst same
    exact ⟨{ node with branches }, by rw [others, if_pos rfl, atId]; rfl, rows⟩

/-- **All nodes of a goal are given their branches.** -/
theorem Ready.settle (ready : s.Ready weave) (start : s.Consistent weave) {places spans : List Span}
    (known : places <+: s.spans weave) (same : Places places ids spans) :
    ∃ s', (∀ depth, s.Within weave depth → settle weave (search weave depth) ids s = some s')
      ∧ Grows weave ids (spans.flatMap fun span =>
        weave.goalsWithin span.stop (weave.grammar.symbols span.production) [span.start]) s s' := by
  induction same generalizing s with
  | nil => exact ⟨s, fun _ _ => rfl, .refl start⟩
  | @cons id span ids spans place _ ih =>
    obtain ⟨node, atId, rfl⟩ := start.exists_node (getElem?_of_initial known place)
    obtain ⟨branches, s₁, threads, grows, rows⟩ := ready.thread start atId
    have known₁ := known.trans grows.spans_initial
    have grows' := grows.trans start
      (grows_setBranches grows.consistent (getElem?_of_initial known₁ place) rows)
    obtain ⟨s₂, settles, grows''⟩ := ih (ready.mono grows'.found) grows'.consistent known₁
    refine ⟨s₂, fun depth within => ?_, ?_⟩
    · simp only [Extraction.settle, threads depth within, settles depth (within.mono grows'.found),
        Option.bind_eq_bind, Option.bind_some]
    simpa [Node.span] using grows'.trans start grows''

end Parts

end Extraction

end Earley
