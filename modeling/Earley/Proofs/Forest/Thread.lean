import Earley.Forest.Thread
import Earley.Proofs.Forest.Spans

/-!
# Proofs/Forest/Thread — threads are the gapless rows of children

`Weave.Thread` says what a thread is: one child for each symbol, each beginning where the one before
ends.  The branches of a span are found symbol by symbol; what comes of it is what a recursion from
child to child lists (`branches_eq_threads`).  This list `threads` has exactly the threads
(`mem_threads_iff`), in lexicographic order (`pairwise_threads`), and the goals listed by
`goalsWithin` are all that they ask for (`goal_mem_goalsWithin`).
-/

namespace Earley

universe u v

variable {κ : Type u}

/-- The goal that a span meets. -/
def Span.goal (g : Grammar κ) (span : Span) : Goal := ⟨g.name span.production, span.start⟩

/-- **Spans are listed in their order, where they begin, and end no earlier.** -/
structure SpanIndex.WellFormed (index : SpanIndex) : Prop where
  ordered : ∀ start, (index.startingAt start).Pairwise Span.Before
  start_eq : ∀ start, ∀ span ∈ index.startingAt start, span.start = start
  le : ∀ start, ∀ span ∈ index.startingAt start, start ≤ span.stop

/-- No span is listed twice. -/
theorem SpanIndex.WellFormed.nodup {index : SpanIndex} (wf : index.WellFormed) (start : Nat) :
    (index.startingAt start).Nodup :=
  (wf.ordered start).imp Span.Before.ne

/-! ## Order -/

/-- **A span precedes another** from the same position: it ends earlier or, at the same end, its
production was declared earlier. -/
structure Span.Precedes (a b : Span) : Prop where
  start : a.start = b.start
  before : a.Before b

/-- **Rows in lexicographic order**: where they differ first, both have nodes, related by
`before`. -/
inductive Child.Lex {ν : Type v} (before : ν → ν → Prop) :
    List (Child ν) → List (Child ν) → Prop
  | here {x y : ν} {row row' : List (Child ν)} (less : before x y) :
      Lex before (.node x :: row) (.node y :: row')
  | there {child : Child ν} {row row' : List (Child ν)} (less : Lex before row row') :
      Lex before (child :: row) (child :: row')

theorem Child.Lex.ne {ν : Type v} {before : ν → ν → Prop} {row row' : List (Child ν)}
    (h : Child.Lex before row row') (irrefl : ∀ x y, before x y → x ≠ y) : row ≠ row' := by
  induction h with
  | here less => exact fun same => irrefl _ _ less (Child.node.inj (List.cons.inj same).1)
  | there _ ih => exact fun same => ih (List.cons.inj same).2

namespace Weave

variable {weave : Weave κ} {pos stop : Nat} {symbols : List (Symbol κ)} {cs : List (Child Span)}

/-! ## What meets a goal -/

theorem mem_meeting_iff {goal : Goal} {span : Span} : span ∈ weave.meeting goal ↔
    span ∈ weave.index.startingAt goal.start
      ∧ span.production ∈ weave.grammar.productionsOf goal.name := by
  simp [meeting, SpanIndex.meeting]

theorem nodup_meeting (wf : weave.index.WellFormed) (goal : Goal) : (weave.meeting goal).Nodup :=
  (wf.nodup goal.start).filter _

/-- A span meets no goal but its own. -/
theorem goal_eq_of_mem_meeting (wf : weave.index.WellFormed) {goal : Goal} {span : Span}
    (h : span ∈ weave.meeting goal) : span.goal weave.grammar = goal := by
  obtain ⟨listed, rule⟩ := mem_meeting_iff.1 h
  obtain ⟨-, named⟩ := Grammar.mem_productionsOf.1 rule
  obtain ⟨name, start⟩ := goal
  simp only [Span.goal, named, wf.start_eq _ span listed]

/-- Different goals are met by different spans. -/
theorem nodup_flatMap_meeting (wf : weave.index.WellFormed) {goals : List Goal}
    (nodup : goals.Nodup) : (goals.flatMap weave.meeting).Nodup := by
  refine List.nodup_flatMap.2 ⟨fun goal _ => nodup_meeting wf goal, ?_⟩
  refine nodup.imp fun different span memA memB => ?_
  exact different ((goal_eq_of_mem_meeting wf memA).symm.trans (goal_eq_of_mem_meeting wf memB))

/-! ## Threads -/

/-- **A thread**: a child for each symbol, without gaps from the first position to the last. -/
inductive Thread (weave : Weave κ) : List (Symbol κ) → List (Child Span) → Nat → Nat → Prop
  | nil (pos : Nat) : Thread weave [] [] pos pos
  | token {kind : κ} {rest : List (Symbol κ)} {cs : List (Child Span)} {pos stop : Nat}
      (reads : kind ∈ weave.accepted.getD pos []) (tail : Thread weave rest cs (pos + 1) stop) :
      Thread weave (.terminal kind :: rest) (.token pos :: cs) pos stop
  | node {name : String} {span : Span} {rest : List (Symbol κ)} {cs : List (Child Span)}
      {pos stop : Nat} (meets : span ∈ weave.meeting ⟨name, pos⟩)
      (tail : Thread weave rest cs span.stop stop) :
      Thread weave (.nonterminal name :: rest) (.node span :: cs) pos stop

theorem Thread.le (wf : weave.index.WellFormed) (h : weave.Thread symbols cs pos stop) :
    pos ≤ stop := by
  induction h with
  | nil => exact Nat.le_refl _
  | token _ _ ih => omega
  | node meets _ ih => exact Nat.le_trans (wf.le _ _ (mem_meeting_iff.1 meets).1) ih

/-- The spans of a thread meet their goals. -/
theorem Thread.meets (wf : weave.index.WellFormed) (h : weave.Thread symbols cs pos stop)
    {span : Span} (mem : .node span ∈ cs) : span ∈ weave.meeting (span.goal weave.grammar) := by
  induction h with
  | nil => exact absurd mem List.not_mem_nil
  | token _ _ ih => exact ih ((List.mem_cons.1 mem).resolve_left fun same => nomatch same)
  | node meets _ ih =>
    rcases List.mem_cons.1 mem with same | mem
    · obtain rfl := Child.node.inj same
      exact goal_eq_of_mem_meeting wf meets ▸ meets
    · exact ih mem

variable [DecidableEq κ]

/-! ## Weaves with the same children -/

section Congr

variable {other : Weave κ} (same : other.children = weave.children)

include same

/-- **What is laid depends on the children.** -/
theorem lay_congr : other.lay = weave.lay := by
  have extend : other.extend = weave.extend := by
    funext stop last symbol begun
    rw [Weave.extend, Weave.extend, same]
  funext stop symbols begun
  induction symbols generalizing begun with
  | nil => rfl
  | cons symbol symbols ih => simp only [Weave.lay, extend, ih]

/-- **And so do the goals** that are asked for on the way. -/
theorem goalsWithin_congr : other.goalsWithin = weave.goalsWithin := by
  funext stop symbols positions
  induction symbols generalizing positions with
  | nil => rfl
  | cons symbol symbols ih => simp only [Weave.goalsWithin, childrenUpTo, same, ih]

end Congr

/-! ## The list of threads -/

/-- The threads of `symbols` from `pos` to `stop`, child by child. -/
def threads (weave : Weave κ) (stop : Nat) : List (Symbol κ) → Nat → List (List (Child Span))
  | [], pos => if pos = stop then [[]] else []
  | symbol :: rest, pos =>
    (weave.childrenUpTo stop pos symbol).flatMap fun child =>
      (threads weave stop rest child.stop).map (child :: ·)

theorem flatMap_filter_of_forall {α β : Type} {xs : List α} {p : α → Bool} {f : α → List β}
    (h : ∀ x ∈ xs, p x = false → f x = []) : (xs.filter p).flatMap f = xs.flatMap f := by
  induction xs with
  | nil => rfl
  | cons x xs ih =>
    have rest := ih fun y mem => h y (List.mem_cons_of_mem x mem)
    by_cases keep : p x = true
    · rw [List.filter_cons_of_pos keep, List.flatMap_cons, List.flatMap_cons, rest]
    · rw [List.filter_cons_of_neg keep, rest, List.flatMap_cons,
        h x List.mem_cons_self (by simpa using keep), List.nil_append]

/-- Behind the last symbol a thread has to be at its end, so that it does no harm to drop the others
one symbol early. -/
theorem extend_flatMap {symbol : Symbol κ} {begun : List (Nat × List (Child Span))} :
    ((weave.extend stop symbols.isEmpty symbol begun).flatMap fun (pos, row) =>
        (weave.threads stop symbols pos).map (row ++ ·))
      = begun.flatMap fun (pos, row) =>
          (weave.threads stop (symbol :: symbols) pos).map (row ++ ·) := by
  simp only [extend, threads, List.flatMap_assoc]
  refine List.flatMap_congr fun ⟨pos, row⟩ _ => ?_
  simp only [List.map_flatMap, List.flatMap_map, List.map_map, childrenUpTo, Function.comp_def,
    List.append_assoc, List.singleton_append]
  cases symbols with
  | cons next rest => rfl
  | nil =>
    have astray : ∀ child : Child Span, child.stop ≠ stop →
        (weave.threads stop [] child.stop).map (fun tail => row ++ child :: tail) = [] :=
      fun child differs => by rw [threads, if_neg differs, List.map_nil]
    refine (flatMap_filter_of_forall fun child _ unfit => astray child ?_).trans
      (flatMap_filter_of_forall fun child _ unfit => astray child ?_).symm
    · simpa using unfit
    · have beyond : stop < child.stop := by simpa using unfit
      omega

/-- **What is laid behind the beginnings of threads** is their threads on to the end.  The induction
is on the symbols; no beginnings are left where laying stops early. -/
theorem lay_eq {begun : List (Nat × List (Child Span))} :
    ((weave.lay stop symbols begun).filter fun (pos, _) => pos = stop).map Prod.snd
      = begun.flatMap fun (pos, row) => (weave.threads stop symbols pos).map (row ++ ·) := by
  induction symbols generalizing begun with
  | nil =>
    induction begun with
    | nil => rfl
    | cons first begun ih =>
      obtain ⟨pos, row⟩ := first
      rw [lay] at ih ⊢
      by_cases landed : pos = stop
      · simp [threads, landed, ih]
      · simp [threads, landed, ih]
  | cons symbol symbols ih =>
    rw [lay, ← extend_flatMap]
    cases none : (weave.extend stop symbols.isEmpty symbol begun).isEmpty with
    | true => simp [List.isEmpty_iff.1 none]
    | false => simp [ih]

/-- **Laying symbol by symbol finds the threads.** -/
theorem branches_eq_threads (span : Span) : weave.branches span
    = weave.threads span.stop (weave.grammar.symbols span.production) span.start := by
  simp [branches, lay_eq]

theorem mem_childrenUpTo_terminal {kind : κ} {child : Child Span} :
    child ∈ weave.childrenUpTo stop pos (.terminal kind) ↔
      kind ∈ weave.accepted.getD pos [] ∧ child = .token pos ∧ pos + 1 ≤ stop := by
  simp only [childrenUpTo, children, List.mem_filter, decide_eq_true_eq]
  split
  · rename_i reads
    simp only [List.mem_singleton, reads, true_and]
    exact and_congr_right fun same => by rw [same, Child.stop]
  · rename_i unread
    exact ⟨fun h => absurd h.1 List.not_mem_nil, fun h => absurd h.1 unread⟩

theorem mem_childrenUpTo_nonterminal {name : String} {child : Child Span} :
    child ∈ weave.childrenUpTo stop pos (.nonterminal name) ↔
      ∃ span ∈ weave.meeting ⟨name, pos⟩, child = .node span ∧ span.stop ≤ stop := by
  simp only [childrenUpTo, children, List.mem_filter, List.mem_map, decide_eq_true_eq]
  constructor
  · rintro ⟨⟨span, meets, rfl⟩, le⟩
    exact ⟨span, meets, rfl, le⟩
  · rintro ⟨span, meets, rfl, le⟩
    exact ⟨⟨span, meets, rfl⟩, le⟩

theorem mem_threads_cons {symbol : Symbol κ} :
    cs ∈ weave.threads stop (symbol :: symbols) pos ↔
      ∃ child ∈ weave.childrenUpTo stop pos symbol,
        ∃ tail ∈ weave.threads stop symbols child.stop, child :: tail = cs := by
  simp [threads]

/-- **`threads` lists the threads.** -/
theorem mem_threads_iff (wf : weave.index.WellFormed) :
    cs ∈ weave.threads stop symbols pos ↔ weave.Thread symbols cs pos stop := by
  constructor
  · intro mem
    induction symbols generalizing cs pos with
    | nil =>
      rw [threads] at mem
      split at mem
      · rename_i same
        obtain rfl := List.mem_singleton.1 mem
        exact same ▸ .nil pos
      · exact absurd mem List.not_mem_nil
    | cons symbol symbols ih =>
      obtain ⟨child, memChild, tail, memTail, rfl⟩ := mem_threads_cons.1 mem
      cases symbol with
      | terminal kind =>
        obtain ⟨reads, rfl, -⟩ := mem_childrenUpTo_terminal.1 memChild
        exact .token reads (ih memTail)
      | nonterminal name =>
        obtain ⟨span, meets, rfl, -⟩ := mem_childrenUpTo_nonterminal.1 memChild
        exact .node meets (ih memTail)
  · intro h
    induction h with
    | nil => simp [threads]
    | token reads tail ih =>
      exact mem_threads_cons.2
        ⟨_, mem_childrenUpTo_terminal.2 ⟨reads, rfl, tail.le wf⟩, _, ih, rfl⟩
    | node meets tail ih =>
      exact mem_threads_cons.2
        ⟨_, mem_childrenUpTo_nonterminal.2 ⟨_, meets, rfl, tail.le wf⟩, _, ih, rfl⟩

/-- **The children that may stand for a symbol are in strict order.** -/
theorem pairwise_childrenUpTo (wf : weave.index.WellFormed) (symbol : Symbol κ) :
    (weave.childrenUpTo stop pos symbol).Pairwise fun a b =>
      ∃ x y, a = .node x ∧ b = .node y ∧ x.Precedes y := by
  refine List.Pairwise.filter _ ?_
  cases symbol with
  | terminal kind =>
    rw [children]
    split
    · exact List.pairwise_singleton _ _
    · exact List.Pairwise.nil
  | nonterminal name =>
    refine List.pairwise_map.2 (((wf.ordered pos).filter _).imp_of_mem fun memX memY before => ?_)
    have start := wf.start_eq pos _ (List.mem_of_mem_filter memX)
    have start' := wf.start_eq pos _ (List.mem_of_mem_filter memY)
    exact ⟨_, _, rfl, rfl, start.trans start'.symm, before⟩

/-- **Threads are listed in lexicographic order.** -/
theorem pairwise_threads (wf : weave.index.WellFormed) :
    (weave.threads stop symbols pos).Pairwise (Child.Lex Span.Precedes) := by
  induction symbols generalizing pos with
  | nil =>
    rw [threads]
    split
    · exact List.pairwise_singleton _ _
    · exact List.Pairwise.nil
  | cons symbol symbols ih =>
    rw [threads, List.pairwise_flatMap]
    refine ⟨fun child _ => List.pairwise_map.2 (ih.imp .there), ?_⟩
    refine (pairwise_childrenUpTo wf symbol).imp ?_
    rintro _ _ ⟨x, y, rfl, rfl, precedes⟩ row mem row' mem'
    obtain ⟨_, -, rfl⟩ := List.mem_map.1 mem
    obtain ⟨_, -, rfl⟩ := List.mem_map.1 mem'
    exact .here precedes

/-- **The goals of a thread are asked for.** -/
theorem goal_mem_goalsWithin (wf : weave.index.WellFormed)
    (h : weave.Thread symbols cs pos stop) {positions : List Nat} (start : pos ∈ positions)
    {span : Span} (mem : .node span ∈ cs) :
    span.goal weave.grammar ∈ weave.goalsWithin stop symbols positions := by
  induction h generalizing positions with
  | nil => exact absurd mem List.not_mem_nil
  | token reads tail ih =>
    have mem := (List.mem_cons.1 mem).resolve_left fun same => nomatch same
    refine List.mem_append_right _ (ih ?_ mem)
    exact List.mem_flatMap.2 ⟨_, start, List.mem_map.2
      ⟨_, mem_childrenUpTo_terminal.2 ⟨reads, rfl, tail.le wf⟩, rfl⟩⟩
  | @node name other rest cs pos stop meets tail ih =>
    rcases List.mem_cons.1 mem with same | mem
    · obtain rfl := Child.node.inj same
      rw [goal_eq_of_mem_meeting wf meets]
      refine List.mem_append_left _ ?_
      simpa [Symbol.name?] using start
    · refine List.mem_append_right _ (ih ?_ mem)
      exact List.mem_flatMap.2 ⟨_, start, List.mem_map.2
        ⟨_, mem_childrenUpTo_nonterminal.2 ⟨_, meets, rfl, tail.le wf⟩, rfl⟩⟩

end Weave

end Earley
