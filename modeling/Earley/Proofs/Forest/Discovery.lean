import Earley.Forest.Extract
import Earley.Proofs.Forest.Thread

/-!
# Proofs/Forest/Discovery — the goals found are closed under what their threads ask for

`discover` finds each pending goal on its stack, once, and with a goal the pending ones among its
subgoals.  So the spans that become nodes are listed once, and with every span the spans of all its
threads are there (`mem_arenaSpans_of_thread`).
-/

namespace Earley

universe u

/-! ## Discovery -/

section Discover

variable {subgoals : Goal → List Goal} {pending stack : List Goal} {goal sub : Goal}

theorem mem_pending_of_mem_discover (h : goal ∈ discover subgoals pending stack) :
    goal ∈ pending := by
  fun_induction discover subgoals pending stack with
  | case1 => exact absurd h List.not_mem_nil
  | case2 pending found stack fresh _ _ ih =>
    rcases List.mem_cons.1 h with rfl | later
    · exact fresh
    · exact List.mem_of_mem_erase (ih later)
  | case3 _ _ _ _ ih => exact ih h

/-- **A pending goal on the stack is found.** -/
theorem mem_discover_of_mem_stack (pend : goal ∈ pending) (mem : goal ∈ stack) :
    goal ∈ discover subgoals pending stack := by
  fun_induction discover subgoals pending stack with
  | case1 => exact absurd mem List.not_mem_nil
  | case2 pending found stack fresh _ _ ih =>
    by_cases same : goal = found
    · exact same ▸ List.mem_cons_self
    · have rest := (List.mem_cons.1 mem).resolve_left same
      exact List.mem_cons_of_mem _
        (ih ((List.mem_erase_of_ne same).2 pend) (List.mem_append_right _ rest))
  | case3 pending found stack stale ih =>
    refine ih pend ((List.mem_cons.1 mem).resolve_left fun same => ?_)
    exact stale (same ▸ pend)

/-- **With a goal its pending subgoals are found.** -/
theorem mem_discover_of_mem_subgoals (h : goal ∈ discover subgoals pending stack)
    (asked : sub ∈ subgoals goal) (pend : sub ∈ pending) :
    sub ∈ discover subgoals pending stack := by
  fun_induction discover subgoals pending stack with
  | case1 => exact absurd h List.not_mem_nil
  | case2 pending found stack fresh _ _ ih =>
    by_cases same : sub = found
    · exact same ▸ List.mem_cons_self
    · have left := (List.mem_erase_of_ne same).2 pend
      rcases List.mem_cons.1 h with rfl | later
      · exact List.mem_cons_of_mem _
          (mem_discover_of_mem_stack left (List.mem_append_left _ asked))
      · exact List.mem_cons_of_mem _ (ih later left)
  | case3 _ _ _ _ ih => exact ih h pend

/-- **No goal is found twice.** -/
theorem nodup_discover (nodup : pending.Nodup) : (discover subgoals pending stack).Nodup := by
  fun_induction discover subgoals pending stack with
  | case1 => exact List.nodup_nil
  | case2 pending found stack fresh _ _ ih =>
    refine List.nodup_cons.2 ⟨fun again => ?_, ih (nodup.erase found)⟩
    exact ((nodup.mem_erase_iff).1 (mem_pending_of_mem_discover again)).1 rfl
  | case3 _ _ _ _ ih => exact ih nodup

end Discover

/-! ## The goals of an index -/

variable {κ : Type u}

theorem SpanIndex.lt_of_mem_startingAt {index : SpanIndex} {start : Nat} {span : Span}
    (h : span ∈ index.startingAt start) : start < index.starts.size := by
  by_contra beyond
  simp [startingAt, Array.getD, beyond] at h

theorem SpanIndex.mem_goals_iff {g : Grammar κ} {index : SpanIndex} {goal : Goal} :
    goal ∈ index.goals g
      ↔ ∃ span ∈ index.startingAt goal.start, g.name span.production = goal.name := by
  simp only [goals, List.mem_flatMap, List.mem_range, List.mem_map, List.mem_eraseDups]
  constructor
  · rintro ⟨start, _, _, ⟨span, listed, rfl⟩, rfl⟩
    exact ⟨span, listed, rfl⟩
  · rintro ⟨span, listed, named⟩
    exact ⟨goal.start, lt_of_mem_startingAt listed, goal.name, ⟨span, listed, named⟩, rfl⟩

theorem SpanIndex.nodup_goals {g : Grammar κ} {index : SpanIndex} : (index.goals g).Nodup := by
  refine List.nodup_flatMap.2 ⟨fun start _ => ?_, ?_⟩
  · exact (nodup_eraseDups _).map fun _ _ same => (Goal.mk.inj same).1
  · refine List.nodup_range.imp fun different goal memA memB => ?_
    obtain ⟨_, -, rfl⟩ := List.mem_map.1 memA
    obtain ⟨_, -, same⟩ := List.mem_map.1 memB
    exact different (Goal.mk.inj same).2.symm

/-! ## The spans that become nodes -/

namespace Weave

variable [DecidableEq κ] {weave : Weave κ} {span child : Span}

/-- A span becomes a node exactly if its goal was found. -/
theorem mem_arenaSpans_iff (wf : weave.index.WellFormed) : span ∈ weave.arenaSpans ↔
    span ∈ weave.meeting (span.goal weave.grammar)
      ∧ span.goal weave.grammar ∈ weave.goalsFound := by
  simp only [arenaSpans, List.mem_flatMap]
  constructor
  · rintro ⟨goal, found, meets⟩
    obtain rfl := goal_eq_of_mem_meeting wf meets
    exact ⟨meets, found⟩
  · rintro ⟨meets, found⟩
    exact ⟨_, found, meets⟩

/-- **Every span becomes at most one node.** -/
theorem nodup_arenaSpans (wf : weave.index.WellFormed) : weave.arenaSpans.Nodup :=
  nodup_flatMap_meeting wf (nodup_discover SpanIndex.nodup_goals)

theorem mem_startingAt_of_mem_arenaSpans (wf : weave.index.WellFormed)
    (h : span ∈ weave.arenaSpans) : span ∈ weave.index.startingAt span.start :=
  (mem_meeting_iff.1 ((mem_arenaSpans_iff wf).1 h).1).1

/-- The spans of the entry at the beginning become nodes. -/
theorem mem_arenaSpans_of_meets_entry (wf : weave.index.WellFormed)
    (h : span ∈ weave.meeting ⟨weave.grammar.entry, 0⟩) : span ∈ weave.arenaSpans := by
  have goal := goal_eq_of_mem_meeting wf h
  refine (mem_arenaSpans_iff wf).2 ⟨goal ▸ h, mem_discover_of_mem_stack ?_ (by simp [goal])⟩
  obtain ⟨listed, rule⟩ := mem_meeting_iff.1 h
  rw [goal]
  exact SpanIndex.mem_goals_iff.2 ⟨span, listed, (Grammar.mem_productionsOf.1 rule).2⟩

/-- **With a span the spans of its threads become nodes.** -/
theorem mem_arenaSpans_of_thread (wf : weave.index.WellFormed) (h : span ∈ weave.arenaSpans)
    {cs : List (Child Span)} (thread : weave.Thread (weave.grammar.symbols span.production) cs
      span.start span.stop) (mem : .node child ∈ cs) : child ∈ weave.arenaSpans := by
  have meets := thread.meets wf mem
  obtain ⟨meetsSpan, found⟩ := (mem_arenaSpans_iff wf).1 h
  refine (mem_arenaSpans_iff wf).2 ⟨meets, mem_discover_of_mem_subgoals found ?_ ?_⟩
  · exact List.mem_flatMap.2 ⟨span, meetsSpan,
      goal_mem_goalsWithin wf thread List.mem_cons_self mem⟩
  · exact SpanIndex.mem_goals_iff.2 ⟨child, (mem_meeting_iff.1 meets).1, rfl⟩

end Weave

end Earley
