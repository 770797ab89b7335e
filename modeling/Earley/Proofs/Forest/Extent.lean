import Earley.Proofs.Forest.Packing
import Mathlib.Data.Finset.Card

/-!
# Proofs/Forest/Extent — which spans have a node, and how many nodes there are

A forest holds more than what lies below its roots: every goal that was asked for on the way has its
nodes.  The spans of the entry from the beginning on have one (`hasNode_of_entry`), and so has what
stands in a derivation of a span that has one (`HasNode.of_part`).  No span has two, so that the
nodes are counted by listing their spans (`size_nodes_eq_card`).
-/

namespace Earley

universe u

variable {κ : Type u} {stands : Nat → κ → Prop}

/-! ## Parts of threads -/

namespace Awaited

variable {g : Grammar κ} {before after : List (Symbol κ)} {pos mid : Nat}

theorem left (h : Awaited g stands (before ++ after) pos) : Awaited g stands before pos :=
  fun front name back split => h front name (back ++ after) (by simp [split])

theorem right (h : Awaited g stands (before ++ after) pos)
    (read : Derives g stands before pos mid) : Awaited g stands after mid :=
  fun front name back split stop derives =>
    h (before ++ front) name back (by simp [split]) stop (read.append derives)

end Awaited

namespace Weave

variable {weave : Weave κ} {symbols symbols' before after : List (Symbol κ)}
  {cs cs' : List (Child Span)} {pos mid stop : Nat} {name : String} {span part : Span}

theorem Thread.append (h : weave.Thread symbols cs pos mid)
    (h' : weave.Thread symbols' cs' mid stop) :
    weave.Thread (symbols ++ symbols') (cs ++ cs') pos stop := by
  induction h with
  | nil => exact h'
  | token reads _ ih => exact .token reads (ih h')
  | node meets _ ih => exact .node meets (ih h')

theorem Exact.exists_thread_of_derives (h : weave.Exact stands)
    (derives : Derives weave.grammar stands symbols pos stop)
    (awaited : Awaited weave.grammar stands symbols pos) :
    ∃ cs, weave.Thread symbols cs pos stop := by
  obtain ⟨trees, derivation⟩ := derives_iff_exists_derivation.1 derives
  obtain ⟨cs, thread, -⟩ := h.exists_thread derivation awaited
  exact ⟨cs, thread⟩

variable [DecidableEq κ]

/-- **A part of a span becomes a node** with the span: where the symbols of its production split
into a name and what is before and behind it, and all three derive their stretches. -/
theorem Exact.mem_arenaSpans_of_part (h : weave.Exact stands) (mem : span ∈ weave.arenaSpans)
    (split : weave.grammar.symbols span.production = before ++ .nonterminal name :: after)
    (front : Derives weave.grammar stands before span.start part.start)
    (rule : part.production ∈ weave.grammar.productionsOf name)
    (read : Derives weave.grammar stands (weave.grammar.symbols part.production) part.start
      part.stop)
    (back : Derives weave.grammar stands after part.stop span.stop) : part ∈ weave.arenaSpans := by
  obtain ⟨id, place⟩ := List.mem_iff_getElem?.1 mem
  have awaited := (h.derived_of_place place).awaited
  rw [split] at awaited
  obtain ⟨bound, named⟩ := Grammar.mem_productionsOf.1 rule
  have derived : part.Derived weave.grammar stands :=
    ⟨bound, named ▸ (awaited.right front).head, read⟩
  obtain ⟨cs, first⟩ := h.exists_thread_of_derives front awaited.left
  obtain ⟨cs', last⟩ := h.exists_thread_of_derives back
    ((awaited.right front).tail (.singleton_nonterminal rule read))
  have thread := first.append (.node (h.mem_meeting_iff.2 ⟨rfl, named, derived⟩) last)
  exact mem_arenaSpans_of_thread h.wf mem (split ▸ thread)
    (List.mem_append_right _ List.mem_cons_self)

end Weave

/-! ## The nodes of a forest by their spans -/

namespace Forest

/-- **A span has a node** in the arena of a forest. -/
def HasNode (f : Forest κ) (span : Span) : Prop :=
  ∃ id : NodeId, f.nodes[id]?.map Node.span = some span

variable [DecidableEq κ] {g : Grammar κ} {chart : Chart κ} {span part : Span}

section Chart

variable (sound : chart.Sound g) (saturated : chart.Saturated g)

include sound saturated

theorem map_span_ofChart {id : NodeId} : (Forest.ofChart g chart).nodes[id]?.map Node.span
    = (Weave.ofChart g chart).arenaSpans[id]? := by
  rw [nodes_ofChart sound saturated, Weave.getElem?_created, Option.map_map]
  exact (Option.map_congr fun _ _ => rfl).trans (congrFun Option.map_id _)

theorem hasNode_ofChart_iff :
    (Forest.ofChart g chart).HasNode span ↔ span ∈ (Weave.ofChart g chart).arenaSpans := by
  simp only [HasNode, map_span_ofChart sound saturated, List.mem_iff_getElem?]

/-- What has a node is derived. -/
theorem HasNode.derived (h : (Forest.ofChart g chart).HasNode span) :
    span.Derived g chart.Reads := by
  obtain ⟨id, place⟩ := List.mem_iff_getElem?.1 ((hasNode_ofChart_iff sound saturated).1 h)
  exact (Weave.exact_ofChart sound saturated).derived_of_place place

/-- **What the entry derives from the beginning on** has a node, wherever it ends. -/
theorem hasNode_of_entry (rule : span.production ∈ g.productionsOf g.entry)
    (start : span.start = 0)
    (read : Derives g chart.Reads (g.symbols span.production) span.start span.stop) :
    (Forest.ofChart g chart).HasNode span := by
  have woven := Weave.exact_ofChart sound saturated
  obtain ⟨bound, named⟩ := Grammar.mem_productionsOf.1 rule
  refine (hasNode_ofChart_iff sound saturated).2 (Weave.mem_arenaSpans_of_meets_entry woven.wf
    (woven.mem_meeting_iff.2 ⟨start, named, bound, ?_, read⟩))
  change LeftReachable g chart.Reads (g.name span.production) span.start
  rw [named, start]
  exact .entry

/-- **With a span its parts have nodes.** -/
theorem HasNode.of_part (h : (Forest.ofChart g chart).HasNode span)
    {before after : List (Symbol κ)} {name : String}
    (split : g.symbols span.production = before ++ .nonterminal name :: after)
    (front : Derives g chart.Reads before span.start part.start)
    (rule : part.production ∈ g.productionsOf name)
    (read : Derives g chart.Reads (g.symbols part.production) part.start part.stop)
    (back : Derives g chart.Reads after part.stop span.stop) :
    (Forest.ofChart g chart).HasNode part := by
  rw [hasNode_ofChart_iff sound saturated] at h ⊢
  exact (Weave.exact_ofChart sound saturated).mem_arenaSpans_of_part h split front rule read back

/-- **No span has two nodes.** -/
theorem hasNode_iff_existsUnique : (Forest.ofChart g chart).HasNode span
    ↔ ∃! id : NodeId, (Forest.ofChart g chart).nodes[id]?.map Node.span = some span := by
  refine ⟨fun ⟨id, place⟩ => ⟨id, place, fun other place' => ?_⟩, ExistsUnique.exists⟩
  rw [map_span_ofChart sound saturated] at place place'
  have bound := (List.getElem?_eq_some_iff.1 place).1
  exact ((List.getElem?_inj bound (Weave.nodup_arenaSpans
    (Weave.exact_ofChart sound saturated).wf)).1 (place.trans place'.symm)).symm

/-- **There are as many nodes as spans that have one.** -/
theorem size_nodes_eq_card {spans : Finset Span}
    (listed : ∀ span, (Forest.ofChart g chart).HasNode span ↔ span ∈ spans) :
    (Forest.ofChart g chart).nodes.size = spans.card := by
  have nodup := Weave.nodup_arenaSpans (Weave.exact_ofChart sound saturated).wf
  have same : (Weave.ofChart g chart).arenaSpans.toFinset = spans := by
    ext span
    rw [List.mem_toFinset, ← hasNode_ofChart_iff sound saturated, listed]
  rw [nodes_ofChart sound saturated, Weave.size_created, ← List.toFinset_card_of_nodup nodup, same]

end Chart

end Forest

end Earley
