import Earley.Forest.Spans
import Earley.Proofs.Chart.Exactness
import Mathlib.Data.List.Sort

/-!
# Proofs/Forest/Spans — the spans of a chart are the stretches that productions derive

A span is in the index exactly if its production is complete in the set of its end
(`mem_startingAt_ofSets`); for the chart of a run these are the stretches that a production derives
where its name may begin (`Chart.mem_startingAt_iff`).  The spans from one position on are listed by
end and then by production, whatever the order of the items.
-/

namespace Earley

universe u v

variable {κ : Type u} {g : Grammar κ} {start stop : Nat} {span : Span}

/-! ## Membership -/

theorem mem_spansBetween {items : List Item} : span ∈ spansBetween items start stop ↔
    span.start = start ∧ span.stop = stop
      ∧ ∃ item ∈ items, item.origin = start ∧ item.production = span.production := by
  simp only [spansBetween, List.mem_map, List.mem_mergeSort, List.mem_filter, decide_eq_true_eq]
  constructor
  · rintro ⟨id, ⟨item, ⟨mem, origin⟩, rfl⟩, rfl⟩
    exact ⟨rfl, rfl, item, mem, origin, rfl⟩
  · rintro ⟨rfl, rfl, item, mem, origin, production⟩
    exact ⟨span.production, ⟨item, ⟨mem, origin⟩, production⟩, rfl⟩

theorem zipIdx_eq_map_range {α : Type} (xs : List (List α)) :
    xs.zipIdx = (List.range xs.length).map fun place => (xs.getD place [], place) := by
  refine List.ext_getElem (by simp) fun place bound _ => ?_
  simp only [List.getElem_zipIdx, List.getElem_map, List.getElem_range, Nat.zero_add]
  rw [List.getD_eq_getElem?_getD, List.getElem?_eq_getElem (by simpa using bound)]
  rfl

/-- The index of a chart, by the items at its positions. -/
theorem SpanIndex.ofSets_eq (g : Grammar κ) (chart : Chart κ) : SpanIndex.ofSets g chart.sets
    = ⟨(Array.range chart.sets.size).map fun start =>
        (List.range chart.sets.size).flatMap fun stop =>
          spansBetween ((chart.itemsAt stop).filter (Item.isComplete g)) start stop⟩ := by
  have items : ∀ stop, (chart.sets.toList.map fun set =>
      set.toList.filter (Item.isComplete g)).getD stop []
        = (chart.itemsAt stop).filter (Item.isComplete g) := by
    intro stop
    by_cases bound : stop < chart.sets.size <;> simp [Chart.itemsAt, Array.getD, bound]
  simp only [SpanIndex.ofSets, zipIdx_eq_map_range, List.flatMap_map, items, List.length_map,
    Array.length_toList]

variable {chart : Chart κ}

theorem startingAt_ofSets (h : start < chart.sets.size) :
    (SpanIndex.ofSets g chart.sets).startingAt start
      = (List.range chart.sets.size).flatMap fun stop =>
          spansBetween ((chart.itemsAt stop).filter (Item.isComplete g)) start stop := by
  simp [SpanIndex.ofSets_eq, SpanIndex.startingAt, Array.getD, h]

theorem startingAt_ofSets_eq_nil (h : ¬ start < chart.sets.size) :
    (SpanIndex.ofSets g chart.sets).startingAt start = [] := by
  simp [SpanIndex.ofSets, SpanIndex.startingAt, Array.getD, h]

/-- **A span is in the index exactly if its production is complete at its end.** -/
theorem mem_startingAt_ofSets : span ∈ (SpanIndex.ofSets g chart.sets).startingAt start ↔
    span.start = start ∧ start < chart.sets.size ∧ ∃ item ∈ chart.itemsAt span.stop,
      item.isComplete g = true ∧ item.origin = start ∧ item.production = span.production := by
  by_cases bound : start < chart.sets.size
  · rw [startingAt_ofSets bound]
    simp only [List.mem_flatMap, List.mem_range, mem_spansBetween, List.mem_filter]
    constructor
    · rintro ⟨_, _, rfl, rfl, item, ⟨mem, complete⟩, origin, same⟩
      exact ⟨rfl, bound, item, mem, complete, origin, same⟩
    · rintro ⟨rfl, -, item, mem, complete, origin, same⟩
      exact ⟨_, Chart.lt_of_mem_itemsAt mem, rfl, rfl, item, ⟨mem, complete⟩, origin, same⟩
  · simp [startingAt_ofSets_eq_nil bound, bound]

/-- **A stretch that its production derives**, where its name may begin. -/
structure Span.Derived (g : Grammar κ) (stands : Nat → κ → Prop) (span : Span) : Prop where
  production_lt : span.production < g.productions.size
  reachable : LeftReachable g stands (g.name span.production) span.start
  read : Derives g stands (g.symbols span.production) span.start span.stop

theorem Span.Derived.awaited {stands : Nat → κ → Prop} (h : span.Derived g stands) :
    Awaited g stands (g.symbols span.production) span.start :=
  .of_rule h.reachable (Grammar.mem_productionsOf_name h.production_lt)

/-- **The spans of a sound and saturated chart** are the derived ones. -/
theorem Chart.mem_startingAt_iff (sound : chart.Sound g) (saturated : chart.Saturated g) :
    span ∈ (SpanIndex.ofSets g chart.sets).startingAt start
      ↔ span.start = start ∧ span.Derived g chart.Reads := by
  rw [mem_startingAt_ofSets]
  constructor
  · rintro ⟨rfl, -, ⟨id, dot, origin⟩, mem, complete, same, rfl⟩
    obtain rfl : origin = span.start := same
    have justified := sound.justified _ _ mem
    have read := justified.read
    rw [List.take_of_length_le (by simpa [Item.isComplete] using complete)] at read
    exact ⟨rfl, justified.production_lt, justified.reachable, read⟩
  · rintro ⟨rfl, derived⟩
    have le : span.start ≤ chart.tokens.size :=
      derived.reachable.le fun _ _ reads => sound.lt_of_reads reads
    refine ⟨rfl, by rw [sound.size_sets]; omega,
      ⟨span.production, (g.symbols span.production).length, span.start⟩, ?_,
      by simp [Item.isComplete], rfl, rfl⟩
    refine (mem_itemsAt_iff sound saturated).2 ⟨derived.production_lt, Nat.le_refl _,
      derived.reachable, ?_⟩
    rw [List.take_length]
    exact derived.read

/-! ## Order -/

/-- Spans from one position on, by end and then by production. -/
def Span.Before (a b : Span) : Prop :=
  a.stop < b.stop ∨ a.stop = b.stop ∧ a.production < b.production

theorem Span.Before.ne {a b : Span} (before : a.Before b) : a ≠ b := by
  rintro rfl
  rcases before with lt | ⟨-, lt⟩ <;> exact absurd lt (Nat.lt_irrefl _)

/-- **Sorting puts productions into strict order** if none was found twice. -/
theorem pairwise_spansBetween {items : List Item}
    (nodup : ((items.filter fun item => item.origin = start).map Item.production).Nodup) :
    (spansBetween items start stop).Pairwise Span.Before := by
  have distinct := (List.mergeSort_perm _ (· ≤ ·)).nodup_iff.2 nodup
  refine List.Pairwise.map _ (fun a b lt => .inr ⟨rfl, lt⟩) ?_
  exact (List.sortedLE_mergeSort.sortedLT_of_nodup distinct).pairwise

/-- A production from one position to another is complete in one item only. -/
theorem ItemSet.Fits.nodup_found {set : ItemSet} (fits : set.Fits g stop) :
    (((set.toList.filter (Item.isComplete g)).filter fun item =>
      item.origin = start).map Item.production).Nodup := by
  have dot : ∀ item ∈ set.toList, item.isComplete g = true →
      item.dot = (g.symbols item.production).length := by
    intro item mem complete
    refine Nat.le_antisymm (fits.inRange item mem).dot_le ?_
    simpa [Item.isComplete] using complete
  refine List.Nodup.map_on ?_ ((fits.nodup.filter _).filter _)
  rintro ⟨id, dotA, originA⟩ memA ⟨id', dotB, originB⟩ memB production
  simp only [List.mem_filter, decide_eq_true_eq] at memA memB
  obtain ⟨⟨memA, completeA⟩, rfl⟩ := memA
  obtain ⟨⟨memB, completeB⟩, rfl⟩ := memB
  obtain rfl : id = id' := production
  obtain rfl : dotA = dotB := (dot _ memA completeA).trans (dot _ memB completeB).symm
  rfl

/-- **The spans from one position on are in strict order**, whatever the order of the items. -/
theorem FittingSets.pairwise_startingAt (fits : FittingSets g chart.sets) :
    ((SpanIndex.ofSets g chart.sets).startingAt start).Pairwise Span.Before := by
  by_cases bound : start < chart.sets.size
  · rw [startingAt_ofSets bound, List.pairwise_flatMap]
    refine ⟨fun stop _ => pairwise_spansBetween (fits stop).nodup_found, ?_⟩
    refine List.pairwise_lt_range.imp fun lt a memA b memB => .inl ?_
    rw [(mem_spansBetween.1 memA).2.1, (mem_spansBetween.1 memB).2.1]
    exact lt
  · rw [startingAt_ofSets_eq_nil bound]
    exact List.Pairwise.nil

/-- The sets of a sound chart fit their places. -/
theorem Chart.Sound.fittingSets (sound : chart.Sound g) : FittingSets g chart.sets :=
  fun pos => ⟨sound.nodup pos, fun item mem => (sound.justified pos item mem).inRange⟩

theorem pairwise_startingAt (sound : chart.Sound g) :
    ((SpanIndex.ofSets g chart.sets).startingAt start).Pairwise Span.Before :=
  sound.fittingSets.pairwise_startingAt

/-! ## Empty spans -/

section Empty

variable {pos : Nat} {id : ProdId} {name : String}

/-- **The empty spans of a chart** are the nullable productions that it predicts, where it predicts
them. -/
theorem Chart.mem_startingAt_self_iff (sound : chart.Sound g) (saturated : chart.Saturated g) :
    ⟨pos, pos, id⟩ ∈ (SpanIndex.ofSets g chart.sets).startingAt pos
      ↔ Item.predict pos id ∈ chart.itemsAt pos ∧ id ∈ g.nullableOf (g.name id) := by
  rw [mem_startingAt_iff sound saturated, mem_itemsAt_iff sound saturated, Grammar.mem_nullableOf]
  constructor
  · rintro ⟨-, known, reachable, read⟩
    have rule := Grammar.mem_productionsOf_name known
    exact ⟨.predict reachable rule, rule, derives_self_iff.1 read⟩
  · rintro ⟨predicted, -, empty⟩
    exact ⟨rfl, predicted.production_lt, predicted.reachable, empty.derives pos⟩

/-- The empty spans that meet a goal. -/
def SpanIndex.emptyMeeting (g : Grammar κ) (index : SpanIndex) (goal : Goal) : List Span :=
  (index.meeting g goal).filter fun span => span.stop = goal.start

/-- **Where a name is awaited**, an empty span meets it exactly if its production is a nullable one
of the name. -/
theorem Chart.mem_emptyMeeting_iff (sound : chart.Sound g) (saturated : chart.Saturated g)
    {item : Item} (mem : item ∈ chart.itemsAt pos)
    (awaits : item.next? g = some (.nonterminal name)) :
    span ∈ (SpanIndex.ofSets g chart.sets).emptyMeeting g ⟨name, pos⟩
      ↔ span = ⟨pos, pos, span.production⟩ ∧ span.production ∈ g.nullableOf name := by
  have reaches := ((mem_itemsAt_iff sound saturated).1 mem).reaches awaits
  simp only [SpanIndex.emptyMeeting, SpanIndex.meeting, List.mem_filter, decide_eq_true_eq]
  constructor
  · rintro ⟨⟨listed, rule⟩, stop⟩
    have start := (mem_startingAt_ofSets.1 listed).1
    have same : span = ⟨pos, pos, span.production⟩ :=
      congrArg₂ (Span.mk · · span.production) start stop
    rw [same, mem_startingAt_self_iff sound saturated] at listed
    obtain ⟨-, rfl⟩ := Grammar.mem_productionsOf.1 rule
    exact ⟨same, listed.2⟩
  · rintro ⟨same, empty⟩
    have rule := (Grammar.mem_nullableOf.1 empty).1
    obtain ⟨-, rfl⟩ := Grammar.mem_productionsOf.1 rule
    have predicted := (mem_itemsAt_iff sound saturated).2 (.predict reaches rule)
    refine ⟨⟨?_, rule⟩, congrArg Span.stop same⟩
    rw [same]
    exact (mem_startingAt_self_iff sound saturated).2 ⟨predicted, empty⟩

/-- They are listed once each, in the order of the grammar. -/
theorem Chart.map_production_emptyMeeting (sound : chart.Sound g) (saturated : chart.Saturated g)
    {item : Item} (mem : item ∈ chart.itemsAt pos)
    (awaits : item.next? g = some (.nonterminal name)) :
    ((SpanIndex.ofSets g chart.sets).emptyMeeting g ⟨name, pos⟩).map Span.production
      = g.nullableOf name := by
  have ordered : (((SpanIndex.ofSets g chart.sets).emptyMeeting g ⟨name, pos⟩).map
      Span.production).Pairwise (· < ·) := by
    rw [List.pairwise_map]
    refine (((pairwise_startingAt sound).filter _).filter _).imp_of_mem fun memA memB before => ?_
    have stopA := of_decide_eq_true (List.mem_filter.1 memA).2
    have stopB := of_decide_eq_true (List.mem_filter.1 memB).2
    exact (before.resolve_left (stopA.trans stopB.symm).not_lt).2
  refine ordered.eq_of_mem_iff (Grammar.pairwise_nullable.filter _) fun id => ?_
  simp only [List.mem_map, mem_emptyMeeting_iff sound saturated mem awaits]
  constructor
  · rintro ⟨span, ⟨-, empty⟩, rfl⟩
    exact empty
  · exact fun empty => ⟨⟨pos, pos, id⟩, ⟨rfl, empty⟩, rfl⟩

end Empty

/-- **Nullability and the chart agree on empty spans.**  At the end of every run the span index
lists a production over no tokens exactly if it is nullable and was predicted there, and it lists no
span under another start.  Where a name is awaited, the empty spans that meet it are its nullable
productions in their order, so there is one exactly if the name is nullable. -/
theorem emptySpans_of_recognize [DecidableEq κ] {σ : Type v} (g : Grammar κ)
    (tokenizer : Tokenizer κ σ) (equals : String → κ → Bool) (state : σ) :
    let chart := (recognize g tokenizer equals state).chart
    let index := SpanIndex.ofSets g chart.sets
    (∀ pos id, ⟨pos, pos, id⟩ ∈ index.startingAt pos
        ↔ Item.predict pos id ∈ chart.itemsAt pos ∧ id ∈ g.nullableOf (g.name id))
      ∧ (∀ start, ∀ span ∈ index.startingAt start, span.start = start)
      ∧ ∀ pos, ∀ item ∈ chart.itemsAt pos, ∀ name, item.next? g = some (.nonterminal name) →
          (index.emptyMeeting g ⟨name, pos⟩).map Span.production = g.nullableOf name
            ∧ (g.isNullable name = true ↔
                ∃ span ∈ index.meeting g ⟨name, pos⟩, span.stop = pos) := by
  intro chart index
  have sound : chart.Sound g := Chart.sound_recognize
  have saturated : chart.Saturated g := Chart.saturated_recognize
  refine ⟨fun pos id => Chart.mem_startingAt_self_iff sound saturated,
    fun start span listed => (mem_startingAt_ofSets.1 listed).1, fun pos item mem name awaits => ?_⟩
  have same := Chart.map_production_emptyMeeting sound saturated mem awaits
  refine ⟨same, ?_⟩
  rw [Grammar.isNullable_eq, ← same]
  simp [SpanIndex.emptyMeeting, index]

end Earley
