import Earley.Proofs.TextParse

/-!
# Proofs/Chart/Fixpoint — a closed set implies nothing more

A run computes a closure for the predictions of the entry, and one for the items that advance over
each token that it reads (`Closes`).  What comes out is closed under the three ways in which items
imply others (`ClosedAt`), also where an item waits for a name that was complete before the item was
there.  A set that is closed is its own closure.
-/

namespace Earley

universe u v

variable {κ : Type u} {σ : Type v} {g : Grammar κ} {stands : Nat → κ → Prop}
  {earlier : Array ItemSet} {set : ItemSet}

/-! ## Closed sets -/

/-- **The items at `pos` imply no more**: neither by a prediction, nor by the reading of nothing,
nor by the completion of a name that an item awaits at its origin. -/
structure ClosedAt (g : Grammar κ) (sets : Array ItemSet) (pos : Nat) : Prop where
  predicted : ∀ item ∈ (sets.getD pos {}).toList, ∀ name,
    item.next? g = some (.nonterminal name) →
      ∀ id ∈ g.productionsOf name, Item.predict pos id ∈ (sets.getD pos {}).toList
  skipped : ∀ item ∈ (sets.getD pos {}).toList, ∀ name,
    item.next? g = some (.nonterminal name) → g.isNullable name = true →
      item.advance ∈ (sets.getD pos {}).toList
  completed : ∀ item ∈ (sets.getD pos {}).toList, item.next? g = none →
    item.origin ≤ pos ∧ ∀ waiting ∈ (sets.getD item.origin {}).toList,
      waiting.next? g = some (.nonterminal (g.name item.production)) →
        waiting.advance ∈ (sets.getD pos {}).toList

theorem getD_push_size : (earlier.push set).getD earlier.size {} = set := by
  simp [Array.getD]

/-- Up to the last set, the sets before it are seen together with it. -/
theorem getD_push_of_le {pos : Nat} (le : pos ≤ earlier.size) :
    (earlier.push set).getD pos {} = earlier.getD pos set := by
  rcases Nat.lt_or_eq_of_le le with bound | rfl
  · simp [Array.getD, bound, Nat.lt_succ_of_lt bound, Array.getElem_push_lt]
  · simp [Array.getD]

theorem ItemSet.insertAll_of_subset {items : List Item}
    (there : ∀ item ∈ items, item ∈ set.toList) : set.insertAll items = set := by
  induction items with
  | nil => rfl
  | cons item items ih =>
    rw [List.forall_mem_cons] at there
    have same : set.insert item = set := if_pos (Array.mem_toList_iff.1 there.1)
    rw [insertAll_cons, same, ih there.2]

/-- What an item of a closed set implies is in the set. -/
theorem ClosedAt.mem_of_consequence {item new : Item}
    (closed : ClosedAt g (earlier.push set) earlier.size) (mem : item ∈ set.toList)
    (implied : Consequence g earlier set item new) : new ∈ set.toList := by
  obtain ⟨predicted, skipped, completed⟩ := closed
  simp only [getD_push_size] at predicted skipped completed
  cases implied with
  | predicted awaits rule => exact predicted item mem _ awaits _ rule
  | skipped awaits empty => exact skipped item mem _ awaits empty
  | completed complete there awaits =>
    obtain ⟨le, advances⟩ := completed item mem complete
    rw [getD_push_of_le le] at advances
    exact advances _ there awaits

/-- **A closed set is its own closure.** -/
theorem ClosedAt.closure_eq (closed : ClosedAt g (earlier.push set) earlier.size) :
    closure g earlier set = set := by
  refine closeFrom_induction (P := (· = set)) ?_ rfl
  rintro _ item mem rfl
  exact ItemSet.insertAll_of_subset fun new implied =>
    closed.mem_of_consequence mem (mem_consequences.1 implied)

/-- **A closure is closed**, where the items that it begins with are justified. -/
theorem closedAt_closure (before : JustifiedSets g stands earlier) (nodup : set.toList.Nodup)
    (here : ∀ item ∈ set.toList, item.Justified g stands earlier.size) :
    ClosedAt g (earlier.push (closure g earlier set)) earlier.size where
  predicted := by
    rw [getD_push_size]
    exact fun _ mem _ awaits _ rule => closure_predicted before nodup here mem awaits rule
  skipped := by
    rw [getD_push_size]
    exact fun _ mem _ awaits empty => closure_skipped before nodup here mem awaits empty
  completed := by
    rw [getD_push_size]
    intro item mem complete
    have le := (justified_closure before here item mem).origin_le
    refine ⟨le, fun waiting there awaits => ?_⟩
    rw [getD_push_of_le le] at there
    exact closure_completed before nodup here mem complete there awaits

/-! ## The closures of a run -/

section Closes

variable [DecidableEq κ] {tokenizer : Tokenizer κ σ} {equals : String → κ → Bool} {state : σ}
  {chart : Chart κ}

theorem Asks.sound {current : σ} (asks : Asks g tokenizer equals state chart current) :
    chart.Sound g := by
  induction asks with
  | start => exact Chart.sound_start
  | step _ _ read sound =>
    obtain ⟨-, -, rfl⟩ := Chart.step_eq_ok read
    exact sound.push

/-- **A run computes a closure**, behind the sets `earlier`, of the set that it has found there: of
the predictions of the entry at its beginning, of the items that advance over every token that was
given and read.  With the closure it has the chart that it goes on with. -/
inductive Closes (g : Grammar κ) (tokenizer : Tokenizer κ σ) (equals : String → κ → Bool)
    (state : σ) : Array ItemSet → ItemSet → Chart κ → Prop
  | start : Closes g tokenizer equals state #[]
      (.ofList ((g.productionsOf g.entry).map (Item.predict 0))) (.start g)
  | step {chart longer : Chart κ} {current next : σ} {scan : Scan κ}
      (asks : Asks g tokenizer equals state chart current)
      (answer : tokenizer.scan current (chart.frontier.expected g) = (.ok (some scan), next))
      (read : chart.step g equals scan = .ok longer) :
      Closes g tokenizer equals state chart.sets
        (chart.frontier.scanned g (scan.selected equals (chart.frontier.expected g))) longer

/-- The charts that closures are computed for are those for which the tokenizer is asked. -/
theorem exists_closes_iff :
    (∃ earlier set, Closes g tokenizer equals state earlier set chart)
      ↔ ∃ current, Asks g tokenizer equals state chart current := by
  constructor
  · rintro ⟨_, _, call⟩
    cases call with
    | start => exact ⟨_, .start⟩
    | step asks answer read => exact ⟨_, asks.step answer read⟩
  · rintro ⟨_, asks⟩
    cases asks with
    | start => exact ⟨_, _, .start⟩
    | step asks answer read => exact ⟨_, _, .step asks answer read⟩

theorem Closes.sets_eq (call : Closes g tokenizer equals state earlier set chart) :
    chart.sets = earlier.push (closure g earlier set) := by
  cases call with
  | start => rfl
  | step _ _ read =>
    obtain ⟨-, -, rfl⟩ := Chart.step_eq_ok read
    rfl

/-- What a run closes is justified by the tokens of the chart that it goes on with. -/
theorem Closes.closedAt (call : Closes g tokenizer equals state earlier set chart) :
    ClosedAt g chart.sets earlier.size := by
  rw [call.sets_eq]
  cases call with
  | start =>
    have before : JustifiedSets g (Chart.start g).Reads #[] := Chart.justifiedSets_nil
    exact closedAt_closure before ItemSet.nodup_ofList Chart.justified_entry
  | @step chart _ _ _ scan asks _ read =>
    have sound := asks.sound
    let kinds := scan.selected equals (chart.frontier.expected g)
    have before : JustifiedSets g
        (chart.push g scan.token kinds (chart.frontier.scanned g kinds)).Reads chart.sets :=
      Chart.JustifiedSets.push sound.justified
    exact closedAt_closure before ItemSet.nodup_ofList sound.justified_scanned

/-- **The closure comes to a fixpoint and touches its own set only.**  At every call that a run
makes, the sets before the position stay as they are, and the items that are there keep their places
as a prefix of the closed set.  The closed set is closed under the predictions of the names that its
items await, under the advance of items that await a name of the empty text, and under completion as
to all that the sets hold at the end, its own late items included.  Its own closure is the set as it
is. -/
theorem fixpoint_of_closes (call : Closes g tokenizer equals state earlier set chart) :
    chart.sets = earlier.push (closure g earlier set)
      ∧ set.toList.IsPrefix (closure g earlier set).toList
      ∧ ClosedAt g chart.sets earlier.size
      ∧ closure g earlier (closure g earlier set) = closure g earlier set :=
  ⟨call.sets_eq, prefix_closeFrom, call.closedAt,
    (call.sets_eq ▸ call.closedAt : ClosedAt g (earlier.push _) _).closure_eq⟩

end Closes

/-- Names of the empty text, one of which waits for another that is complete by then. -/
def lateWaiter : Grammar String :=
  .ofList "S" [⟨"S", [.nonterminal "A", .nonterminal "B"]⟩, ⟨"B", [.nonterminal "A"]⟩, ⟨"A", []⟩]

/-- **A late item advances too**: the completion of `A -> ·` leads to `B -> · A`, which is advanced
over it all the same. -/
theorem fixpoint_of_closes_lateWaiter :
    Closes lateWaiter (.ofList String) (· == ·) [] #[] (.ofList [⟨0, 0, 0⟩]) (.start lateWaiter)
      ∧ ∀ item ∈ [⟨0, 0, 0⟩, ⟨2, 0, 0⟩, ⟨0, 1, 0⟩, ⟨1, 0, 0⟩, ⟨1, 1, 0⟩, ⟨0, 2, 0⟩],
          item ∈ (closure lateWaiter #[] (.ofList [⟨0, 0, 0⟩])).toList := by
  have call : Closes lateWaiter (.ofList String) (· == ·) [] #[] (.ofList [⟨0, 0, 0⟩])
      (.start lateWaiter) := .start
  obtain ⟨sets, kept, ⟨predicted, -, completed⟩, -⟩ := fixpoint_of_closes call
  rw [sets] at predicted completed
  have whole := kept.subset (ItemSet.mem_ofList.2 (List.mem_singleton_self (⟨0, 0, 0⟩ : Item)))
  have empty := predicted _ whole "A" (by decide) 2 (by decide)
  have complete := (completed _ empty (by decide)).2
  have afterA := complete _ whole (by decide)
  have late := predicted _ afterA "B" (by decide) 1 (by decide)
  have advanced := complete _ late (by decide)
  have afterB := (completed _ advanced (by decide)).2 _ afterA (by decide)
  refine ⟨call, ?_⟩
  simp only [List.forall_mem_cons]
  exact ⟨whole, empty, afterA, late, advanced, afterB, List.forall_mem_nil _⟩

end Earley
