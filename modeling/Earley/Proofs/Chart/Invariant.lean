import Earley.Proofs.Chart.Justified

/-!
# Proofs/Chart/Invariant — what every step of recognition keeps

Two facts hold of the chart at every point of a run.  It is *sound*: there is one set more than
tokens, no set lists an item twice, and every item is justified by the tokens as they were read.
And it is *saturated*: whatever its items imply, at their own position or over a token that was
read, is there.
-/

namespace Earley

universe u v

variable {κ : Type u} {g : Grammar κ}

namespace Chart

/-- The items at a position, none behind the last one. -/
def itemsAt (chart : Chart κ) (pos : Nat) : List Item := (chart.sets.getD pos {}).toList

/-- **The kinds that a token was read as.** -/
def Reads (chart : Chart κ) (index : Nat) (kind : κ) : Prop :=
  kind ∈ chart.accepted.getD index []

/-- **The chart claims nothing wrong.** -/
structure Sound (g : Grammar κ) (chart : Chart κ) : Prop where
  size_sets : chart.sets.size = chart.tokens.size + 1
  size_accepted : chart.accepted.size = chart.tokens.size
  nodup : ∀ pos, (chart.itemsAt pos).Nodup
  justified : JustifiedSets g chart.Reads chart.sets

/-- **The chart misses nothing** that its items imply. -/
structure Saturated (g : Grammar κ) (chart : Chart κ) : Prop where
  begun : ∀ id ∈ g.productionsOf g.entry, Item.predict 0 id ∈ chart.itemsAt 0
  predicted : ∀ pos, ∀ item ∈ chart.itemsAt pos, ∀ name,
    item.next? g = some (.nonterminal name) →
      ∀ id ∈ g.productionsOf name, Item.predict pos id ∈ chart.itemsAt pos
  completed : ∀ pos, ∀ item ∈ chart.itemsAt pos, item.next? g = none →
    ∀ waiting ∈ chart.itemsAt item.origin,
      waiting.next? g = some (.nonterminal (g.name item.production)) →
        waiting.advance ∈ chart.itemsAt pos
  scanned : ∀ pos, ∀ item ∈ chart.itemsAt pos, ∀ kind, item.next? g = some (.terminal kind) →
    chart.Reads pos kind → item.advance ∈ chart.itemsAt (pos + 1)

variable {chart : Chart κ} {pos index : Nat} {kind : κ}

theorem itemsAt_eq_nil (h : chart.sets.size ≤ pos) : chart.itemsAt pos = [] := by
  simp [itemsAt, Array.getD, Nat.not_lt.2 h]

theorem lt_of_mem_itemsAt {item : Item} (h : item ∈ chart.itemsAt pos) :
    pos < chart.sets.size := by
  by_contra beyond
  rw [itemsAt_eq_nil (Nat.not_lt.1 beyond)] at h
  exact absurd h List.not_mem_nil

theorem Reads.lt (h : chart.Reads index kind) : index < chart.accepted.size := by
  by_contra beyond
  simp [Reads, Array.getD, beyond] at h

/-- Only the tokens that were read may be read. -/
theorem Sound.lt_of_reads (h : chart.Sound g) (reads : chart.Reads index kind) :
    index < chart.tokens.size :=
  h.size_accepted ▸ reads.lt

/-! ## One more token -/

section Push

variable {token : Token κ} {kinds : List κ} {next : ItemSet}

theorem itemsAt_push_of_lt (h : pos < chart.sets.size) :
    (chart.push g token kinds next).itemsAt pos = chart.itemsAt pos := by
  simp [itemsAt, push, Array.getD, h, Nat.lt_succ_of_lt h, Array.getElem_push_lt]

theorem itemsAt_push_size :
    (chart.push g token kinds next).itemsAt chart.sets.size
      = (closure g chart.sets next).toList := by
  simp [itemsAt, push, Array.getD]

theorem size_sets_push : (chart.push g token kinds next).sets.size = chart.sets.size + 1 :=
  Array.size_push _

/-- An item of the longer chart is an old one or in the new closed set. -/
theorem of_mem_itemsAt_push {item : Item}
    (mem : item ∈ (chart.push g token kinds next).itemsAt pos) :
    pos < chart.sets.size ∧ item ∈ chart.itemsAt pos
      ∨ pos = chart.sets.size ∧ item ∈ (closure g chart.sets next).toList := by
  have bound := lt_of_mem_itemsAt mem
  rw [size_sets_push] at bound
  rcases Nat.lt_or_eq_of_le (Nat.le_of_lt_succ bound) with old | rfl
  · exact .inl ⟨old, itemsAt_push_of_lt old ▸ mem⟩
  · exact .inr ⟨rfl, itemsAt_push_size ▸ mem⟩

theorem reads_push_of_lt (h : index < chart.accepted.size) :
    (chart.push g token kinds next).Reads index kind ↔ chart.Reads index kind := by
  simp [Reads, push, Array.getD, h, Nat.lt_succ_of_lt h, Array.getElem_push_lt]

theorem reads_push_size :
    (chart.push g token kinds next).Reads chart.accepted.size kind ↔ kind ∈ kinds := by
  simp [Reads, push, Array.getD]

theorem Reads.push (h : chart.Reads index kind) :
    (chart.push g token kinds next).Reads index kind :=
  (reads_push_of_lt h.lt).2 h

theorem JustifiedSets.push (before : JustifiedSets g chart.Reads chart.sets) :
    JustifiedSets g (chart.push g token kinds next).Reads chart.sets :=
  fun pos item mem => (before pos item mem).mono fun _ _ reads => reads.push

end Push

theorem toList_frontier (h : chart.sets.size = chart.tokens.size + 1) :
    chart.frontier.toList = chart.itemsAt chart.tokens.size := by
  simp [frontier, itemsAt, Array.back?, Array.getD, h]

/-! ## The first set -/

theorem justifiedSets_nil {stands : Nat → κ → Prop} : JustifiedSets g stands #[] := by
  intro pos item mem
  simp [Array.getD] at mem

theorem justified_entry {stands : Nat → κ → Prop} : ∀ item ∈
    (ItemSet.ofList ((g.productionsOf g.entry).map (Item.predict 0))).toList,
      item.Justified g stands (#[] : Array ItemSet).size := by
  intro item mem
  obtain ⟨id, rule, rfl⟩ := List.mem_map.1 (ItemSet.mem_ofList.1 mem)
  exact .predict .entry rule

theorem itemsAt_start_zero : (start g).itemsAt 0
    = (closure g #[] (.ofList ((g.productionsOf g.entry).map (Item.predict 0)))).toList := by
  simp [itemsAt, start, Array.getD]

theorem eq_zero_of_mem_itemsAt_start {item : Item} (mem : item ∈ (start g).itemsAt pos) :
    pos = 0 := by
  have bound := lt_of_mem_itemsAt mem
  simpa [start] using bound

/-- **The first chart is sound.** -/
theorem sound_start : (start g).Sound g where
  size_sets := rfl
  size_accepted := rfl
  nodup := by
    intro pos
    rcases Nat.eq_zero_or_pos pos with rfl | beyond
    · rw [itemsAt_start_zero]
      exact nodup_closeFrom ItemSet.nodup_ofList
    · rw [itemsAt_eq_nil (show (start g).sets.size ≤ pos from beyond)]
      exact List.nodup_nil
  justified := by
    intro pos item mem
    change item ∈ (start g).itemsAt pos at mem
    obtain rfl := eq_zero_of_mem_itemsAt_start mem
    rw [itemsAt_start_zero] at mem
    exact justified_closure justifiedSets_nil justified_entry item mem

/-- **The first chart is saturated.** -/
theorem saturated_start : (start g).Saturated g where
  begun := by
    intro id rule
    rw [itemsAt_start_zero]
    exact prefix_closeFrom.subset (ItemSet.mem_ofList.2 (List.mem_map.2 ⟨id, rule, rfl⟩))
  predicted := by
    intro pos item mem name awaits id rule
    obtain rfl := eq_zero_of_mem_itemsAt_start mem
    rw [itemsAt_start_zero] at mem ⊢
    have before : JustifiedSets g (start g).Reads #[] := justifiedSets_nil
    exact closure_predicted before ItemSet.nodup_ofList justified_entry mem awaits rule
  completed := by
    intro pos item mem complete waiting there awaits
    obtain rfl := eq_zero_of_mem_itemsAt_start mem
    rw [eq_zero_of_mem_itemsAt_start there, itemsAt_start_zero] at there
    rw [itemsAt_start_zero] at mem ⊢
    have before : JustifiedSets g (start g).Reads #[] := justifiedSets_nil
    exact closure_completed before ItemSet.nodup_ofList justified_entry mem complete
      (by simpa [Array.getD] using there) awaits
  scanned := by
    intro pos item _ kind _ reads
    exact absurd reads.lt (Nat.not_lt_zero pos)

/-! ## One more token keeps both -/

section Step

variable [DecidableEq κ] {token : Token κ} {kinds : List κ}

/-- The items that advance over a token are justified behind it. -/
theorem Sound.justified_scanned (h : chart.Sound g) :
    ∀ item ∈ (chart.frontier.scanned g kinds).toList,
      item.Justified g (chart.push g token kinds (chart.frontier.scanned g kinds)).Reads
        chart.sets.size := by
  intro item mem
  obtain ⟨old, memOld, kind, chosen, awaits, rfl⟩ := ItemSet.mem_scanned.1 mem
  rw [toList_frontier h.size_sets] at memOld
  have reads : (chart.push g token kinds (chart.frontier.scanned g kinds)).Reads
      chart.tokens.size kind := by
    rw [← h.size_accepted]
    exact reads_push_size.2 chosen
  rw [h.size_sets]
  exact (JustifiedSets.push h.justified _ old memOld).advance awaits (.singleton_terminal reads)

/-- **One more token leaves the chart sound.** -/
theorem Sound.push (h : chart.Sound g) :
    (chart.push g token kinds (chart.frontier.scanned g kinds)).Sound g where
  size_sets := by
    rw [size_sets_push, h.size_sets]
    exact congrArg (· + 1) (Array.size_push _).symm
  size_accepted := by
    change (chart.accepted.push kinds).size = (chart.tokens.push token).size
    rw [Array.size_push, Array.size_push, h.size_accepted]
  nodup := by
    intro pos
    rcases Nat.lt_trichotomy pos chart.sets.size with bound | rfl | beyond
    · rw [itemsAt_push_of_lt bound]
      exact h.nodup pos
    · rw [itemsAt_push_size]
      exact nodup_closeFrom ItemSet.nodup_ofList
    · rw [itemsAt_eq_nil (by rw [size_sets_push]; exact beyond)]
      exact List.nodup_nil
  justified := by
    intro pos item mem
    rcases of_mem_itemsAt_push mem with ⟨_, old⟩ | ⟨rfl, fresh⟩
    · exact JustifiedSets.push h.justified pos item old
    · exact justified_closure (JustifiedSets.push h.justified) h.justified_scanned item fresh

/-- **One more token leaves the chart saturated.** -/
theorem Saturated.push (sound : chart.Sound g) (h : chart.Saturated g) :
    (chart.push g token kinds (chart.frontier.scanned g kinds)).Saturated g := by
  have before : JustifiedSets g (chart.push g token kinds (chart.frontier.scanned g kinds)).Reads
      chart.sets := JustifiedSets.push sound.justified
  have here : ∀ item ∈ (chart.frontier.scanned g kinds).toList, item.Justified g
      (chart.push g token kinds (chart.frontier.scanned g kinds)).Reads chart.sets.size :=
    sound.justified_scanned
  have nodup : (chart.frontier.scanned g kinds).toList.Nodup := ItemSet.nodup_ofList
  constructor
  case begun =>
    intro id rule
    rw [itemsAt_push_of_lt (by rw [sound.size_sets]; omega)]
    exact h.begun id rule
  case predicted =>
    intro pos item mem name awaits id rule
    rcases of_mem_itemsAt_push mem with ⟨bound, old⟩ | ⟨rfl, fresh⟩
    · rw [itemsAt_push_of_lt bound]
      exact h.predicted pos item old name awaits id rule
    · rw [itemsAt_push_size]
      exact closure_predicted before nodup here fresh awaits rule
  case completed =>
    intro pos item mem complete waiting there awaits
    rcases of_mem_itemsAt_push mem with ⟨bound, old⟩ | ⟨rfl, fresh⟩
    · have le := (sound.justified pos item old).origin_le
      rw [itemsAt_push_of_lt (Nat.lt_of_le_of_lt le bound)] at there
      rw [itemsAt_push_of_lt bound]
      exact h.completed pos item old complete waiting there awaits
    · rw [itemsAt_push_size]
      refine closure_completed before nodup here fresh complete ?_ awaits
      rcases of_mem_itemsAt_push there with ⟨bound, old⟩ | ⟨same, own⟩
      · simpa [itemsAt, Array.getD, bound] using old
      · simpa [Array.getD, same] using own
  case scanned =>
    intro pos item mem kind awaits reads
    have bound : pos < chart.accepted.size + 1 := by
      have lt := reads.lt
      rwa [show (chart.push g token kinds _).accepted.size = chart.accepted.size + 1 from
        Array.size_push _] at lt
    have sizes := sound.size_sets
    have sizes' := sound.size_accepted
    rw [itemsAt_push_of_lt (by omega)] at mem
    rcases Nat.lt_or_eq_of_le (Nat.le_of_lt_succ bound) with old | rfl
    · rw [itemsAt_push_of_lt (by omega)]
      exact h.scanned pos item mem kind awaits ((reads_push_of_lt old).1 reads)
    · rw [sizes', ← sizes, itemsAt_push_size]
      rw [sizes', ← toList_frontier sizes] at mem
      exact prefix_closeFrom.subset
        (ItemSet.mem_scanned.2 ⟨item, mem, kind, reads_push_size.1 reads, awaits, rfl⟩)

end Step

/-! ## Whole runs -/

section Run

variable [DecidableEq κ] {σ : Type v} {tokenizer : Tokenizer κ σ} {equals : String → κ → Bool}
  {scan : Scan κ} {longer : Chart κ} {state : σ}

/-- **A step reads a token with a text, of which some item awaits a selected kind.** -/
theorem step_eq_ok (h : chart.step g equals scan = .ok longer) :
    scan.token.text.isEmpty = false
      ∧ (chart.frontier.scanned g
          (scan.selected equals (chart.frontier.expected g))).items.isEmpty = false
      ∧ longer = chart.push g scan.token (scan.selected equals (chart.frontier.expected g))
          (chart.frontier.scanned g (scan.selected equals (chart.frontier.expected g))) := by
  simp only [step] at h
  split at h
  · obtain ⟨⟩ := h
  · split at h
    · obtain ⟨⟩ := h
    · rename_i text awaited
      exact ⟨by simpa using text, by simpa using awaited, (Except.ok.inj h).symm⟩

/-- **A property that every step keeps** holds of the chart at the end of a run. -/
theorem recognizeFrom_induction {P : Chart κ → Prop}
    (step : ∀ chart scan longer, P chart → chart.step g equals scan = .ok longer → P longer)
    (start : P chart) : P (recognizeFrom g tokenizer equals chart state).chart := by
  fun_induction recognizeFrom g tokenizer equals chart state with
  | case1 => exact start
  | case2 => exact start
  | case3 => exact start
  | case4 chart state scan next _ longer stepped _ ih =>
    exact ih (step chart scan longer start stepped)

theorem sound_and_saturated_recognize :
    (recognize g tokenizer equals state).chart.Sound g
      ∧ (recognize g tokenizer equals state).chart.Saturated g := by
  refine recognizeFrom_induction (P := fun chart => chart.Sound g ∧ chart.Saturated g) ?_
    ⟨sound_start, saturated_start⟩
  rintro chart scan longer ⟨sound, saturated⟩ stepped
  obtain ⟨-, -, rfl⟩ := step_eq_ok stepped
  exact ⟨sound.push, saturated.push sound⟩

/-- **The chart of every run is sound**, whether or not an error stopped it. -/
theorem sound_recognize : (recognize g tokenizer equals state).chart.Sound g :=
  sound_and_saturated_recognize.1

/-- **The chart of every run is saturated.** -/
theorem saturated_recognize : (recognize g tokenizer equals state).chart.Saturated g :=
  sound_and_saturated_recognize.2

end Run

end Chart

end Earley
