import Earley.Proofs.Chart.Fixpoint
import Earley.Proofs.Chart.Flags
import Mathlib.Logic.Relation

/-!
# Proofs/Chart/Points — what holds at every point of recognition

Recognition is looked at in its smallest steps (`Point.Reached`): one implied item is inserted, the
next item of the set is met, or a token is read by the flags of the expected kinds.  The source of
tokens is arbitrary and may never end.  At every point the items fit the grammar and the place of
their set (`Point.Fits`), so that no set is larger than its items allow, the closure of every set
comes to its end, and whatever is looked up is there.  A run over finitely many tokens leaves the
chart of such a point.
-/

namespace Earley

universe u v

variable {κ : Type u} {σ : Type v} {g : Grammar κ} {earlier : Array ItemSet} {set : ItemSet}

/-! ## Sets whose items are in range -/

theorem fittingSets_nil : FittingSets g #[] := fun _ => ItemSet.fits_empty

theorem FittingSets.push (before : FittingSets g earlier) (here : set.Fits g earlier.size) :
    FittingSets g (earlier.push set) := by
  intro pos
  rcases Nat.lt_trichotomy pos earlier.size with lt | rfl | gt
  · have old := before pos
    rw [getD_push_of_le lt.le]
    simp only [Array.getD, lt, dite_true] at old ⊢
    exact old
  · rwa [getD_push_size]
  · have beyond : ¬ pos < (earlier.push set).size := by
      rw [Array.size_push]
      omega
    simp only [Array.getD, beyond, dite_false]
    exact ItemSet.fits_empty

namespace Item.InRange

variable {item : Item} {pos mid : Nat}

theorem mono (h : item.InRange g mid) (le : mid ≤ pos) : item.InRange g pos :=
  ⟨h.production_lt, h.dot_le, h.origin_le.trans le⟩

theorem advance {symbol : Symbol κ} (h : item.InRange g pos) (awaits : item.next? g = some symbol) :
    item.advance.InRange g pos :=
  ⟨h.production_lt, Item.dot_lt awaits, h.origin_le⟩

theorem predict {name : String} {id : ProdId} (rule : id ∈ g.productionsOf name) :
    (Item.predict pos id).InRange g pos :=
  ⟨(Grammar.mem_productionsOf.1 rule).1, Nat.zero_le _, Nat.le_refl pos⟩

end Item.InRange

/-- **What an item in range implies is in range.** -/
theorem Consequence.inRange {item new : Item} (before : FittingSets g earlier)
    (here : ∀ item ∈ set.toList, item.InRange g earlier.size) (mem : item ∈ set.toList)
    (h : Consequence g earlier set item new) : new.InRange g earlier.size := by
  cases h with
  | predicted _ rule => exact .predict rule
  | skipped awaits _ => exact (here item mem).advance awaits
  | @completed waiting _ there awaits =>
    by_cases bound : item.origin < earlier.size
    · have old := (before item.origin).inRange waiting
      simp only [Array.getD, bound, dite_true] at there old
      exact ((old there).advance awaits).mono bound.le
    · simp only [Array.getD, bound, dite_false] at there
      exact (here waiting there).advance awaits

theorem ItemSet.Fits.closeFrom {steps index : Nat} (before : FittingSets g earlier)
    (h : set.Fits g earlier.size) : (closeFrom g earlier steps index set).Fits g earlier.size :=
  ⟨nodup_closeFrom h.nodup,
    closeFrom_forall (fun _ here _ mem _ implied => implied.inRange before here mem) h.inRange⟩

/-! ## Points -/

/-- **Where recognition stands**: the closed sets of the positions before, the set at this position
as far as it was found, how many of its items were met, what the last of these implies and is not
inserted yet, and the tokens that were read with their kinds. -/
structure Point (κ : Type u) where
  earlier : Array ItemSet
  current : ItemSet
  met : Nat := 0
  implied : List Item := []
  tokens : Array (Token κ) := #[]
  accepted : Array (List κ) := #[]

namespace Point

/-- The sets, the tokens and their kinds. -/
def chart (point : Point κ) : Chart κ :=
  ⟨point.earlier.push point.current, point.tokens, point.accepted⟩

/-- The predictions of the entry. -/
def start (g : Grammar κ) : Point κ where
  earlier := #[]
  current := .ofList ((g.productionsOf g.entry).map (Item.predict 0))

/-- **One step of a closure**: inserts what is implied, item by item, and then meets the next item;
there is none once the set is closed. -/
def closing? (g : Grammar κ) (point : Point κ) : Option (Point κ) :=
  match point.implied with
  | new :: rest => some { point with current := point.current.insert new, implied := rest }
  | [] => point.current.items[point.met]?.map fun item =>
    { point with
      met := point.met + 1
      implied := consequences g point.earlier point.current item }

/-- A point and the one after it in the closure of a set. -/
def Closes (g : Grammar κ) (point longer : Point κ) : Prop := point.closing? g = some longer

section Read

variable [DecidableEq κ]

/-- **The point behind a token**: the items with a flag advance, and the kinds with a flag are those
that the token is accepted as. -/
def next (g : Grammar κ) (equals : String → κ → Bool) (point : Point κ) (scan : Scan κ) :
    Point κ :=
  let survey := point.current.survey g
  let flags := scan.flags equals survey.expected
  { earlier := point.earlier.push point.current
    current := survey.advances flags
    tokens := point.tokens.push scan.token
    accepted := point.accepted.push (((survey.expected.zip flags).filter Prod.snd).map Prod.fst) }

/-- **The points of a run** over any source of tokens, each with the state that the source is in. -/
inductive Reached (g : Grammar κ)
    (source : σ → List κ → Except (ParseError κ) (Option (Scan κ)) × σ)
    (equals : String → κ → Bool) (state : σ) : Point κ → σ → Prop
  | start : Reached g source equals state (.start g) state
  | close {point longer : Point κ} {now : σ} (before : Reached g source equals state point now)
      (step : point.Closes g longer) : Reached g source equals state longer now
  | read {point : Point κ} {now after : σ} {scan : Scan κ}
      (before : Reached g source equals state point now) (closed : point.closing? g = none)
      (answer : source now (point.current.survey g).expected = (.ok (some scan), after))
      (text : scan.token.text.isEmpty = false)
      (advances : (point.next g equals scan).current.items.isEmpty = false) :
      Reached g source equals state (point.next g equals scan) after

end Read

end Point

/-! ## What every point keeps -/

/-- **A token was read**: as different kinds, one at least, of which one is awaited before it by an
item whose advance is behind it. -/
def Chart.ReadAt (g : Grammar κ) (chart : Chart κ) (index : Nat) : Prop :=
  ∃ kinds, chart.accepted[index]? = some kinds ∧ kinds ≠ [] ∧ kinds.Nodup
    ∧ ∃ item ∈ chart.itemsAt index, ∃ kind ∈ kinds,
      item.next? g = some (.terminal kind) ∧ item.advance ∈ chart.itemsAt (index + 1)

theorem Chart.ReadAt.mono {chart longer : Chart κ} {index : Nat} (h : chart.ReadAt g index)
    (kept : ∀ pos, chart.itemsAt pos ⊆ longer.itemsAt pos)
    (same : longer.accepted[index]? = chart.accepted[index]?) : longer.ReadAt g index := by
  obtain ⟨kinds, read, some, nodup, item, mem, kind, chosen, awaits, advanced⟩ := h
  exact ⟨kinds, same ▸ read, some, nodup, item, kept _ mem, kind, chosen, awaits, kept _ advanced⟩

namespace Point

/-- **What holds at every point.** -/
structure Fits (g : Grammar κ) (point : Point κ) : Prop where
  size_tokens : point.earlier.size = point.tokens.size
  size_accepted : point.earlier.size = point.accepted.size
  before : FittingSets g point.earlier
  here : point.current.Fits g point.earlier.size
  met_le : point.met ≤ point.current.toList.length
  implied : ∀ item ∈ point.implied, item.InRange g point.earlier.size
  read : ∀ index < point.tokens.size, point.chart.ReadAt g index

variable {point longer : Point κ} {pos : Nat}

theorem itemsAt_size {tokens : Array (Token κ)} {accepted : Array (List κ)} :
    Chart.itemsAt ⟨earlier.push set, tokens, accepted⟩ earlier.size = set.toList := by
  simp [Chart.itemsAt]

theorem frontier_chart : point.chart.frontier = point.current := by
  simp [Chart.frontier, chart]

theorem itemsAt_subset_push {chart : Chart κ} {tokens : Array (Token κ)}
    {accepted : Array (List κ)} :
    chart.itemsAt pos ⊆ Chart.itemsAt ⟨chart.sets.push set, tokens, accepted⟩ pos := by
  intro item mem
  have bound := Chart.lt_of_mem_itemsAt mem
  unfold Chart.itemsAt at mem ⊢
  rw [getD_push_of_le bound.le]
  simp only [Array.getD, bound, dite_true] at mem ⊢
  exact mem

/-- More items at the last position are more items at every position. -/
theorem itemsAt_subset_of_prefix {tokens : Array (Token κ)} {accepted : Array (List κ)}
    (more : point.current.toList ⊆ set.toList) : point.chart.itemsAt pos
      ⊆ Chart.itemsAt ⟨point.earlier.push set, tokens, accepted⟩ pos := by
  intro item mem
  have bound := Chart.lt_of_mem_itemsAt mem
  rw [chart, Array.size_push] at bound
  unfold Chart.itemsAt chart at mem
  unfold Chart.itemsAt
  rw [getD_push_of_le (Nat.le_of_lt_succ bound)] at mem ⊢
  by_cases old : pos < point.earlier.size
  · simp only [Array.getD, old, dite_true] at mem ⊢
    exact mem
  · simp only [Array.getD, old, dite_false] at mem ⊢
    exact more mem

theorem fits_start : (start g).Fits g where
  size_tokens := rfl
  size_accepted := rfl
  before := fittingSets_nil
  here := by
    refine ⟨ItemSet.nodup_ofList, fun item mem => ?_⟩
    obtain ⟨id, rule, rfl⟩ := List.mem_map.1 (ItemSet.mem_ofList.1 mem)
    exact .predict rule
  met_le := Nat.zero_le _
  implied := fun _ mem => absurd mem List.not_mem_nil
  read := fun _ lt => absurd lt (Nat.not_lt_zero _)

/-- **A step of a closure** inserts an item in range or meets an item of the set. -/
theorem Fits.closing (h : point.Fits g) (step : point.Closes g longer) : longer.Fits g := by
  unfold Closes closing? at step
  split at step
  case h_1 new rest implied =>
    obtain rfl := Option.some.inj step
    have range := h.implied
    rw [implied, List.forall_mem_cons] at range
    have inserted : point.current.toList <+: (point.current.insert new).toList :=
      ItemSet.prefix_insert
    refine ⟨h.size_tokens, h.size_accepted, h.before, ⟨ItemSet.nodup_insert h.here.nodup, ?_⟩,
      h.met_le.trans inserted.length_le, range.2, fun index lt =>
        (h.read index lt).mono (fun _ => itemsAt_subset_of_prefix inserted.subset) rfl⟩
    intro item mem
    rcases ItemSet.mem_insert.1 mem with old | rfl
    · exact h.here.inRange item old
    · exact range.1
  case h_2 =>
    obtain ⟨item, atMet, rfl⟩ := Option.map_eq_some_iff.1 step
    have here : point.current.toList[point.met]? = some item := by
      simpa [ItemSet.toList] using atMet
    refine ⟨h.size_tokens, h.size_accepted, h.before, h.here,
      (List.getElem?_eq_some_iff.1 here).1, fun new implied => ?_, h.read⟩
    exact (mem_consequences.1 implied).inRange h.before h.here.inRange (List.mem_of_getElem? here)

section Read

variable [DecidableEq κ] {equals : String → κ → Bool} {scan : Scan κ}

/-- The kinds that are accepted are those that the token is read as. -/
theorem next_eq (point : Point κ) (scan : Scan κ) : point.next g equals scan
    = { earlier := point.earlier.push point.current
        current := point.current.scanned g (scan.selected equals (point.current.expected g))
        tokens := point.tokens.push scan.token
        accepted := point.accepted.push (scan.selected equals (point.current.expected g)) } := by
  rw [ItemSet.scanned_selected_eq, Scan.selected_eq_flagged, ← ItemSet.expected_survey]
  rfl

/-- **The token itself was read**, if some item advances over it. -/
theorem Fits.readAt_next (h : point.Fits g)
    (advances : (point.next g equals scan).current.items.isEmpty = false) :
    (point.next g equals scan).chart.ReadAt g point.tokens.size := by
  rw [next_eq] at advances ⊢
  obtain ⟨new, first⟩ : ∃ new, new ∈ (point.current.scanned g
      (scan.selected equals (point.current.expected g))).toList :=
    List.exists_mem_of_ne_nil _ (by simpa [ItemSet.toList] using advances)
  obtain ⟨item, there, kind, chosen, awaits, rfl⟩ := ItemSet.mem_scanned.1 first
  refine ⟨_, ?_, List.ne_nil_of_mem chosen, Scan.sublist_selected.nodup ItemSet.nodup_expected,
    item, ?_, kind, chosen, awaits, ?_⟩
  · rw [← h.size_tokens, h.size_accepted]
    exact Array.getElem?_push_size
  · have there' : item ∈ point.chart.itemsAt point.earlier.size := itemsAt_size ▸ there
    rw [← h.size_tokens]
    exact itemsAt_subset_push there'
  · rw [← h.size_tokens, ← Array.size_push point.current]
    exact itemsAt_size ▸ first

/-- **Behind a token** that is read, the items that advanced are in range. -/
theorem Fits.next (h : point.Fits g)
    (advances : (point.next g equals scan).current.items.isEmpty = false) :
    (point.next g equals scan).Fits g := by
  have last := h.readAt_next advances
  have size : (point.earlier.push point.current).size = point.earlier.size + 1 := Array.size_push _
  rw [next_eq] at last ⊢
  refine ⟨?_, ?_, h.before.push h.here, ⟨ItemSet.nodup_ofList, fun new mem => ?_⟩, Nat.zero_le _,
    fun _ mem => absurd mem List.not_mem_nil, fun index lt => ?_⟩
  · rw [size, h.size_tokens, Array.size_push]
  · rw [size, h.size_accepted, Array.size_push]
  · obtain ⟨item, there, kind, -, awaits, rfl⟩ := ItemSet.mem_scanned.1 mem
    exact ((h.here.inRange item there).advance awaits).mono (size ▸ Nat.le_succ _)
  · rw [Array.size_push] at lt
    rcases Nat.lt_or_eq_of_le (Nat.le_of_lt_succ lt) with old | rfl
    · refine (h.read index old).mono (fun _ => itemsAt_subset_push) ?_
      rw [← h.size_tokens, h.size_accepted] at old
      exact (Array.getElem?_push_lt old).trans (Array.getElem?_eq_getElem old).symm
    · exact last

variable {source : σ → List κ → Except (ParseError κ) (Option (Scan κ)) × σ} {state now : σ}

/-- **Every point fits.** -/
theorem Reached.fits (h : Reached g source equals state point now) : point.Fits g := by
  induction h with
  | start => exact fits_start
  | close _ step fits => exact fits.closing step
  | read _ _ _ _ advances fits => exact fits.next advances

theorem Reached.closes (h : Reached g source equals state point now)
    (steps : Relation.ReflTransGen (Closes g) point longer) :
    Reached g source equals state longer now := by
  induction steps with
  | refl => exact h
  | tail _ step ih => exact ih.close step

end Read

/-! ## The end of a closure -/

/-- Everything that is implied is inserted. -/
theorem closes_insertAll (point : Point κ) (implied : List Item) :
    Relation.ReflTransGen (Closes g) { point with implied }
      { point with current := point.current.insertAll implied, implied := [] } := by
  induction implied generalizing point with
  | nil => exact .refl
  | cons new rest ih =>
    have step : Closes g { point with implied := new :: rest }
        { point with current := point.current.insert new, implied := rest } := rfl
    exact .head step (ih { point with current := point.current.insert new })

/-- **The walk of a closure** is made of such steps, and is at its end where it has as many steps as
items to meet. -/
theorem closes_closeFrom {steps : Nat} (point : Point κ) (idle : point.implied = [])
    (enough : (closeFrom g point.earlier steps point.met point.current).toList.length
      ≤ point.met + steps) :
    ∃ met, let closed := { point with
        current := closeFrom g point.earlier steps point.met point.current, met }
      Relation.ReflTransGen (Closes g) point closed ∧ closed.closing? g = none := by
  have ended {point : Point κ} (idle : point.implied = [])
      (beyond : point.current.toList[point.met]? = none) : point.closing? g = none := by
    have none : point.current.items[point.met]? = none := by
      simpa [ItemSet.toList] using beyond
    simp only [closing?, idle, none, Option.map_none]
  induction steps generalizing point with
  | zero => exact ⟨point.met, .refl, ended idle (List.getElem?_eq_none_iff.2 enough)⟩
  | succ steps ih =>
    cases atMet : point.current.toList[point.met]? with
    | none =>
      rw [closeFrom_of_getElem?_eq_none atMet]
      exact ⟨point.met, .refl, ended idle atMet⟩
    | some item =>
      rw [closeFrom_of_getElem?_eq_some atMet] at enough ⊢
      let implied := consequences g point.earlier point.current item
      obtain ⟨met, path, closed⟩ := ih { point with
        current := point.current.insertAll implied, met := point.met + 1 } idle
        (by simpa only [Nat.add_assoc, Nat.add_comm 1] using enough)
      have here : point.current.items[point.met]? = some item := by
        simpa [ItemSet.toList] using atMet
      have step : Closes g point { point with met := point.met + 1, implied } := by
        simp only [Closes, closing?, idle, here, Option.map_some, implied]
      have inserts := closes_insertAll (g := g) { point with met := point.met + 1 } implied
      refine ⟨met, .head step (inserts.trans ?_), closed⟩
      simpa only [idle] using path

theorem Fits.closes (h : point.Fits g) (steps : Relation.ReflTransGen (Closes g) point longer) :
    longer.Fits g := by
  induction steps with
  | refl => exact h
  | tail _ step ih => exact ih.closing step

/-- **No more steps than items** are needed where nothing is left to be inserted. -/
theorem Fits.closes_closeFrom (h : point.Fits g) (idle : point.implied = []) :
    ∃ met, let closed := { point with
        current := closeFrom g point.earlier (g.itemCount point.earlier.size) point.met
          point.current, met }
      Relation.ReflTransGen (Closes g) point closed ∧ closed.closing? g = none :=
  have fits := h.here.closeFrom h.before
  Point.closes_closeFrom point idle (fits.length_le.trans (Nat.le_add_left _ _))

/-- **Every closure comes to its end.** -/
theorem Fits.exists_closed (h : point.Fits g) : ∃ closed,
    Relation.ReflTransGen (Closes g) point closed ∧ closed.closing? g = none := by
  have inserts := closes_insertAll (g := g) point point.implied
  obtain ⟨_, path, closed⟩ := (h.closes inserts).closes_closeFrom rfl
  exact ⟨_, inserts.trans path, closed⟩

/-- The set at the beginning of a position becomes its closure. -/
theorem Fits.closes_closure (h : point.Fits g) (unmet : point.met = 0) (idle : point.implied = []) :
    ∃ closed, Relation.ReflTransGen (Closes g) point closed ∧ closed.closing? g = none
      ∧ closed.chart = ⟨point.earlier.push (closure g point.earlier point.current), point.tokens,
        point.accepted⟩ := by
  obtain ⟨met, path, closed⟩ := h.closes_closeFrom idle
  exact ⟨_, path, closed, by rw [unmet]; rfl⟩

/-! ## Runs -/

section Run

variable [DecidableEq κ] {equals : String → κ → Bool} {tokenizer : Tokenizer κ σ} {state now : σ}
  {chart : Chart κ}

/-- **A closed point of a run**, by its chart. -/
def ReachedChart (g : Grammar κ) (tokenizer : Tokenizer κ σ) (equals : String → κ → Bool)
    (state : σ) (chart : Chart κ) (now : σ) : Prop :=
  ∃ point, Reached g tokenizer.scan equals state point now ∧ point.closing? g = none
    ∧ point.chart = chart

theorem reachedChart_start : ReachedChart g tokenizer equals state (.start g) state := by
  obtain ⟨closed, path, ended, chart_eq⟩ := (fits_start (g := g)).closes_closure rfl rfl
  exact ⟨closed, Reached.start.closes path, ended, chart_eq⟩

/-- **A token that is read** leads from one closed point to the next. -/
theorem ReachedChart.step {after : σ} {scan : Scan κ} {longer : Chart κ}
    (h : ReachedChart g tokenizer equals state chart now)
    (answer : tokenizer.scan now (chart.frontier.expected g) = (.ok (some scan), after))
    (read : chart.step g equals scan = .ok longer) :
    ReachedChart g tokenizer equals state longer after := by
  obtain ⟨point, reached, closed, rfl⟩ := h
  obtain ⟨text, advances, rfl⟩ := Chart.step_eq_ok read
  rw [frontier_chart] at answer advances ⊢
  have behind : Reached g tokenizer.scan equals state (point.next g equals scan) after :=
    reached.read closed (by rwa [ItemSet.expected_survey]) text (by rwa [next_eq])
  obtain ⟨closed, path, ended, chart_eq⟩ := behind.fits.closes_closure rfl rfl
  refine ⟨closed, behind.closes path, ended, chart_eq.trans ?_⟩
  rw [next_eq]
  rfl

/-- **A run comes from closed point to closed point** until it stops. -/
theorem ReachedChart.recognizeFrom (h : ReachedChart g tokenizer equals state chart now) :
    ∃ last, ReachedChart g tokenizer equals state
        (recognizeFrom g tokenizer equals chart now).chart last
      ∧ ((recognizeFrom g tokenizer equals chart now).error? = none →
        tokenizer.scan last ((recognizeFrom g tokenizer equals chart now).chart.frontier.expected g)
          = (.ok none, (recognizeFrom g tokenizer equals chart now).state)) := by
  fun_induction Earley.recognizeFrom g tokenizer equals chart now with
  | case1 chart now error after answer => exact ⟨now, h, fun none => absurd none (by simp)⟩
  | case2 chart now after answer => exact ⟨now, h, fun _ => answer⟩
  | case3 chart now scan after answer error stopped =>
    exact ⟨now, h, fun none => absurd none (by simp)⟩
  | case4 chart now scan after answer longer read _ ih => exact ih (h.step answer read)

end Run

end Point

/-- **Recognition stays in range and every closure ends.**  At every point of a run over any source
of tokens, finite or not, there is one set more than tokens and than lists of accepted kinds.  The
items of each set have a production of the grammar, a dot within it and an origin no later than the
set, and no set has an item twice.  Every token was read as different kinds, at least one, and some
item advanced over it into the set behind it.  Hence a set has no more items than there are dots and
origins up to its place, and the closure at hand comes to its end.  The set at the origin of an item
to be met is there and is the one that `consequences` looks at.  Whatever the source answers, there
is a flag at the place of every item that awaits a kind.

A run whose tokens come to an end leaves the chart of such a point, with a closed last set; it stops
without an error where the source has no more tokens. -/
theorem recognition_stays_in_range [DecidableEq κ] (g : Grammar κ)
    (source : σ → List κ → Except (ParseError κ) (Option (Scan κ)) × σ)
    (equals : String → κ → Bool) (state : σ) :
    (∀ point now, Point.Reached g source equals state point now →
      (point.chart.sets.size = point.tokens.size + 1
        ∧ point.chart.sets.size = point.accepted.size + 1)
      ∧ (∀ pos, ∀ item ∈ point.chart.itemsAt pos, item.production < g.productions.size
        ∧ item.dot ≤ (g.symbols item.production).length ∧ item.origin ≤ pos)
      ∧ (∀ pos, (point.chart.itemsAt pos).Nodup)
      ∧ (∀ index < point.tokens.size, point.chart.ReadAt g index)
      ∧ (∀ pos, (point.chart.itemsAt pos).length ≤ (pos + 1)
        * (g.productions.toList.map fun p => p.symbols.length + 1).sum)
      ∧ (∃ closed, Relation.ReflTransGen (Point.Closes g) point closed
        ∧ closed.closing? g = none ∧ Point.Reached g source equals state closed now)
      ∧ (∀ item ∈ point.current.toList, point.chart.sets[item.origin]?
        = some (point.earlier.getD item.origin point.current))
      ∧ ∀ scan, ∀ entry ∈ (point.current.survey g).awaiting,
        entry.2 < (Scan.flags equals scan (point.current.survey g).expected).length)
    ∧ ∀ tokenizer : Tokenizer κ σ, tokenizer.scan = source →
      ∃ point now, Point.Reached g source equals state point now ∧ point.closing? g = none
        ∧ (recognize g tokenizer equals state).chart = point.chart
        ∧ ((recognize g tokenizer equals state).error? = none →
          source now (point.current.survey g).expected
            = (.ok none, (recognize g tokenizer equals state).state)) := by
  constructor
  · intro point now reached
    have fits := reached.fits
    have sets : FittingSets g point.chart.sets := fits.before.push fits.here
    have size : point.chart.sets.size = point.earlier.size + 1 := Array.size_push _
    obtain ⟨closed, path, ended⟩ := fits.exists_closed
    refine ⟨⟨fits.size_tokens ▸ size, fits.size_accepted ▸ size⟩, fun pos item mem => ?_,
      fun pos => (sets pos).nodup, fits.read, fun pos => (sets pos).length_le,
      ⟨closed, path, ended, reached.closes path⟩, fun item mem => ?_,
      fun scan entry mem => ItemSet.place_lt_length_flags mem⟩
    · obtain ⟨production, dot, origin⟩ := (sets pos).inRange item mem
      exact ⟨production, dot, origin⟩
    · have le := (fits.here.inRange item mem).origin_le
      have bound : item.origin < (point.earlier.push point.current).size :=
        size ▸ Nat.lt_succ_of_le le
      rw [← getD_push_of_le le, Point.chart, Array.getElem?_eq_getElem bound]
      simp only [Array.getD, bound, dite_true]
      rfl
  · rintro tokenizer rfl
    have start : Point.ReachedChart g tokenizer equals state (.start g) state :=
      Point.reachedChart_start
    obtain ⟨now, ⟨point, reached, closed, chart_eq⟩, ending⟩ := start.recognizeFrom
    refine ⟨point, now, reached, closed, chart_eq.symm, fun none => ?_⟩
    rw [ItemSet.expected_survey, ← Point.frontier_chart, chart_eq]
    exact ending none

end Earley
