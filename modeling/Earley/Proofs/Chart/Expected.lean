import Earley.Proofs.Chart.Exactness
import Earley.Proofs.Grammar.Rewriting

/-!
# Proofs/Chart/Expected — the kinds expected at a position

The kinds behind the dots of a set are those that the entry awaits there, after what was read
(`Chart.exists_awaiting_iff`).  Where the parser itself compares texts with kinds, what a token was
read as is known from its text (`Chart.ByText`), and the expected kinds are those that some
sentential form has behind terminals with the texts of the tokens.
-/

namespace Earley

universe u

variable {κ : Type u} {g : Grammar κ} {stands : Nat → κ → Prop}

/-! ## Awaited kinds and items -/

/-- What a production awaits where its name may begin, the entry awaits. -/
theorem LeftReachable.awaits {name : String} {pos stop : Nat} {kind : κ}
    (reachable : LeftReachable g stands name pos) {id : ProdId} (rule : id ∈ g.productionsOf name)
    (h : Awaits g stands (g.symbols id) pos stop kind) :
    Awaits g stands [.nonterminal g.entry] 0 stop kind := by
  induction reachable generalizing id with
  | entry => exact .inside rule h
  | step _ aboveRule split read ih =>
    refine ih aboveRule ?_
    rw [split]
    exact .append_left read (.inside rule h)

namespace Chart

variable {chart : Chart κ} {pos stop : Nat} {kind : κ}

/-- The chart has an item at a position that awaits a kind. -/
def HasAwaiting (g : Grammar κ) (chart : Chart κ) (pos : Nat) (kind : κ) : Prop :=
  ∃ item ∈ chart.itemsAt pos, item.next? g = some (.terminal kind)

theorem Sound.awaits (h : chart.Sound g) (waits : chart.HasAwaiting g pos kind) :
    Awaits g chart.Reads [.nonterminal g.entry] 0 pos kind := by
  obtain ⟨item, mem, next⟩ := waits
  have justified := h.justified pos item mem
  refine justified.reachable.awaits justified.rule ?_
  rw [Item.symbols_eq next]
  exact .append_left justified.read .here

/-- **A saturated chart follows the symbols up to what they await.** -/
theorem Saturated.hasAwaiting (h : chart.Saturated g) (scans : chart.Scans g stands)
    {symbols : List (Symbol κ)} (awaits : Awaits g stands symbols pos stop kind) {item : Item}
    (mem : item ∈ chart.itemsAt pos)
    (ahead : (g.symbols item.production).drop item.dot = symbols) :
    chart.HasAwaiting g stop kind := by
  induction awaits generalizing item with
  | here => exact ⟨item, mem, Item.next?_of_drop ahead⟩
  | inside rule _ ih =>
    exact ih (h.predicted _ item mem _ (Item.next?_of_drop ahead) _ rule) rfl
  | behind read _ ih => exact ih (h.advance_mem scans read mem ahead) (Item.drop_advance ahead)

/-- **The kinds behind the dots of a set are those that the entry awaits there.** -/
theorem hasAwaiting_iff (sound : chart.Sound g) (saturated : chart.Saturated g)
    (scans : chart.Scans g stands)
    (reads : ∀ index kind, chart.Reads index kind → stands index kind) :
    chart.HasAwaiting g pos kind ↔ Awaits g stands [.nonterminal g.entry] 0 pos kind := by
  refine ⟨fun waits => (sound.awaits waits).imp fun index kind _ _ => reads index kind, ?_⟩
  intro awaits
  cases awaits with
  | inside rule head => exact saturated.hasAwaiting scans head (saturated.begun _ rule) rfl
  | behind read tail => cases tail

/-- **What is derived with all tokens as they may be read, is derived as they were read.** -/
theorem derives_entry_iff (sound : chart.Sound g) (saturated : chart.Saturated g)
    (scans : chart.Scans g stands)
    (reads : ∀ index kind, chart.Reads index kind → stands index kind) :
    Derives g chart.Reads [.nonterminal g.entry] 0 pos
      ↔ Derives g stands [.nonterminal g.entry] 0 pos := by
  refine ⟨fun h => h.mono reads, fun h => ?_⟩
  obtain ⟨id, rule, derives⟩ := h.exists_rule
  have whole : (g.symbols (Item.predict 0 id).production).drop (Item.predict 0 id).dot
      = g.symbols id ++ [] := by simp [Item.predict]
  have complete := saturated.advance_mem scans derives (saturated.begun id rule) whole
  have read := (sound.justified pos _ complete).read
  refine .singleton_nonterminal rule ?_
  simpa [Item.predict] using read

end Chart

/-! ## Texts and kinds -/

/-- **A token may be read as every kind that its text is equal to.** -/
def StandsByText (equals : String → κ → Bool) (tokens : List (Token κ)) (index : Nat) (kind : κ) :
    Prop :=
  ∃ token, tokens[index]? = some token ∧ equals token.text kind = true

theorem standsByText_push_of_lt {equals : String → κ → Bool} {tokens : Array (Token κ)}
    {token : Token κ} {index : Nat} {kind : κ} (lt : index < tokens.size) :
    StandsByText equals (tokens.push token).toList index kind
      ↔ StandsByText equals tokens.toList index kind := by
  simp [StandsByText, List.getElem?_append_left, lt]

theorem standsByText_push_size {equals : String → κ → Bool} {tokens : Array (Token κ)}
    {token : Token κ} {kind : κ} : StandsByText equals (tokens.push token).toList tokens.size kind
      ↔ equals token.text kind = true := by
  simp [StandsByText]

theorem StandsByText.lt {equals : String → κ → Bool} {tokens : List (Token κ)} {index : Nat}
    {kind : κ} (h : StandsByText equals tokens index kind) : index < tokens.length := by
  obtain ⟨_, atIndex, -⟩ := h
  exact (List.getElem?_eq_some_iff.1 atIndex).1

/-- The texts of the tokens are equal to the kinds, one by one. -/
abbrev Matches (equals : String → κ → Bool) (tokens : List (Token κ)) (kinds : List κ) : Prop :=
  List.Forall₂ (fun token kind => equals token.text kind = true) tokens kinds

variable {equals : String → κ → Bool} {tokens : List (Token κ)} {pos stop : Nat} {kind : κ}

theorem drop_eq_cons_iff {α : Type u} {xs ys : List α} {x : α} {index : Nat} :
    xs.drop index = x :: ys ↔ xs[index]? = some x ∧ xs.drop (index + 1) = ys := by
  rw [← List.head?_drop, ← List.tail_drop]
  cases xs.drop index with
  | nil => simp
  | cons y ys => simp

/-- **Terminals stand over a stretch** exactly if the texts of its tokens are equal to their
kinds. -/
theorem derives_terminals_iff {kinds : List κ} (le : stop ≤ tokens.length) :
    Derives g (StandsByText equals tokens) (kinds.map .terminal) pos stop
      ↔ pos ≤ stop ∧ Matches equals ((tokens.take stop).drop pos) kinds := by
  induction kinds generalizing pos with
  | nil =>
    rw [Matches, List.forall₂_nil_right_iff, List.drop_eq_nil_iff, List.length_take,
      Nat.min_eq_left le]
    constructor
    · rintro ⟨⟩
      exact ⟨Nat.le_refl _, Nat.le_refl _⟩
    · rintro ⟨low, high⟩
      obtain rfl := Nat.le_antisymm low high
      exact .nil _
  | cons kind kinds ih =>
    rw [List.map_cons, Matches, List.forall₂_cons_right_iff]
    constructor
    · intro h
      cases h with
      | terminal stand tail =>
        obtain ⟨token, atPos, same⟩ := stand
        obtain ⟨low, rest⟩ := ih.1 tail
        refine ⟨by omega, token, _, same, rest, drop_eq_cons_iff.2 ⟨?_, rfl⟩⟩
        rw [List.getElem?_take_of_lt low]
        exact atPos
    · rintro ⟨-, token, _, same, rest, cut⟩
      obtain ⟨atPos, rfl⟩ := drop_eq_cons_iff.1 cut
      obtain ⟨low, atPos⟩ : pos < stop ∧ tokens[pos]? = some token := by
        simpa [List.getElem?_take] using atPos
      exact .terminal ⟨token, atPos, same⟩ (ih.2 ⟨low, rest⟩)

/-- **A kind is viable behind the first tokens**: some sentential form has it behind terminals with
their texts. -/
def Viable (g : Grammar κ) (equals : String → κ → Bool) (tokens : List (Token κ)) (pos : Nat)
    (kind : κ) : Prop :=
  ∃ (kinds : List κ) (rest : List (Symbol κ)),
    RewritesTo g [.nonterminal g.entry] (kinds.map .terminal ++ .terminal kind :: rest)
      ∧ Matches equals (tokens.take pos) kinds

theorem viable_iff_awaits (le : pos ≤ tokens.length) : Viable g equals tokens pos kind
    ↔ Awaits g (StandsByText equals tokens) [.nonterminal g.entry] 0 pos kind := by
  simp only [Viable, awaits_iff_exists_rewriting, derives_terminals_iff le, Nat.zero_le, true_and,
    List.drop_zero]

/-- The entry derives all tokens exactly if it rewrites to terminals with their texts. -/
theorem derives_entry_iff_exists_matches :
    Derives g (StandsByText equals tokens) [.nonterminal g.entry] 0 tokens.length
      ↔ ∃ kinds : List κ, RewritesTo g [.nonterminal g.entry] (kinds.map .terminal)
          ∧ Matches equals tokens kinds := by
  rw [derives_iff_exists_rewriting]
  simp only [derives_terminals_iff (Nat.le_refl tokens.length), Nat.zero_le, true_and,
    List.drop_zero, List.take_length]

/-! ## Charts of compared texts -/

namespace Chart

variable {chart : Chart κ}

/-- **The chart of tokens that the parser compared with the kinds expected of them**: each was read
as the expected kinds that its text is equal to, and there was one. -/
structure ByText (g : Grammar κ) (equals : String → κ → Bool) (chart : Chart κ) : Prop where
  sound : chart.Sound g
  saturated : chart.Saturated g
  reads_iff : ∀ index kind, chart.Reads index kind ↔
    StandsByText equals chart.tokens.toList index kind ∧ chart.HasAwaiting g index kind
  exists_reads : ∀ index < chart.tokens.size, ∃ kind, chart.Reads index kind

theorem ByText.scans (h : chart.ByText g equals) :
    chart.Scans g (StandsByText equals chart.tokens.toList) :=
  fun pos item mem kind awaits stands =>
    h.saturated.scanned pos item mem kind awaits
      ((h.reads_iff pos kind).2 ⟨stands, item, mem, awaits⟩)

/-- **The kinds expected at a position are the viable ones.** -/
theorem ByText.hasAwaiting_iff (h : chart.ByText g equals) (le : pos ≤ chart.tokens.size) :
    chart.HasAwaiting g pos kind ↔ Viable g equals chart.tokens.toList pos kind := by
  rw [viable_iff_awaits (by simpa using le)]
  exact Chart.hasAwaiting_iff h.sound h.saturated h.scans fun index kind reads =>
    ((h.reads_iff index kind).1 reads).1

/-- **The entry derives all tokens as they were read** exactly if it rewrites to terminals with
their texts. -/
theorem ByText.derives_iff (h : chart.ByText g equals) :
    Derives g chart.Reads [.nonterminal g.entry] 0 chart.tokens.size
      ↔ ∃ kinds : List κ, RewritesTo g [.nonterminal g.entry] (kinds.map .terminal)
          ∧ Matches equals chart.tokens.toList kinds := by
  rw [← derives_entry_iff_exists_matches, Array.length_toList]
  exact Chart.derives_entry_iff h.sound h.saturated h.scans fun index kind reads =>
    ((h.reads_iff index kind).1 reads).1

theorem byText_start : (start g).ByText g equals where
  sound := sound_start
  saturated := saturated_start
  reads_iff := by
    intro index kind
    constructor
    · intro reads
      exact absurd reads.lt (Nat.not_lt_zero index)
    · rintro ⟨⟨token, atIndex, -⟩, -⟩
      simp [start] at atIndex
  exists_reads := fun index lt => absurd lt (Nat.not_lt_zero index)

section Step

variable {token : Token κ} {kinds : List κ} {next : ItemSet} {index : Nat}

theorem hasAwaiting_push_of_lt (lt : index < chart.sets.size) :
    (chart.push g token kinds next).HasAwaiting g index kind ↔ chart.HasAwaiting g index kind := by
  rw [HasAwaiting, HasAwaiting, itemsAt_push_of_lt lt]

variable [DecidableEq κ]

theorem mem_expected_frontier_iff (sound : chart.Sound g) :
    kind ∈ chart.frontier.expected g ↔ chart.HasAwaiting g chart.tokens.size kind := by
  rw [ItemSet.mem_expected, toList_frontier sound.size_sets]
  rfl

/-- **A compared token keeps the chart one of compared texts.** -/
theorem ByText.push (h : chart.ByText g equals)
    (selected : kinds = (chart.frontier.expected g).filter (equals token.text))
    (awaited : ∃ kind, kind ∈ kinds) :
    (chart.push g token kinds (chart.frontier.scanned g kinds)).ByText g equals := by
  have sound : (chart.push g token kinds (chart.frontier.scanned g kinds)).Sound g := h.sound.push
  have sizes := h.sound.size_sets
  have sizes' := h.sound.size_accepted
  have old : ∀ {index kind}, index < chart.tokens.size →
      ((chart.push g token kinds (chart.frontier.scanned g kinds)).Reads index kind
        ↔ chart.Reads index kind) :=
    fun lt => reads_push_of_lt (sizes' ▸ lt)
  have new : ∀ {kind},
      (chart.push g token kinds (chart.frontier.scanned g kinds)).Reads chart.tokens.size kind
        ↔ kind ∈ kinds := by
    intro kind
    rw [← sizes']
    exact reads_push_size
  have last : ∀ {index}, index < (chart.tokens.push token).size →
      index < chart.tokens.size ∨ index = chart.tokens.size := by
    intro index lt
    rw [Array.size_push] at lt
    omega
  constructor
  case sound => exact sound
  case saturated => exact h.saturated.push h.sound
  case reads_iff =>
    intro index kind
    have inside : index < (chart.tokens.push token).size →
        ((chart.push g token kinds (chart.frontier.scanned g kinds)).Reads index kind ↔
          StandsByText equals (chart.tokens.push token).toList index kind
            ∧ (chart.push g token kinds (chart.frontier.scanned g kinds)).HasAwaiting g index
              kind) := by
      intro lt
      rcases last lt with lt | rfl
      · rw [old lt, standsByText_push_of_lt lt, hasAwaiting_push_of_lt (by omega), h.reads_iff]
      · rw [new, standsByText_push_size, hasAwaiting_push_of_lt (by omega), selected,
          List.mem_filter, mem_expected_frontier_iff h.sound, and_comm]
    refine ⟨fun reads => (inside (sound.lt_of_reads reads)).1 reads, fun both => ?_⟩
    exact (inside (Array.length_toList ▸ both.1.lt)).2 both
  case exists_reads =>
    intro index lt
    rcases last lt with lt | rfl
    · obtain ⟨kind, reads⟩ := h.exists_reads index lt
      exact ⟨kind, (old lt).2 reads⟩
    · obtain ⟨kind, mem⟩ := awaited
      exact ⟨kind, new.2 mem⟩

end Step

end Chart

end Earley
