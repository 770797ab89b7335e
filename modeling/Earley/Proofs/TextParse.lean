import Earley.Proofs.Lexer
import Earley.Proofs.Prefix
import Earley.TextParse

/-!
# Proofs/TextParse — every token of a text is read as one kind

A run asks its tokenizer again and again (`Asks`).  Over a text the answers are tokens of one kind
that is expected, so that every step of the parser reads them: what stops a parse of a text is a
refusal of the lexer.  At each point of the run the lexer is behind the tokens of the chart and each
of these was read as its own kind (`Grammar.Reading`), which carries over to the branches of the
forest.
-/

namespace Earley

universe u v

/-! ## The questions of a run -/

section Asks

variable {κ : Type u} {σ : Type v} [DecidableEq κ] {g : Grammar κ} {tokenizer : Tokenizer κ σ}
  {equals : String → κ → Bool} {state current : σ} {chart : Chart κ}

/-- **A run asks its tokenizer**, in a state, for the kinds that a chart expects: at its beginning,
and after every token that was given and read. -/
inductive Asks (g : Grammar κ) (tokenizer : Tokenizer κ σ) (equals : String → κ → Bool)
    (state : σ) : Chart κ → σ → Prop
  | start : Asks g tokenizer equals state (.start g) state
  | step {chart longer : Chart κ} {current next : σ} {scan : Scan κ}
      (asks : Asks g tokenizer equals state chart current)
      (answer : tokenizer.scan current (chart.frontier.expected g) = (.ok (some scan), next))
      (read : chart.step g equals scan = .ok longer) : Asks g tokenizer equals state longer next

/-- From every question on the run goes on as from its beginning. -/
theorem Asks.recognize_eq (h : Asks g tokenizer equals state chart current) :
    recognize g tokenizer equals state = recognizeFrom g tokenizer equals chart current := by
  induction h with
  | start => rfl
  | step _ answer read ih => exact ih.trans (recognizeFrom_of_step answer read)

/-- A token with a text is read as a single kind that is expected. -/
theorem Chart.step_of_selected {scan : Scan κ} {kind : κ}
    (text : scan.token.text.isEmpty = false)
    (selected : scan.selected equals (chart.frontier.expected g) = [kind])
    (mem : kind ∈ chart.frontier.expected g) : chart.step g equals scan
      = .ok (chart.push g scan.token [kind] (chart.frontier.scanned g [kind])) := by
  have chosen : [kind] ⊆ chart.frontier.expected g :=
    List.cons_subset.2 ⟨mem, List.nil_subset _⟩
  have idle : ¬ (chart.frontier.scanned g [kind]).items.isEmpty = true := fun idle =>
    List.cons_ne_nil _ _ ((ItemSet.isEmpty_scanned_iff chosen).1 idle)
  simp only [Chart.step, selected, text, if_neg idle, Bool.false_eq_true, if_false]

/-- **A run ends with the answer to a question**: the end of the input, an error of the tokenizer,
or a token that is not read. -/
theorem Asks.exists_last (h : Asks g tokenizer equals state chart current) :
    ∃ last final answer next, Asks g tokenizer equals state last final
      ∧ tokenizer.scan final (last.frontier.expected g) = (answer, next)
      ∧ (answer = .ok none ∧ recognizeFrom g tokenizer equals chart current = ⟨last, none, next⟩
        ∨ (∃ error, answer = .error error
            ∧ recognizeFrom g tokenizer equals chart current = ⟨last, some error, next⟩)
        ∨ ∃ scan error, answer = .ok (some scan) ∧ last.step g equals scan = .error error) := by
  fun_induction recognizeFrom g tokenizer equals chart current with
  | case1 chart current error next scan =>
    exact ⟨chart, current, _, next, h, scan, .inr (.inl ⟨error, rfl, rfl⟩)⟩
  | case2 chart current next scan => exact ⟨chart, current, _, next, h, scan, .inl ⟨rfl, rfl⟩⟩
  | case3 chart current answer next scan error step =>
    exact ⟨chart, current, _, next, h, scan, .inr (.inr ⟨answer, error, rfl, step⟩)⟩
  | case4 chart current answer next scan longer step _ ih => exact ih (h.step scan step)

end Asks

/-! ## Runs over a text -/

section KindAt

variable {κ : Type u} {tokens : Array (Token κ)} {index : Nat} {kind kind' : κ}

/-- **A token stands for its own kind** and for no other. -/
def KindAt (tokens : Array (Token κ)) (index : Nat) (kind : κ) : Prop :=
  ∃ token, tokens[index]? = some token ∧ token.kind = kind

theorem KindAt.eq (h : KindAt tokens index kind) (h' : KindAt tokens index kind') :
    kind = kind' := by
  obtain ⟨token, place, rfl⟩ := h
  obtain ⟨token', place', rfl⟩ := h'
  rw [Option.some.inj (place.symm.trans place')]

theorem KindAt.lt (h : KindAt tokens index kind) : index < tokens.size := by
  obtain ⟨token, place, -⟩ := h
  exact (Array.getElem?_eq_some_iff.1 place).1

/-- **What a completion goes on with** is awaited behind what was read so far. -/
theorem awaits_of_completion {g : Grammar κ} {symbols : List (Symbol κ)} {token : Token κ}
    {more : Array (Token κ)} {stop : Nat}
    (derives : Derives g (KindAt (tokens.push token ++ more)) symbols 0 stop)
    (lt : tokens.size < stop) :
    Awaits g (KindAt tokens) symbols 0 tokens.size token.kind := by
  have last : tokens.size < (tokens.push token).size := by
    rw [Array.size_push]
    exact Nat.lt_succ_self _
  obtain ⟨kind, ⟨token', place, rfl⟩, awaits⟩ :=
    Awaits.exists_of_derives derives (Nat.zero_le tokens.size) lt
  rw [Array.getElem?_append_left last, Array.getElem?_push_size] at place
  obtain rfl := Option.some.inj place
  refine awaits.imp fun index _ _ before ⟨token, place, own⟩ => ⟨token, ?_, own⟩
  rwa [Array.getElem?_append_left (before.trans last), Array.getElem?_push_lt before,
    ← Array.getElem?_eq_getElem before] at place

end KindAt

namespace Grammar

variable {E : Engine} {g : Grammar (Pattern E)} {text : String} {chart : Chart (Pattern E)}
  {lexer : Lexer} {pattern : Pattern E} {length : Nat} {equals : String → Pattern E → Bool}

/-- **A text is being read**: the lexer is behind the tokens of the chart, and each of them was read
as its own kind. -/
structure Reading (g : Grammar (Pattern E)) (text : String) (chart : Chart (Pattern E))
    (lexer : Lexer) : Prop where
  sound : chart.Sound g
  saturated : chart.Saturated g
  behind : Lexer.Behind text.toList lexer chart.tokens.toList
  accepted_eq : chart.accepted = chart.tokens.map fun token => [token.kind]

theorem reading_start : g.Reading text (.start g) (.ofString text) where
  sound := Chart.sound_start
  saturated := Chart.saturated_start
  behind := .start
  accepted_eq := by simp [Chart.start]

/-- **A token that the lexer takes is read**, as its own kind. -/
theorem Reading.step (equals : String → Pattern E → Bool) (h : g.Reading text chart lexer)
    (further : lexer.skipBlanks.rest ≠ [])
    (takes : lexer.skipBlanks.Takes (chart.frontier.expected g) pattern length) :
    ∃ longer, chart.step g equals ⟨lexer.skipBlanks.tokenOf pattern length, some
          (Lexer.placesOf (lexer.skipBlanks.tokenOf pattern length) (chart.frontier.expected g))⟩
        = .ok longer
      ∧ longer.tokens = chart.tokens.push (lexer.skipBlanks.tokenOf pattern length)
      ∧ g.Reading text longer (lexer.skipBlanks.drop length) := by
  have behind := h.behind.push takes further
  have selected : Scan.selected equals ⟨lexer.skipBlanks.tokenOf pattern length, some
      (Lexer.placesOf (lexer.skipBlanks.tokenOf pattern length) (chart.frontier.expected g))⟩
        (chart.frontier.expected g) = [pattern] :=
    Lexer.selected_placesOf ItemSet.nodup_expected takes.mem
  have present := Lexer.isEmpty_text_tokenOf pattern takes.pos further
  refine ⟨_, Chart.step_of_selected present selected takes.mem, rfl, h.sound.push,
    h.saturated.push h.sound, ?_, ?_⟩
  · rw [Chart.push, Array.toList_push]
    exact behind
  · rw [Chart.push, Array.map_push, h.accepted_eq]
    rfl

/-- **A token that is given** is one that the lexer takes behind the blanks, and it is read. -/
theorem Reading.exists_push (equals : String → Pattern E → Bool)
    (h : g.Reading text chart lexer) {scan : Scan (Pattern E)} {next : Lexer}
    (answer : lexer.scan (chart.frontier.expected g) = (.ok (some scan), next)) :
    ∃ pattern length longer, lexer.skipBlanks.rest ≠ []
      ∧ lexer.skipBlanks.Takes (chart.frontier.expected g) pattern length
      ∧ next = lexer.skipBlanks.drop length ∧ chart.step g equals scan = .ok longer
      ∧ longer.tokens = chart.tokens.push (lexer.skipBlanks.tokenOf pattern length)
      ∧ g.Reading text longer next := by
  rcases lexer.scan_cases (chart.frontier.expected g) with
    ⟨-, same⟩ | ⟨further, ⟨error, -, same⟩ | ⟨pattern, length, takes, same⟩⟩
  · exact nomatch (Prod.mk.inj (same.symm.trans answer)).1
  · exact nomatch (Prod.mk.inj (same.symm.trans answer)).1
  · obtain ⟨given, rfl⟩ := Prod.mk.inj (same.symm.trans answer)
    obtain rfl := Option.some.inj (Except.ok.inj given)
    obtain ⟨longer, read, tokens, reading⟩ := h.step equals further takes
    exact ⟨pattern, length, longer, further, takes, rfl, read, tokens, reading⟩

/-- **A run over a text reads every token that it is given.** -/
theorem Reading.exists_longer (equals : String → Pattern E → Bool)
    (h : g.Reading text chart lexer) {scan : Scan (Pattern E)} {next : Lexer}
    (answer : lexer.scan (chart.frontier.expected g) = (.ok (some scan), next)) :
    ∃ longer, chart.step g equals scan = .ok longer ∧ g.Reading text longer next := by
  obtain ⟨_, _, longer, -, -, -, read, -, reading⟩ := h.exists_push equals answer
  exact ⟨longer, read, reading⟩

theorem reading_of_asks
    (h : Asks g Lexer.tokenizer equals (.ofString text) chart lexer) :
    g.Reading text chart lexer := by
  induction h with
  | start => exact reading_start
  | step _ answer read ih =>
    obtain ⟨longer, read', reading⟩ := ih.exists_longer equals answer
    obtain rfl := Except.ok.inj (read.symm.trans read')
    exact reading

/-- **A token was read as its own kind**, and as no other. -/
theorem Reading.reads_iff (h : g.Reading text chart lexer) {index : Nat} :
    chart.Reads index pattern
      ↔ ∃ token, chart.tokens[index]? = some token ∧ token.kind = pattern := by
  rw [Chart.Reads, Array.getD_eq_getD_getElem?, h.accepted_eq, Array.getElem?_map]
  cases chart.tokens[index]? with
  | none => simp
  | some token => simp [eq_comm]

theorem Reading.reads_eq_kindAt (h : g.Reading text chart lexer) :
    chart.Reads = KindAt chart.tokens :=
  funext₂ fun _ _ => propext h.reads_iff

/-- The expected kinds are those that the entry awaits behind what was read. -/
theorem Reading.mem_expected_iff (h : g.Reading text chart lexer) :
    pattern ∈ chart.frontier.expected g
      ↔ Awaits g chart.Reads [.nonterminal g.entry] 0 chart.tokens.size pattern := by
  rw [Chart.mem_expected_frontier_iff h.sound]
  exact Chart.hasAwaiting_iff h.sound h.saturated h.saturated.scanned fun _ _ reads => reads

/-- The lexer is asked for terminals of productions only. -/
theorem Reading.mem_of_mem_expected {kinds : List (Pattern E)}
    (terminals : ∀ id kind, .terminal kind ∈ g.symbols id → kind ∈ kinds)
    (h : g.Reading text chart lexer) (mem : pattern ∈ chart.frontier.expected g) :
    pattern ∈ kinds :=
  (h.mem_expected_iff.1 mem).induction_on
    (P := fun symbol => ∀ kind, symbol = .terminal kind → kind ∈ kinds)
    (fun _ _ id _ _ memSymbol kind same => terminals id kind (same ▸ memSymbol))
    (fun _ memSymbol _ same => nomatch same.symm.trans (List.mem_singleton.1 memSymbol)) pattern rfl

/-- **A run over a text ends** where the lexer finds nothing more, or with a refusal of it. -/
theorem run_cases (g : Grammar (Pattern E)) (text : String) :
    ∃ chart lexer, Asks g Lexer.tokenizer Pattern.accepts (.ofString text) chart lexer
      ∧ ((lexer.skipBlanks.rest = [] ∧ g.run text = ⟨chart, none, lexer.skipBlanks⟩)
        ∨ lexer.skipBlanks.rest ≠ []
          ∧ ∃ error, lexer.skipBlanks.Refuses (chart.frontier.expected g) error
            ∧ lexer.scan (chart.frontier.expected g) = (.error error, lexer.skipBlanks)
            ∧ g.run text = ⟨chart, some error, lexer.skipBlanks⟩) := by
  have first : Asks g Lexer.tokenizer Pattern.accepts (.ofString text) (.start g)
      (.ofString text) := .start
  obtain ⟨chart, lexer, answer, next, asks, scan, last⟩ := first.exists_last
  refine ⟨chart, lexer, asks, ?_⟩
  change lexer.scan _ = _ at scan
  rcases last with ⟨rfl, run⟩ | ⟨error, rfl, run⟩ | ⟨token, error, rfl, fails⟩
  · rcases lexer.scan_cases (chart.frontier.expected g) with
      ⟨ends, same⟩ | ⟨-, ⟨_, -, same⟩ | ⟨_, _, -, same⟩⟩
    · obtain ⟨-, rfl⟩ := Prod.mk.inj (same.symm.trans scan)
      exact .inl ⟨ends, run⟩
    · exact nomatch (Prod.mk.inj (same.symm.trans scan)).1
    · exact nomatch (Prod.mk.inj (same.symm.trans scan)).1
  · rcases lexer.scan_cases (chart.frontier.expected g) with
      ⟨-, same⟩ | ⟨further, ⟨error', refuses, same⟩ | ⟨_, _, -, same⟩⟩
    · exact nomatch (Prod.mk.inj (same.symm.trans scan)).1
    · obtain ⟨given, rfl⟩ := Prod.mk.inj (same.symm.trans scan)
      obtain rfl := Except.error.inj given
      exact .inr ⟨further, error', refuses, same, run⟩
    · exact nomatch (Prod.mk.inj (same.symm.trans scan)).1
  · obtain ⟨longer, read, -⟩ := (reading_of_asks asks).exists_longer Pattern.accepts scan
    exact nomatch fails.symm.trans read

/-- **A parse of a text** is the forest of all that was read, or a refusal of the lexer. -/
theorem parse_cases (g : Grammar (Pattern E)) (text : String) :
    ∃ chart lexer, Asks g Lexer.tokenizer Pattern.accepts (.ofString text) chart lexer
      ∧ ((lexer.skipBlanks.rest = [] ∧ g.parse text = .ok (.ofChart g chart)
          ∧ (Forest.ofChart g chart).Packs (KindAt chart.tokens))
        ∨ lexer.skipBlanks.rest ≠ []
          ∧ ∃ error, lexer.skipBlanks.Refuses (chart.frontier.expected g) error
            ∧ g.parse text = .error error) := by
  obtain ⟨chart, lexer, asks, ⟨ends, run⟩ | ⟨further, error, refuses, -, run⟩⟩ := g.run_cases text
  · have reading := reading_of_asks asks
    have packs := Forest.packs_ofChart reading.sound reading.saturated
    rw [reading.reads_eq_kindAt] at packs
    refine ⟨chart, lexer, asks, .inl ⟨ends, ?_, packs⟩⟩
    rw [Grammar.parse, run]
    rfl
  · refine ⟨chart, lexer, asks, .inr ⟨further, error, refuses, ?_⟩⟩
    rw [Grammar.parse, run]
    rfl

end Grammar

/-- **One kind per token.**  A parse of a text that comes to a forest has read all of the text but
blanks, each token was read as its own kind only, and in every branch of the forest a token stands
for a terminal of its kind.  A parse that comes to an error has the error of the lexer, which
refused what stands behind the blanks: no pattern that the entry awaits there matches, or none but
with the empty text.  At no question of the run is a token given that the parser does not read. -/
theorem one_kind_of_parse_text {E : Engine} (g : Grammar (Pattern E)) (text : String) :
    (∀ f : Forest (Pattern E), g.parse text = .ok f →
        (∃ lexer : Lexer, lexer.Behind text.toList f.tokens.toList
            ∧ ∀ c ∈ lexer.rest, Unicode.isBlank c = true)
          ∧ (∀ (index : Nat) (token : Token (Pattern E)), f.tokens[index]? = some token →
              (g.run text).chart.accepted[index]? = some [token.kind])
          ∧ ∀ (id : NodeId) (node : Node), f.nodes[id]? = some node → ∀ branch ∈ node.branches,
              ∀ place index : Nat, branch[place]? = some (.token index) →
                ∃ token, f.tokens[index]? = some token
                  ∧ (g.symbols node.production)[place]? = some (.terminal token.kind))
      ∧ (∀ error, g.parse text = .error error → ∃ chart lexer here before,
          Asks g Lexer.tokenizer Pattern.accepts (.ofString text) chart lexer
            ∧ lexer.scan (chart.frontier.expected g) = (.error error, here)
            ∧ lexer.Behind text.toList chart.tokens.toList ∧ lexer.Skips here ∧ here.rest ≠ []
            ∧ text.toList = before ++ here.rest ∧ here.offset = byteLength before
            ∧ here.Refuses (chart.frontier.expected g) error
            ∧ ∀ pattern, pattern ∈ chart.frontier.expected g
                ↔ Awaits g chart.Reads [.nonterminal g.entry] 0 chart.tokens.size pattern)
      ∧ ∀ chart lexer scan next,
          Asks g Lexer.tokenizer Pattern.accepts (.ofString text) chart lexer →
            lexer.scan (chart.frontier.expected g) = (.ok (some scan), next) →
              ∃ longer, chart.step g Pattern.accepts scan = .ok longer := by
  refine ⟨fun f ok => ?_, fun error fails => ?_, fun chart lexer scan next asks answer => ?_⟩
  · obtain ⟨done, rfl⟩ := parse_eq_ok_iff.1 ok
    have packs := Forest.packs_parse ok
    obtain ⟨chart, lexer, asks, ⟨ends, run⟩ | ⟨-, error, -, -, run⟩⟩ := g.run_cases text
    · have same : recognize g Lexer.tokenizer Pattern.accepts (.ofString text) = _ := run
      rw [same] at packs ⊢
      have reading := Grammar.reading_of_asks asks
      refine ⟨⟨lexer, reading.behind, fun c mem => ?_⟩, fun index token atIndex => ?_, ?_⟩
      · rw [Lexer.rest_skipBlanks, List.dropWhile_eq_nil_iff] at ends
        exact ends c mem
      · rw [run, reading.accepted_eq, Array.getElem?_map]
        exact congrArg _ atIndex
      · intro id node atId branch mem place index atPlace
        obtain ⟨kind, symbol, reads⟩ := (packs.node id node atId).exists_kind mem atPlace
        obtain ⟨token, atIndex, rfl⟩ := reading.reads_iff.1 reads
        exact ⟨token, atIndex, symbol⟩
    · exact nomatch done.symm.trans (congrArg Run.error? run)
  · obtain ⟨chart, lexer, asks, ⟨-, run⟩ | ⟨further, error', refuses, answer, run⟩⟩ :=
      g.run_cases text
    · rw [Grammar.parse, run] at fails
      exact nomatch fails
    · rw [Grammar.parse, run] at fails
      obtain rfl := Except.error.inj fails
      have reading := Grammar.reading_of_asks asks
      obtain ⟨before, split, offset⟩ :=
        lexer.skips_skipBlanks.exists_before reading.behind.exists_before
      exact ⟨chart, lexer, lexer.skipBlanks, before, asks, answer, reading.behind,
        lexer.skips_skipBlanks, further, split, offset, refuses, fun _ => reading.mem_expected_iff⟩
  · obtain ⟨longer, read, -⟩ := (Grammar.reading_of_asks asks).exists_longer Pattern.accepts answer
    exact ⟨longer, read⟩

end Earley
