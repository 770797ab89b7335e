import Earley.Proofs.Chart.Expected
import Earley.Proofs.Forest.Packing

/-!
# Proofs/Prefix — no token is read that could not stand where it does

Over a tokenizer that gives the same tokens whatever is expected, a parse reads the tokens as long
as each has the text of a viable kind.  It stops in front of the first one that has not, with the
viable kinds as the expected ones, and asks for no token behind it.
-/

namespace Earley

universe u v

variable {κ : Type u} {σ : Type v}

/-! ## Tokenizers that give fixed tokens -/

/-- **The tokenizer gives these tokens and then the end**, whatever is expected, and leaves it to
the parser to compare their texts with the kinds. -/
def Tokenizer.Gives (tokenizer : Tokenizer κ σ) : List (Token κ) → σ → Prop
  | [], state => ∀ expected, (tokenizer.scan state expected).1 = .ok none
  | token :: tokens, state => ∀ expected,
      (tokenizer.scan state expected).1 = .ok (some ⟨token, none⟩)
        ∧ tokenizer.Gives tokens (tokenizer.scan state expected).2

theorem Tokenizer.gives_ofList (tokens : List (Token κ)) :
    (Tokenizer.ofList κ).Gives tokens tokens := by
  induction tokens with
  | nil => exact fun _ => rfl
  | cons token tokens ih => exact fun _ => ⟨rfl, ih⟩

/-- **The tokenizer with a count of the calls** made to it. -/
def Tokenizer.counted (tokenizer : Tokenizer κ σ) : Tokenizer κ (σ × Nat) where
  scan state expected :=
    let (answer, next) := tokenizer.scan state.1 expected
    (answer, next, state.2 + 1)
  remaining state := tokenizer.remaining state.1
  remaining_lt := by
    intro state expected answer next h
    obtain ⟨given, rfl⟩ := Prod.mk.inj h
    exact tokenizer.remaining_lt (Prod.ext given rfl)

section Runs

variable [DecidableEq κ] {g : Grammar κ} {tokenizer : Tokenizer κ σ} {equals : String → κ → Bool}
  {chart longer : Chart κ} {state next : σ} {count : Nat}

/-- **The number of calls** that a recognition makes to its tokenizer. -/
def calls (g : Grammar κ) (tokenizer : Tokenizer κ σ) (equals : String → κ → Bool) (state : σ) :
    Nat :=
  (recognize g tokenizer.counted equals (state, 0)).state.2

omit [DecidableEq κ] in
theorem scan_counted {expected : List κ} {answer : Except (ParseError κ) (Option (Scan κ))}
    (scan : tokenizer.scan state expected = (answer, next)) :
    tokenizer.counted.scan (state, count) expected = (answer, next, count + 1) := by
  simp only [Tokenizer.counted, scan]

/-! ## One call -/

/-- What a call leads to. -/
theorem recognizeFrom_eq : recognizeFrom g tokenizer equals chart state =
    match tokenizer.scan state (chart.frontier.expected g) with
    | (.error error, next) => ⟨chart, some error, next⟩
    | (.ok none, next) => ⟨chart, none, next⟩
    | (.ok (some answer), next) =>
      match chart.step g equals answer with
      | .error error => ⟨chart, some error, next⟩
      | .ok longer => recognizeFrom g tokenizer equals longer next := by
  rw [recognizeFrom]
  split
  · rename_i scan
    rw [scan]
  · rename_i scan
    rw [scan]
  · rename_i answer next scan
    cases step : chart.step g equals answer <;> simp only [scan, step]

theorem recognizeFrom_of_failure {error : ParseError κ}
    (scan : tokenizer.scan state (chart.frontier.expected g) = (.error error, next)) :
    recognizeFrom g tokenizer equals chart state = ⟨chart, some error, next⟩ := by
  rw [recognizeFrom_eq, scan]

theorem recognizeFrom_of_end
    (scan : tokenizer.scan state (chart.frontier.expected g) = (.ok none, next)) :
    recognizeFrom g tokenizer equals chart state = ⟨chart, none, next⟩ := by
  rw [recognizeFrom_eq, scan]

theorem recognizeFrom_of_error {answer : Scan κ} {error : ParseError κ}
    (scan : tokenizer.scan state (chart.frontier.expected g) = (.ok (some answer), next))
    (step : chart.step g equals answer = .error error) :
    recognizeFrom g tokenizer equals chart state = ⟨chart, some error, next⟩ := by
  rw [recognizeFrom_eq, scan]
  simp only [step]

theorem recognizeFrom_of_step {answer : Scan κ}
    (scan : tokenizer.scan state (chart.frontier.expected g) = (.ok (some answer), next))
    (step : chart.step g equals answer = .ok longer) :
    recognizeFrom g tokenizer equals chart state
      = recognizeFrom g tokenizer equals longer next := by
  rw [recognizeFrom_eq, scan]
  simp only [step]

/-- **Counting the calls changes nothing else.** -/
theorem recognizeFrom_counted :
    (recognizeFrom g tokenizer.counted equals chart (state, count)).chart
        = (recognizeFrom g tokenizer equals chart state).chart
      ∧ (recognizeFrom g tokenizer.counted equals chart (state, count)).error?
        = (recognizeFrom g tokenizer equals chart state).error? := by
  fun_induction recognizeFrom g tokenizer equals chart state generalizing count with
  | case1 chart state error next scan =>
    rw [recognizeFrom_eq, scan_counted scan]
    exact ⟨rfl, rfl⟩
  | case2 chart state next scan =>
    rw [recognizeFrom_of_end (scan_counted scan)]
    exact ⟨rfl, rfl⟩
  | case3 chart state answer next scan error step =>
    rw [recognizeFrom_of_error (scan_counted scan) step]
    exact ⟨rfl, rfl⟩
  | case4 chart state answer next scan longer step _ ih =>
    rw [recognizeFrom_of_step (scan_counted scan) step]
    exact ih

theorem parse_counted :
    parse g tokenizer.counted equals (state, count) = parse g tokenizer equals state := by
  have same : _ ∧ _ := @recognizeFrom_counted κ σ _ g tokenizer equals (.start g) state count
  rw [parse, parse, Run.forest, Run.forest, recognize, recognize, same.1, same.2]

/-! ## One token -/

/-- **A token with the text of an expected kind is read**, and no other one. -/
theorem Chart.ByText.step (h : chart.ByText g equals) {token : Token κ} (text : token.text ≠ "") :
    (∃ longer, chart.step g equals ⟨token, none⟩ = .ok longer ∧ longer.ByText g equals
        ∧ longer.tokens = chart.tokens.push token)
      ∨ chart.step g equals ⟨token, none⟩
            = .error (.unexpected token.start (chart.frontier.expected g))
        ∧ ∀ kind ∈ chart.frontier.expected g, equals token.text kind = false := by
  have present : token.text.isEmpty = false := by simpa using text
  have chosen :
      (chart.frontier.expected g).filter (equals token.text) ⊆ chart.frontier.expected g :=
    List.filter_subset_self _
  have selected : Scan.selected equals ⟨token, none⟩ (chart.frontier.expected g)
      = (chart.frontier.expected g).filter (equals token.text) := rfl
  simp only [Chart.step, present, selected]
  by_cases none : (chart.frontier.expected g).filter (equals token.text) = []
  · refine .inr ⟨?_, fun kind mem => ?_⟩
    · rw [if_neg (by decide), if_pos ((ItemSet.isEmpty_scanned_iff chosen).2 none)]
    · simpa using List.filter_eq_nil_iff.1 none kind mem
  · refine .inl ⟨_, ?_, h.push rfl (List.exists_mem_of_ne_nil _ none), rfl⟩
    rw [if_neg (by decide), if_neg fun idle => none ((ItemSet.isEmpty_scanned_iff chosen).1 idle)]

/-! ## Runs -/

/-- **A token fits**: its text is equal to a kind that is viable behind the tokens before it. -/
def Fits (g : Grammar κ) (equals : String → κ → Bool) (tokens : List (Token κ)) (index : Nat) :
    Prop :=
  ∃ kind, Viable g equals tokens index kind ∧ StandsByText equals tokens index kind

/-- A run that read all tokens. -/
structure Run.Finished (g : Grammar κ) (equals : String → κ → Bool) (tokens : List (Token κ))
    (run : Run κ (σ × Nat)) : Prop where
  byText : run.chart.ByText g equals
  tokens_eq : run.chart.tokens.toList = tokens
  error?_eq : run.error? = none
  calls_eq : run.state.2 = tokens.length + 1

/-- A run that stopped in front of a token. -/
structure Run.Stopped (g : Grammar κ) (equals : String → κ → Bool) (tokens : List (Token κ))
    (token : Token κ) (after : List (Token κ)) (run : Run κ (σ × Nat)) : Prop where
  byText : run.chart.ByText g equals
  tokens_eq : run.chart.tokens.toList ++ token :: after = tokens
  error?_eq : run.error? = some (.unexpected token.start (run.chart.frontier.expected g))
  unmatched : ∀ kind ∈ run.chart.frontier.expected g, equals token.text kind = false
  calls_eq : run.state.2 = run.chart.tokens.size + 1

/-- **A run reads all tokens or stops in front of one.**  The induction is on the tokens to come. -/
theorem finished_or_stopped {tokens : List (Token κ)} (gives : tokenizer.Gives tokens state)
    (texts : ∀ token ∈ tokens, token.text ≠ "") (h : chart.ByText g equals)
    (counts : count = chart.tokens.size) :
    (recognizeFrom g tokenizer.counted equals chart (state, count)).Finished g equals
        (chart.tokens.toList ++ tokens)
      ∨ ∃ token after, (recognizeFrom g tokenizer.counted equals chart (state, count)).Stopped g
          equals (chart.tokens.toList ++ tokens) token after := by
  induction tokens generalizing chart state count with
  | nil =>
    have scan : tokenizer.scan state (chart.frontier.expected g) = (.ok none, _) :=
      Prod.ext (gives _) rfl
    rw [recognizeFrom_of_end (scan_counted scan)]
    refine .inl ⟨h, (List.append_nil _).symm, rfl, ?_⟩
    simp [counts]
  | cons token tokens ih =>
    obtain ⟨answer, rest⟩ := gives (chart.frontier.expected g)
    have scan : tokenizer.scan state (chart.frontier.expected g) = (.ok (some ⟨token, none⟩), _) :=
      Prod.ext answer rfl
    have text := texts token List.mem_cons_self
    rcases h.step text with ⟨longer, step, byText, read⟩ | ⟨step, unmatched⟩
    · rw [recognizeFrom_of_step (scan_counted scan) step]
      have split : longer.tokens.toList ++ tokens = chart.tokens.toList ++ token :: tokens := by
        rw [read, Array.toList_push, List.append_assoc]
        rfl
      have counts' : count + 1 = longer.tokens.size := by rw [read, Array.size_push, counts]
      rw [← split]
      exact ih rest (fun other mem => texts other (List.mem_cons_of_mem token mem)) byText counts'
    · rw [recognizeFrom_of_error (scan_counted scan) step]
      exact .inr ⟨token, tokens, h, rfl, rfl, unmatched, congrArg (· + 1) counts⟩

theorem recognize_finished_or_stopped {tokens : List (Token κ)}
    (gives : tokenizer.Gives tokens state) (texts : ∀ token ∈ tokens, token.text ≠ "") :
    (recognize g tokenizer.counted equals (state, 0)).Finished g equals tokens
      ∨ ∃ token after,
          (recognize g tokenizer.counted equals (state, 0)).Stopped g equals tokens token after :=
  finished_or_stopped gives texts Chart.byText_start rfl

section Outcome

variable {tokens after : List (Token κ)} {index : Nat} {kind : κ}

omit [DecidableEq κ] in
/-- What is viable depends on the tokens before. -/
theorem viable_append_iff (le : index ≤ tokens.length) :
    Viable g equals (tokens ++ after) index kind ↔ Viable g equals tokens index kind := by
  rw [Viable, Viable, List.take_append_of_le_length le]

omit [DecidableEq κ] in
/-- **Every token that was read fits.** -/
theorem Chart.ByText.fits (h : chart.ByText g equals) (lt : index < chart.tokens.size) :
    Fits g equals (chart.tokens.toList ++ after) index := by
  obtain ⟨kind, reads⟩ := h.exists_reads index lt
  obtain ⟨⟨token, atIndex, same⟩, waits⟩ := (h.reads_iff index kind).1 reads
  refine ⟨kind, ?_, token, ?_, same⟩
  · rw [viable_append_iff (by simpa using lt.le)]
    exact (h.hasAwaiting_iff lt.le).1 waits
  · rw [List.getElem?_append_left (by simpa using lt)]
    exact atIndex

/-- **The expected kinds are the viable ones.** -/
theorem Chart.ByText.mem_expected_iff (h : chart.ByText g equals) :
    kind ∈ chart.frontier.expected g
      ↔ Viable g equals (chart.tokens.toList ++ after) chart.tokens.size kind := by
  rw [Chart.mem_expected_frontier_iff h.sound, h.hasAwaiting_iff (Nat.le_refl _),
    viable_append_iff (by simp)]

omit [DecidableEq κ] in
theorem Run.Finished.fits {run : Run κ (σ × Nat)} (h : run.Finished g equals tokens)
    (lt : index < tokens.length) : Fits g equals tokens index := by
  rw [← h.tokens_eq] at lt ⊢
  rw [← List.append_nil run.chart.tokens.toList]
  exact h.byText.fits (by simpa using lt)

theorem Run.Stopped.fits {token : Token κ} {run : Run κ (σ × Nat)}
    (h : run.Stopped g equals tokens token after) (lt : index < run.chart.tokens.size) :
    Fits g equals tokens index := by
  rw [← h.tokens_eq]
  exact h.byText.fits lt

/-- The token that stopped a run does not fit. -/
theorem Run.Stopped.not_fits {token : Token κ} {run : Run κ (σ × Nat)}
    (h : run.Stopped g equals tokens token after) :
    ¬ Fits g equals tokens run.chart.tokens.size := by
  rintro ⟨kind, viable, other, atIndex, same⟩
  rw [← h.tokens_eq] at viable atIndex
  obtain rfl : token = other := by simpa using atIndex
  rw [h.unmatched kind (h.byText.mem_expected_iff.2 viable)] at same
  exact absurd same (by decide)

/-- It is the first one that does not. -/
theorem Run.Stopped.size_eq {token : Token κ} {run : Run κ (σ × Nat)}
    (h : run.Stopped g equals tokens token after) (unfit : ¬ Fits g equals tokens index)
    (fit : ∀ before < index, Fits g equals tokens before) : run.chart.tokens.size = index := by
  rcases Nat.lt_trichotomy run.chart.tokens.size index with lt | same | lt
  · exact absurd (fit _ lt) h.not_fits
  · exact same
  · exact absurd (h.fits lt) unfit

theorem Run.Stopped.forest_eq {token : Token κ} {run : Run κ (σ × Nat)}
    (h : run.Stopped g equals tokens token after) :
    run.forest g = .error (.unexpected token.start (run.chart.frontier.expected g)) := by
  rw [Run.forest, h.error?_eq]

theorem Run.Stopped.size_lt {token : Token κ} {run : Run κ (σ × Nat)}
    (h : run.Stopped g equals tokens token after) : run.chart.tokens.size < tokens.length := by
  rw [← h.tokens_eq]
  simp

end Outcome

end Runs

/-- **The correct-prefix property.**  Over a tokenizer that gives fixed tokens with texts, a parse
fails in front of the first token that does not fit: the error has the position of that token and
lists the viable kinds, each once, and no token behind it was asked for.  Where all tokens fit, the
parse reads them and asks once more, and it has a root exactly if the entry rewrites to terminals
with the texts of all tokens. -/
theorem correct_prefix_of_parse [DecidableEq κ] {σ : Type v} {g : Grammar κ}
    {tokenizer : Tokenizer κ σ} {equals : String → κ → Bool} {state : σ} {tokens : List (Token κ)}
    (gives : tokenizer.Gives tokens state) (texts : ∀ token ∈ tokens, token.text ≠ "") :
    (∀ index token, tokens[index]? = some token → ¬ Fits g equals tokens index →
        (∀ before < index, Fits g equals tokens before) →
          ∃ expected, parse g tokenizer equals state = .error (.unexpected token.start expected)
            ∧ expected.Nodup
            ∧ (∀ kind, kind ∈ expected ↔ Viable g equals tokens index kind)
            ∧ calls g tokenizer equals state = index + 1)
      ∧ ((∀ index < tokens.length, Fits g equals tokens index) →
          ∃ f, parse g tokenizer equals state = .ok f
            ∧ f.tokens.toList = tokens
            ∧ calls g tokenizer equals state = tokens.length + 1
            ∧ (f.roots ≠ [] ↔ ∃ kinds : List κ,
                RewritesTo g [.nonterminal g.entry] (kinds.map .terminal)
                  ∧ Matches equals tokens kinds)) := by
  rw [calls, ← @parse_counted κ σ _ g tokenizer equals state 0]
  rcases recognize_finished_or_stopped gives texts with finished | ⟨token, after, stopped⟩
  · refine ⟨fun index token atIndex unfit => ?_, fun _ => ?_⟩
    · exact absurd (finished.fits (List.getElem?_eq_some_iff.1 atIndex).1) unfit
    · have ok := parse_eq_ok_iff.2 ⟨finished.error?_eq, rfl⟩
      refine ⟨_, ok, finished.tokens_eq, finished.calls_eq, ?_⟩
      rw [(Forest.packs_parse ok).roots_ne_nil_iff, ← finished.tokens_eq]
      exact finished.byText.derives_iff
  · refine ⟨fun index other atIndex unfit fit => ?_, fun fit => ?_⟩
    · obtain rfl := stopped.size_eq unfit fit
      rw [← stopped.tokens_eq] at atIndex
      obtain rfl : token = other := by simpa using atIndex
      refine ⟨_, stopped.forest_eq, ItemSet.nodup_expected, fun kind => ?_, stopped.calls_eq⟩
      rw [stopped.byText.mem_expected_iff, stopped.tokens_eq]
    · exact absurd (fit _ stopped.size_lt) stopped.not_fits

/-- A grammar for one letter. -/
def oneLetter : Grammar String := .ofList "S" [⟨"S", [.terminal "a"]⟩]

/-- **A token behind a whole parse does not fit.** -/
theorem correct_prefix_of_parse_surplus :
    let tokens : List (Token String) := [⟨"a", "a", 0, 1⟩, ⟨"a", "a", 1, 2⟩]
    (Tokenizer.ofList String).Gives tokens tokens ∧ (∀ token ∈ tokens, token.text ≠ "")
      ∧ ¬ ∀ index < tokens.length, Fits oneLetter (· == ·) tokens index := by
  intro tokens
  have gives : (Tokenizer.ofList String).Gives tokens tokens := Tokenizer.gives_ofList tokens
  have texts : ∀ token ∈ tokens, token.text ≠ "" := by decide
  refine ⟨gives, texts, fun fit => ?_⟩
  obtain ⟨f, ok, -⟩ := (correct_prefix_of_parse gives texts).2 fit
  have stopped : (recognize oneLetter (.ofList String) (· == ·) tokens).error? ≠ none := by
    decide +kernel
  exact stopped (parse_eq_ok_iff.1 ok).1

end Earley
