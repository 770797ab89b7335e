import Earley.Proofs.Prefix

/-!
# Proofs/Noninterference — of its tokens a parse sees only which kinds they are read as

A run and its tokenizer exchange lists of expected kinds and answers (`exchanges`).  Two exchanges
agree if both are the end, or if both give a token with a text and select the same places of the
expected list, whether by a list of places or by a test of the text.  The kinds, the texts and the
offsets of the tokens may differ.

Where the exchanges of two runs agree, their charts stay parallel (`Chart.Parallel.step`): the same
items in the same order, read as the same kinds.  So the runs ask for the same kinds, and their
forests differ in the tokens alone.
-/

namespace Earley

universe u v w

variable {κ : Type u} {σ : Type v} {τ : Type w}

/-! ## Selected places -/

/-- Whether a scan selects a place of the expected list.  Places behind the end of the list are not
selected. -/
def Scan.selects (equals : String → κ → Bool) (scan : Scan κ) (expected : List κ) (place : Nat) :
    Bool :=
  match scan.matched with
  | some places => place < expected.length && place ∈ places
  | none => expected[place]?.any (equals scan.token.text)

namespace Scan

variable {equals equals' : String → κ → Bool} {scan scan' : Scan κ} {expected : List κ}

/-- **The kinds that a token is read as** stand at the selected places. -/
theorem selected_eq : scan.selected equals expected
    = (expected.zipIdx.filter fun (_, place) => scan.selects equals expected place).map
        Prod.fst := by
  obtain ⟨token, matched⟩ := scan
  cases matched with
  | some places =>
    refine congrArg (List.map Prod.fst) (List.filter_congr fun entry mem => ?_)
    have bound : entry.2 < expected.length := by
      simpa using (List.mem_zipIdx mem).2.1
    simp [selects, bound]
  | none =>
    change expected.filter _ = _
    nth_rewrite 1 [← List.zipIdx_map_fst 0 expected]
    rw [List.filter_map]
    refine congrArg (List.map Prod.fst) (List.filter_congr fun entry mem => ?_)
    have place := List.mem_zipIdx_iff_getElem?.1 mem
    simp [selects, place]

/-- **Scans that select the same places** are read as the same kinds. -/
theorem selected_congr
    (same : ∀ place, scan.selects equals expected place = scan'.selects equals' expected place) :
    scan.selected equals expected = scan'.selected equals' expected := by
  rw [selected_eq, selected_eq]
  exact congrArg _ (List.filter_congr fun entry _ => same entry.2)

/-- The scan with the selected places written out, in ascending order. -/
def settle (equals : String → κ → Bool) (expected : List κ) (scan : Scan κ) : Scan κ :=
  ⟨scan.token, some ((List.range expected.length).filter (scan.selects equals expected))⟩

end Scan

/-- **The tokenizer that settles every answer**: it writes out the selected places instead of
leaving the choice to the parser. -/
def Tokenizer.settled (equals : String → κ → Bool) (tokenizer : Tokenizer κ σ) :
    Tokenizer κ σ where
  scan state expected :=
    let (answer, next) := tokenizer.scan state expected
    (answer.map (Option.map (Scan.settle equals expected)), next)
  remaining := tokenizer.remaining
  remaining_lt := by
    intro state expected answer next h
    rcases scan : tokenizer.scan state expected with ⟨_ | _ | other, after⟩ <;>
      rw [scan] at h
    · exact nomatch (Prod.mk.inj h).1
    · exact nomatch (Prod.mk.inj h).1
    · obtain rfl := (Prod.mk.inj h).2
      exact tokenizer.remaining_lt scan

/-! ## Exchanges -/

deriving instance DecidableEq for Scan

/-- A question to a tokenizer, by the kinds that are expected, and the answer to it. -/
structure Exchange (κ : Type u) where
  expected : List κ
  answer : Except (ParseError κ) (Option (Scan κ))
  deriving DecidableEq

/-- **Exchanges agree** if both are the end of the input, or both give a token with a text and
select the same places. -/
inductive Exchange.Agrees (equals equals' : String → κ → Bool) : Exchange κ → Exchange κ → Prop
  | ends (expected expected' : List κ) :
      Agrees equals equals' ⟨expected, .ok none⟩ ⟨expected', .ok none⟩
  | token {expected expected' : List κ} {scan scan' : Scan κ} (text : scan.token.text ≠ "")
      (text' : scan'.token.text ≠ "")
      (same : ∀ place,
        scan.selects equals expected place = scan'.selects equals' expected' place) :
      Agrees equals equals' ⟨expected, .ok (some scan)⟩ ⟨expected', .ok (some scan')⟩

section Exchanges

variable [DecidableEq κ]

/-- The exchanges of a run from a chart on. -/
def exchangesFrom (g : Grammar κ) (tokenizer : Tokenizer κ σ) (equals : String → κ → Bool)
    (chart : Chart κ) (state : σ) : List (Exchange κ) :=
  let expected := chart.frontier.expected g
  match h : tokenizer.scan state expected with
  | (.error error, _) => [⟨expected, .error error⟩]
  | (.ok none, _) => [⟨expected, .ok none⟩]
  | (.ok (some scan), next) =>
    ⟨expected, .ok (some scan)⟩ ::
      match chart.step g equals scan with
      | .error _ => []
      | .ok longer =>
        have := tokenizer.remaining_lt h
        exchangesFrom g tokenizer equals longer next
termination_by tokenizer.remaining state

/-- **The exchanges of a run** with its tokenizer, in their order. -/
def exchanges (g : Grammar κ) (tokenizer : Tokenizer κ σ) (equals : String → κ → Bool)
    (state : σ) : List (Exchange κ) :=
  exchangesFrom g tokenizer equals (.start g) state

variable {g : Grammar κ} {tokenizer : Tokenizer κ σ} {tokenizer' : Tokenizer κ τ}
  {equals equals' : String → κ → Bool} {chart chart' longer : Chart κ} {state next : σ}
  {state' : τ} {scan scan' : Scan κ}

/-- What the first exchange leads to. -/
theorem exchangesFrom_eq : exchangesFrom g tokenizer equals chart state =
    match tokenizer.scan state (chart.frontier.expected g) with
    | (.error error, _) => [⟨chart.frontier.expected g, .error error⟩]
    | (.ok none, _) => [⟨chart.frontier.expected g, .ok none⟩]
    | (.ok (some scan), next) =>
      ⟨chart.frontier.expected g, .ok (some scan)⟩ ::
        match chart.step g equals scan with
        | .error _ => []
        | .ok longer => exchangesFrom g tokenizer equals longer next := by
  rw [exchangesFrom]
  split
  · rename_i answer
    rw [answer]
  · rename_i answer
    rw [answer]
  · rename_i scan next answer
    cases step : chart.step g equals scan <;> simp only [answer, step]

theorem exchangesFrom_of_end
    (answer : tokenizer.scan state (chart.frontier.expected g) = (.ok none, next)) :
    exchangesFrom g tokenizer equals chart state = [⟨chart.frontier.expected g, .ok none⟩] := by
  rw [exchangesFrom_eq, answer]

theorem exchangesFrom_of_failure {error : ParseError κ}
    (answer : tokenizer.scan state (chart.frontier.expected g) = (.error error, next)) :
    exchangesFrom g tokenizer equals chart state
      = [⟨chart.frontier.expected g, .error error⟩] := by
  rw [exchangesFrom_eq, answer]

theorem exchangesFrom_of_error {error : ParseError κ}
    (answer : tokenizer.scan state (chart.frontier.expected g) = (.ok (some scan), next))
    (step : chart.step g equals scan = .error error) :
    exchangesFrom g tokenizer equals chart state
      = [⟨chart.frontier.expected g, .ok (some scan)⟩] := by
  rw [exchangesFrom_eq, answer]
  simp only [step]

theorem exchangesFrom_of_step
    (answer : tokenizer.scan state (chart.frontier.expected g) = (.ok (some scan), next))
    (step : chart.step g equals scan = .ok longer) :
    exchangesFrom g tokenizer equals chart state
      = ⟨chart.frontier.expected g, .ok (some scan)⟩
        :: exchangesFrom g tokenizer equals longer next := by
  rw [exchangesFrom_eq, answer]
  simp only [step]

/-- The first exchange is about the kinds that the chart expects. -/
theorem exchangesFrom_zero {given : Except (ParseError κ) (Option (Scan κ))}
    (answer : tokenizer.scan state (chart.frontier.expected g) = (given, next)) :
    (exchangesFrom g tokenizer equals chart state)[0]?
      = some ⟨chart.frontier.expected g, given⟩ := by
  rw [exchangesFrom_eq, answer]
  rcases given with _ | _ | scan <;> rfl

/-! ## Parallel charts -/

/-- **Parallel charts** differ in nothing but what stands in their tokens. -/
structure Chart.Parallel (chart chart' : Chart κ) : Prop where
  sets_eq : chart'.sets = chart.sets
  accepted_eq : chart'.accepted = chart.accepted
  size_tokens_eq : chart'.tokens.size = chart.tokens.size

namespace Chart.Parallel

variable (h : chart.Parallel chart')

include h

omit [DecidableEq κ] in
theorem frontier_eq : chart'.frontier = chart.frontier := by
  rw [frontier, frontier, h.sets_eq]

omit [DecidableEq κ] in
/-- One more token that is read as the same kinds leaves charts parallel. -/
theorem push (token token' : Token κ) (kinds : List κ) (items : ItemSet) :
    (chart.push g token kinds items).Parallel (chart'.push g token' kinds items) where
  sets_eq := by rw [Chart.push, Chart.push, h.sets_eq]
  accepted_eq := by rw [Chart.push, Chart.push, h.accepted_eq]
  size_tokens_eq := by rw [Chart.push, Chart.push, Array.size_push, Array.size_push,
    h.size_tokens_eq]

/-- **The forests of parallel charts** differ in nothing but their tokens. -/
theorem forest_ofChart (g : Grammar κ) :
    (Forest.ofChart g chart').nodes = (Forest.ofChart g chart).nodes
      ∧ (Forest.ofChart g chart').roots = (Forest.ofChart g chart).roots := by
  have weave : Weave.ofChart g chart' = Weave.ofChart g chart := by
    rw [Weave.ofChart, Weave.ofChart, h.sets_eq, h.accepted_eq]
  simp only [Forest.ofChart, weave, h.size_tokens_eq, and_self]

/-- **Tokens that select the same places are both read or both refused**, and they leave charts
parallel. -/
theorem step (text : scan.token.text ≠ "") (text' : scan'.token.text ≠ "")
    (same : ∀ place, scan.selects equals (chart.frontier.expected g) place
      = scan'.selects equals' (chart.frontier.expected g) place) :
    (∃ longer longer', chart.step g equals scan = .ok longer
        ∧ chart'.step g equals' scan' = .ok longer' ∧ longer.Parallel longer')
      ∨ chart.step g equals scan
            = .error (.unexpected scan.token.start (chart.frontier.expected g))
        ∧ chart'.step g equals' scan'
            = .error (.unexpected scan'.token.start (chart.frontier.expected g)) := by
  have present : scan.token.text.isEmpty = false := by simpa using text
  have present' : scan'.token.text.isEmpty = false := by simpa using text'
  simp only [Chart.step, h.frontier_eq, present, present', ← Scan.selected_congr same]
  generalize chart.frontier.scanned g _ = items
  cases items.items.isEmpty with
  | true => exact .inr ⟨rfl, rfl⟩
  | false => exact .inl ⟨_, _, rfl, rfl, h.push ..⟩

end Chart.Parallel

/-! ## Runs in lockstep -/

/-- **Runs in lockstep** ask for the same kinds and leave parallel charts.  Both read all of their
input, or both stop at their last question, at a token that no expected kind was selected for. -/
structure Lockstep (asked asked' : List (Exchange κ)) (run : Run κ σ) (run' : Run κ τ) :
    Prop where
  expected_eq : asked'.map Exchange.expected = asked.map Exchange.expected
  parallel : run.chart.Parallel run'.chart
  outcome : run.error? = none ∧ run'.error? = none
    ∨ ∃ expected scan scan', asked.getLast? = some ⟨expected, .ok (some scan)⟩
      ∧ asked'.getLast? = some ⟨expected, .ok (some scan')⟩
      ∧ run.error? = some (.unexpected scan.token.start expected)
      ∧ run'.error? = some (.unexpected scan'.token.start expected)

omit [DecidableEq κ] in
/-- One exchange more before two runs in lockstep. -/
theorem Lockstep.cons {asked asked' : List (Exchange κ)} {run : Run κ σ} {run' : Run κ τ}
    (h : Lockstep asked asked' run run') {first first' : Exchange κ}
    (same : first'.expected = first.expected) :
    Lockstep (first :: asked) (first' :: asked') run run' where
  expected_eq := by rw [List.map_cons, List.map_cons, same, h.expected_eq]
  parallel := h.parallel
  outcome := by
    refine h.outcome.imp_right ?_
    rintro ⟨expected, scan, scan', last, last', errors⟩
    refine ⟨expected, scan, scan', ?_, ?_, errors⟩
    · rw [List.getLast?_cons, last, Option.getD_some]
    · rw [List.getLast?_cons, last', Option.getD_some]

/-- Where exchanges agree, the first ones do. -/
theorem Chart.Parallel.agrees_first (parallel : chart.Parallel chart')
    (agree : ∀ (index : Nat) exchange exchange',
      (exchangesFrom g tokenizer equals chart state)[index]? = some exchange →
        (exchangesFrom g tokenizer' equals' chart' state')[index]? = some exchange' →
          exchange.Agrees equals equals' exchange')
    {given : Except (ParseError κ) (Option (Scan κ))}
    (answer : tokenizer.scan state (chart.frontier.expected g) = (given, next)) :
    ∃ given' next', tokenizer'.scan state' (chart'.frontier.expected g) = (given', next')
      ∧ Exchange.Agrees equals equals' ⟨chart.frontier.expected g, given⟩
          ⟨chart.frontier.expected g, given'⟩ := by
  refine ⟨_, _, rfl, ?_⟩
  have first := agree 0 _ _ (exchangesFrom_zero answer) (exchangesFrom_zero rfl)
  rwa [parallel.frontier_eq] at first ⊢

/-- **Runs whose exchanges agree are in lockstep.** -/
theorem recognizeFrom_lockstep (parallel : chart.Parallel chart')
    (agree : ∀ (index : Nat) exchange exchange',
      (exchangesFrom g tokenizer equals chart state)[index]? = some exchange →
        (exchangesFrom g tokenizer' equals' chart' state')[index]? = some exchange' →
          exchange.Agrees equals equals' exchange') :
    Lockstep (exchangesFrom g tokenizer equals chart state)
      (exchangesFrom g tokenizer' equals' chart' state')
      (recognizeFrom g tokenizer equals chart state)
      (recognizeFrom g tokenizer' equals' chart' state') := by
  have expected : chart'.frontier.expected g = chart.frontier.expected g := by
    rw [parallel.frontier_eq]
  fun_induction recognizeFrom g tokenizer equals chart state generalizing chart' state' with
  | case1 chart state error next answer =>
    obtain ⟨given', next', -, agrees⟩ := parallel.agrees_first agree answer
    obtain ⟨⟩ := agrees
  | case2 chart state next answer =>
    obtain ⟨given', next', answer', agrees⟩ := parallel.agrees_first agree answer
    cases agrees with
    | ends =>
      rw [exchangesFrom_of_end answer, exchangesFrom_of_end answer', recognizeFrom_of_end answer',
        expected]
      exact ⟨rfl, parallel, .inl ⟨rfl, rfl⟩⟩
  | case3 chart state scan next answer error step =>
    obtain ⟨given', next', answer', agrees⟩ := parallel.agrees_first agree answer
    cases agrees with
    | @token _ _ _ scan' text text' same =>
      rcases parallel.step text text' same with ⟨_, _, read, -, -⟩ | ⟨stopped, stopped'⟩
      · obtain ⟨⟩ := step.symm.trans read
      · obtain rfl := Except.error.inj (step.symm.trans stopped)
        rw [exchangesFrom_of_error answer step, exchangesFrom_of_error answer' stopped',
          recognizeFrom_of_error answer' stopped', expected]
        exact ⟨rfl, parallel, .inr ⟨_, scan, scan', rfl, rfl, rfl, rfl⟩⟩
  | case4 chart state scan next answer longer step _ ih =>
    obtain ⟨given', next', answer', agrees⟩ := parallel.agrees_first agree answer
    cases agrees with
    | @token _ _ _ scan' text text' same =>
      rcases parallel.step text text' same with ⟨_, longer', read, read', further⟩ | ⟨stopped, -⟩
      · obtain rfl := Except.ok.inj (step.symm.trans read)
        rw [exchangesFrom_of_step answer step, exchangesFrom_of_step answer' read'] at agree ⊢
        rw [recognizeFrom_of_step answer' read', expected]
        have later := fun index => agree (index + 1)
        exact (ih further later (by rw [further.frontier_eq])).cons rfl
      · obtain ⟨⟩ := step.symm.trans stopped

/-! ## Settled scans -/

omit [DecidableEq κ] in
theorem Scan.selects_settle {expected : List κ} (place : Nat) :
    (scan.settle equals expected).selects equals expected place
      = scan.selects equals expected place := by
  rw [settle, selects]
  by_cases bound : place < expected.length
  · simp [bound]
  · have beyond : scan.selects equals expected place = false := by
      rw [selects]
      split <;> simp [bound]
    simp [bound, beyond]

/-- **A settled token is read as before.** -/
theorem Chart.step_settle : chart.step g equals (scan.settle equals (chart.frontier.expected g))
    = chart.step g equals scan := by
  rw [Chart.step, Chart.step, Scan.selected_congr Scan.selects_settle]
  rfl

omit [DecidableEq κ] in
theorem scan_settled (equals : String → κ → Bool) {expected : List κ}
    {given : Except (ParseError κ) (Option (Scan κ))}
    (answer : tokenizer.scan state expected = (given, next)) :
    (tokenizer.settled equals).scan state expected
      = (given.map (Option.map (Scan.settle equals expected)), next) := by
  simp only [Tokenizer.settled, answer]

/-- **Settling the answers changes nothing** but the exchanges, and in these only the answers. -/
theorem recognizeFrom_settled :
    recognizeFrom g (tokenizer.settled equals) equals chart state
        = recognizeFrom g tokenizer equals chart state
      ∧ (exchangesFrom g (tokenizer.settled equals) equals chart state).map Exchange.expected
        = (exchangesFrom g tokenizer equals chart state).map Exchange.expected := by
  fun_induction recognizeFrom g tokenizer equals chart state with
  | case1 chart state error next answer =>
    have settled := scan_settled equals answer
    rw [recognizeFrom_eq, exchangesFrom_of_failure answer, exchangesFrom_of_failure settled,
      settled]
    exact ⟨rfl, rfl⟩
  | case2 chart state next answer =>
    have settled := scan_settled equals answer
    rw [recognizeFrom_of_end settled, exchangesFrom_of_end answer, exchangesFrom_of_end settled]
    exact ⟨rfl, rfl⟩
  | case3 chart state scan next answer error step =>
    have settled := scan_settled equals answer
    have step' := Chart.step_settle.trans step
    rw [recognizeFrom_of_error settled step', exchangesFrom_of_error answer step,
      exchangesFrom_of_error settled step']
    exact ⟨rfl, rfl⟩
  | case4 chart state scan next answer longer step _ ih =>
    have settled := scan_settled equals answer
    have step' := Chart.step_settle.trans step
    rw [recognizeFrom_of_step settled step', exchangesFrom_of_step answer step,
      exchangesFrom_of_step settled step', List.map_cons, List.map_cons, ih.2]
    exact ⟨ih.1, rfl⟩

end Exchanges

/-- **A parse depends on the answers of its tokenizer only through the places that they select.**

Two runs whose exchanges agree ask for the same kinds, make the same item sets and read the tokens
as the same kinds.  Both parse, into forests with the same nodes and the same roots, or both stop at
their last question, each with the offset of its own token.

Nor does it matter how a place is selected: a tokenizer that leaves the choice to the parser may as
well write out the places whose kinds pass the test. -/
theorem noninterference_of_parse [DecidableEq κ] (g : Grammar κ) (tokenizer : Tokenizer κ σ)
    (equals : String → κ → Bool) (state : σ) :
    (∀ (tokenizer' : Tokenizer κ τ) (equals' : String → κ → Bool) (state' : τ),
        (∀ (index : Nat) exchange exchange',
          (exchanges g tokenizer equals state)[index]? = some exchange →
            (exchanges g tokenizer' equals' state')[index]? = some exchange' →
              exchange.Agrees equals equals' exchange') →
        (exchanges g tokenizer' equals' state').map Exchange.expected
            = (exchanges g tokenizer equals state).map Exchange.expected
          ∧ (recognize g tokenizer' equals' state').chart.sets
            = (recognize g tokenizer equals state).chart.sets
          ∧ (recognize g tokenizer' equals' state').chart.accepted
            = (recognize g tokenizer equals state).chart.accepted
          ∧ ((∃ f f', parse g tokenizer equals state = .ok f
                ∧ parse g tokenizer' equals' state' = .ok f'
                ∧ f'.nodes = f.nodes ∧ f'.roots = f.roots)
            ∨ ∃ expected scan scan',
                (exchanges g tokenizer equals state).getLast? = some ⟨expected, .ok (some scan)⟩
                ∧ (exchanges g tokenizer' equals' state').getLast?
                  = some ⟨expected, .ok (some scan')⟩
                ∧ parse g tokenizer equals state = .error (.unexpected scan.token.start expected)
                ∧ parse g tokenizer' equals' state'
                  = .error (.unexpected scan'.token.start expected)))
      ∧ recognize g (tokenizer.settled equals) equals state = recognize g tokenizer equals state
      ∧ (exchanges g (tokenizer.settled equals) equals state).map Exchange.expected
        = (exchanges g tokenizer equals state).map Exchange.expected := by
  refine ⟨fun tokenizer' equals' state' agree => ?_, recognizeFrom_settled⟩
  have lockstep := recognizeFrom_lockstep ⟨rfl, rfl, rfl⟩ agree
  refine ⟨lockstep.expected_eq, lockstep.parallel.sets_eq, lockstep.parallel.accepted_eq,
    lockstep.outcome.imp ?_ ?_⟩
  · rintro ⟨done, done'⟩
    have forest := lockstep.parallel.forest_ofChart g
    exact ⟨_, _, parse_eq_ok_iff.2 ⟨done, rfl⟩, parse_eq_ok_iff.2 ⟨done', rfl⟩, forest⟩
  · rintro ⟨expected, scan, scan', last, last', error, error'⟩
    refine ⟨expected, scan, scan', last, last', ?_, ?_⟩
    · rw [parse, recognize, Run.forest, error]
    · rw [parse, recognize, Run.forest, error']

/-- Words over two letters. -/
def twoLetters : Grammar String :=
  .ofList "S" [⟨"S", []⟩, ⟨"S", [.nonterminal "S", .terminal "a"]⟩,
    ⟨"S", [.nonterminal "S", .terminal "b"]⟩]

/-- The word `ab` is parsed like two tokens of other kinds and texts that are read by their
places. -/
theorem noninterference_of_parse_twoLetters :
    ∃ f f', parse twoLetters (.ofList String) (· == ·) [⟨"a", "a", 0, 1⟩, ⟨"b", "b", 1, 2⟩] = .ok f
      ∧ parse twoLetters (.ofScript String) (fun _ _ => false)
          ⟨[.ok (some ⟨⟨"?", "x", 5, 9⟩, some [0, 7, 0]⟩),
            .ok (some ⟨⟨"?", "y", 2, 2⟩, some [9, 1]⟩)], #[]⟩ = .ok f'
      ∧ f'.nodes = f.nodes ∧ f'.roots = f.roots := by
  have asked : exchanges twoLetters (.ofList String) (· == ·)
        [⟨"a", "a", 0, 1⟩, ⟨"b", "b", 1, 2⟩]
      = [⟨["a", "b"], .ok (some ⟨⟨"a", "a", 0, 1⟩, none⟩)⟩,
        ⟨["a", "b"], .ok (some ⟨⟨"b", "b", 1, 2⟩, none⟩)⟩, ⟨["a", "b"], .ok none⟩] := by
    decide +kernel
  have asked' : exchanges twoLetters (.ofScript String) (fun _ _ => false)
        ⟨[.ok (some ⟨⟨"?", "x", 5, 9⟩, some [0, 7, 0]⟩),
          .ok (some ⟨⟨"?", "y", 2, 2⟩, some [9, 1]⟩)], #[]⟩
      = [⟨["a", "b"], .ok (some ⟨⟨"?", "x", 5, 9⟩, some [0, 7, 0]⟩)⟩,
        ⟨["a", "b"], .ok (some ⟨⟨"?", "y", 2, 2⟩, some [9, 1]⟩)⟩, ⟨["a", "b"], .ok none⟩] := by
    decide +kernel
  obtain ⟨-, -, -, parsed | ⟨expected, scan, scan', last, -⟩⟩ :=
    (noninterference_of_parse twoLetters (.ofList String) (· == ·)
      [⟨"a", "a", 0, 1⟩, ⟨"b", "b", 1, 2⟩]).1 (.ofScript String) (fun _ _ => false)
      ⟨[.ok (some ⟨⟨"?", "x", 5, 9⟩, some [0, 7, 0]⟩),
        .ok (some ⟨⟨"?", "y", 2, 2⟩, some [9, 1]⟩)], #[]⟩
      (by
        rw [asked, asked']
        rintro (_ | _ | _ | index) exchange exchange' ⟨⟩ ⟨⟩
        · refine .token (by decide) (by decide) ?_
          rintro (_ | _ | place)
          · decide
          · decide
          · simp [Scan.selects]
        · refine .token (by decide) (by decide) ?_
          rintro (_ | _ | place)
          · decide
          · decide
          · simp [Scan.selects]
        · exact .ends _ _)
  · exact parsed
  · rw [asked] at last
    exact nomatch last

end Earley
