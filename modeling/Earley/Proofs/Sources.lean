import Earley.Proofs.Prefix

/-!
# Proofs/Sources — runs over sources of tokens that need not end

The loop of recognition asks any source for tokens, and it may never stop.  Where it does, its run
is a run over the tokenizer that gives as many answers as were asked for (`stops_iff`), with the
same chart and the same error (`Stops.exists_parse`).  So what holds of the charts and forests of
all tokenizers holds of those of all sources: the sets are exact and the forest packs the
derivations (`Stops.sound_and_saturated`, `Stops.packs`).  Where the loop does not stop, it reads
more tokens than any number (`stops_or_endless`).  A source that gives a token on every question is
stopped by an error alone (`Stops.error_of_endless`).
-/

namespace Earley

universe u v

variable {κ : Type u} [DecidableEq κ] {σ : Type v} {g : Grammar κ} {source : Source κ σ}
  {equals : String → κ → Bool} {chart : Chart κ} {state next : σ} {run run' : Run κ σ}

/-- **The loop stops**: from a chart and a state of the source it comes to a run. -/
inductive Stops (g : Grammar κ) (source : Source κ σ) (equals : String → κ → Bool) :
    Chart κ → σ → Run κ σ → Prop
  | refused {chart : Chart κ} {state next : σ} {error : ParseError κ}
      (answer : source state (chart.frontier.expected g) = (.error error, next)) :
      Stops g source equals chart state ⟨chart, some error, next⟩
  | ended {chart : Chart κ} {state next : σ}
      (answer : source state (chart.frontier.expected g) = (.ok none, next)) :
      Stops g source equals chart state ⟨chart, none, next⟩
  | failed {chart : Chart κ} {state next : σ} {scan : Scan κ} {error : ParseError κ}
      (answer : source state (chart.frontier.expected g) = (.ok (some scan), next))
      (step : chart.step g equals scan = .error error) :
      Stops g source equals chart state ⟨chart, some error, next⟩
  | read {chart longer : Chart κ} {state next : σ} {scan : Scan κ} {run : Run κ σ}
      (answer : source state (chart.frontier.expected g) = (.ok (some scan), next))
      (step : chart.step g equals scan = .ok longer)
      (rest : Stops g source equals longer next run) : Stops g source equals chart state run

/-- A tokenizer is a source whose loops stop. -/
theorem stops_recognizeFrom (tokenizer : Tokenizer κ σ) :
    Stops g tokenizer.scan equals chart state (recognizeFrom g tokenizer equals chart state) := by
  fun_induction recognizeFrom g tokenizer equals chart state with
  | case1 chart state error next answer => exact .refused answer
  | case2 chart state next answer => exact .ended answer
  | case3 chart state scan next answer error step => exact .failed answer step
  | case4 chart state scan next answer longer step _ ih => exact .read answer step ih

/-! ## Limited numbers of answers -/

/-- The run, with a number of answers that are left. -/
def Run.leaving (run : Run κ σ) (left : Nat) : Run κ (σ × Nat) :=
  ⟨run.chart, run.error?, (run.state, left)⟩

omit [DecidableEq κ] in
theorem scan_upTo_succ {left : Nat} {expected : List κ}
    {answer : Except (ParseError κ) (Option (Scan κ))}
    (h : source state expected = (answer, next)) :
    (Tokenizer.upTo source).scan (state, left + 1) expected = (answer, (next, left)) := by
  simp only [Tokenizer.upTo, h]

/-- **A loop that stops asks for a limited number of answers.** -/
theorem Stops.exists_upTo (h : Stops g source equals chart state run) : ∃ calls, ∀ left,
    recognizeFrom g (.upTo source) equals chart (state, calls + left) = run.leaving left := by
  induction h with
  | refused answer =>
    refine ⟨1, fun left => ?_⟩
    rw [Nat.add_comm]
    exact recognizeFrom_of_failure (scan_upTo_succ answer)
  | ended answer =>
    refine ⟨1, fun left => ?_⟩
    rw [Nat.add_comm]
    exact recognizeFrom_of_end (scan_upTo_succ answer)
  | failed answer step =>
    refine ⟨1, fun left => ?_⟩
    rw [Nat.add_comm]
    exact recognizeFrom_of_error (scan_upTo_succ answer) step
  | read answer step _ ih =>
    obtain ⟨calls, same⟩ := ih
    refine ⟨calls + 1, fun left => ?_⟩
    rw [Nat.add_right_comm, ← same left]
    exact recognizeFrom_of_step (scan_upTo_succ answer) step

/-- **A run over some answers of a source** is that of the loop, unless it has used them all up, a
token with each. -/
theorem upTo_cases (g : Grammar κ) (source : Source κ σ) (equals : String → κ → Bool)
    (chart : Chart κ) (state : σ) (calls : Nat) :
    (∃ run left, Stops g source equals chart state run
        ∧ recognizeFrom g (.upTo source) equals chart (state, calls) = run.leaving left)
      ∨ (recognizeFrom g (.upTo source) equals chart (state, calls)).chart.tokens.size
          = chart.tokens.size + calls
        ∧ (recognizeFrom g (.upTo source) equals chart (state, calls)).state.2 = 0 := by
  induction calls generalizing chart state with
  | zero =>
    right
    rw [recognizeFrom_of_end rfl]
    exact ⟨rfl, rfl⟩
  | succ calls ih =>
    rcases answer : source state (chart.frontier.expected g) with ⟨_ | _ | scan, next⟩
    · rw [recognizeFrom_of_failure (scan_upTo_succ answer)]
      exact .inl ⟨_, calls, .refused answer, rfl⟩
    · rw [recognizeFrom_of_end (scan_upTo_succ answer)]
      exact .inl ⟨_, calls, .ended answer, rfl⟩
    · cases step : chart.step g equals scan with
      | error error =>
        rw [recognizeFrom_of_error (scan_upTo_succ answer) step]
        exact .inl ⟨_, calls, .failed answer step, rfl⟩
      | ok longer =>
        rw [recognizeFrom_of_step (scan_upTo_succ answer) step]
        rcases ih longer next with ⟨run, left, rest, same⟩ | ⟨size, used⟩
        · exact .inl ⟨run, left, .read answer step rest, same⟩
        · obtain ⟨-, -, rfl⟩ := Chart.step_eq_ok step
          refine .inr ⟨?_, used⟩
          rw [size, Chart.push, Array.size_push, Nat.add_right_comm, Nat.add_assoc]

omit [DecidableEq κ] in
theorem Run.leaving_inj {left left' : Nat} :
    run.leaving left = run'.leaving left' ↔ run = run' ∧ left = left' := by
  obtain ⟨chart, error, state⟩ := run
  obtain ⟨chart', error', state'⟩ := run'
  simp [leaving, and_assoc]

/-- **The loop stops where a run over some of the answers does not use them up**, and in the same
way. -/
theorem stops_iff : Stops g source equals chart state run ↔ ∃ calls left,
    recognizeFrom g (.upTo source) equals chart (state, calls) = run.leaving (left + 1) := by
  constructor
  · intro h
    obtain ⟨calls, same⟩ := h.exists_upTo
    exact ⟨calls + 1, 0, same 1⟩
  · rintro ⟨calls, left, same⟩
    rcases upTo_cases g source equals chart state calls with ⟨run', left', h, same'⟩ | ⟨-, used⟩
    · obtain ⟨rfl, -⟩ := Run.leaving_inj.1 (same.symm.trans same')
      exact h
    · rw [same] at used
      exact absurd used (Nat.succ_ne_zero left)

/-- A loop stops in one way. -/
theorem Stops.unique (h : Stops g source equals chart state run)
    (h' : Stops g source equals chart state run') : run = run' := by
  obtain ⟨calls, same⟩ := h.exists_upTo
  obtain ⟨calls', same'⟩ := h'.exists_upTo
  have once := same calls'
  rw [Nat.add_comm, same' calls] at once
  exact (Run.leaving_inj.1 once).1.symm

/-- **The forest of a loop that stops** is one of a tokenizer, from the same chart. -/
theorem Stops.exists_parse (h : Stops g source equals (.start g) state run) : ∃ calls, ∀ left,
    (recognize g (.upTo source) equals (state, calls + left)).chart = run.chart
      ∧ parse g (.upTo source) equals (state, calls + left) = run.forest g := by
  obtain ⟨calls, same⟩ := h.exists_upTo
  refine ⟨calls, fun left => ?_⟩
  rw [parse, recognize, same left]
  exact ⟨rfl, rfl⟩

/-- The sets of a loop that stops hold what they should. -/
theorem Stops.sound_and_saturated (h : Stops g source equals (.start g) state run) :
    run.chart.Sound g ∧ run.chart.Saturated g := by
  obtain ⟨calls, same⟩ := h.exists_parse
  rw [← (same 0).1]
  exact ⟨Chart.sound_recognize, Chart.saturated_recognize⟩

/-- **The forest of a loop that stops packs the derivations** of the tokens that were read. -/
theorem Stops.packs {f : Forest κ} (h : Stops g source equals (.start g) state run)
    (forest : run.forest g = .ok f) : f.Packs run.chart.Reads := by
  obtain ⟨calls, same⟩ := h.exists_parse
  obtain ⟨chart, parsed⟩ := same 0
  rw [← chart]
  exact Forest.packs_parse (parsed.trans forest)

/-- **A loop that does not stop** reads as many tokens as it is let. -/
theorem stops_or_endless (g : Grammar κ) (source : Source κ σ) (equals : String → κ → Bool)
    (state : σ) : (∃ run, Stops g source equals (.start g) state run)
      ∨ ∀ calls, (recognize g (.upTo source) equals (state, calls)).chart.tokens.size = calls := by
  refine or_iff_not_imp_left.2 fun never calls => ?_
  rcases upTo_cases g source equals (.start g) state calls with ⟨run, _, h, -⟩ | ⟨size, -⟩
  · exact absurd ⟨run, h⟩ never
  · exact size.trans (Nat.zero_add calls)

/-! ## Sources that always have a token -/

/-- **What stops a source that always has a token is an error.** -/
theorem Stops.error_of_endless
    (endless : ∀ state expected, ∃ scan, (source state expected).1 = .ok (some scan))
    (h : Stops g source equals chart state run) : ∃ error, run.error? = some error := by
  induction h with
  | @refused chart state next error answer => exact ⟨error, rfl⟩
  | @ended chart state next answer =>
    obtain ⟨scan, always⟩ := endless state (chart.frontier.expected g)
    rw [answer] at always
    cases always
  | @failed chart state next scan error answer step => exact ⟨error, rfl⟩
  | read _ _ _ ih => exact ih

/-- A letter that does not stand there, and a token without a text. -/
example :
    let g : Grammar String :=
      .ofList "S" [⟨"S", [.nonterminal "S", .nonterminal "S"]⟩, ⟨"S", [.terminal "b"]⟩]
    let always (text : String) (start : Nat) : Source String Unit := fun _ _ =>
      (.ok (some { token := ⟨text, text, start, start + text.length⟩ }), ())
    (recognize g (.upTo (always "c" 7)) (· == ·) ((), 2)).error? = some (.unexpected 7 ["b"])
      ∧ (recognize g (.upTo (always "" 3)) (· == ·) ((), 2)).error? = some (.emptyToken 3) := by
  decide +kernel

end Earley
