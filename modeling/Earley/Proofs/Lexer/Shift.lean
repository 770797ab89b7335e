import Earley.Proofs.Lexer.Calls
import Earley.Proofs.Noninterference
import Earley.Regex.Engine
import Earley.TextParse

/-!
# Proofs/Lexer/Shift — a lexer knows nothing of what it has passed

A lexer keeps the characters behind its place and the number of bytes before it.  That number is
added to the offsets of what it answers and does nothing else (`Lexer.answer_shift`), so that a
lexer answers like a fresh one on the rest of its text, further on.  A call that fails takes blanks
only, and blanks are skipped by the next call in any case (`Lexer.answer_skipBlanks`).

A run over a text with blanks in front makes the same steps as a run over the text alone
(`recognizeFrom_shift`): the charts differ in the offsets of their tokens, and these are not looked
at.
-/

namespace Earley

universe u

variable {κ : Type u} {bytes : Nat}

/-! ## Further on in a text -/

/-- The token, so many bytes further on. -/
def Token.shift (bytes : Nat) (token : Token κ) : Token κ :=
  { token with start := bytes + token.start, next := bytes + token.next }

/-- The error, so many bytes further on. -/
def ParseError.shift (bytes : Nat) : ParseError κ → ParseError κ
  | unexpected pos expected => unexpected (bytes + pos) expected
  | emptyToken pos => emptyToken (bytes + pos)

/-- The scan, so many bytes further on. -/
def Scan.shift (bytes : Nat) (scan : Scan κ) : Scan κ :=
  { scan with token := scan.token.shift bytes }

/-- The lexer, so many bytes further on and before the same characters. -/
def Lexer.shift (bytes : Nat) (lexer : Lexer) : Lexer := ⟨bytes + lexer.offset, lexer.rest⟩

/-- The chart of the same tokens, so many bytes further on. -/
def Chart.shift (bytes : Nat) (chart : Chart κ) : Chart κ :=
  { chart with tokens := chart.tokens.map (Token.shift bytes) }

/-- The forest over the same tokens, so many bytes further on. -/
def Forest.shift (bytes : Nat) (f : Forest κ) : Forest κ :=
  { f with tokens := f.tokens.map (Token.shift bytes) }

/-- The run over the same text, so many bytes further on. -/
def Run.shift (bytes : Nat) (run : Run κ Lexer) : Run κ Lexer :=
  ⟨run.chart.shift bytes, run.error?.map (ParseError.shift bytes), run.state.shift bytes⟩

/-- What a tokenizer or a parser comes to, so many bytes further on. -/
def shiftResult {α : Type u} (shift : Nat → α → α) (bytes : Nat)
    (result : Except (ParseError κ) α) : Except (ParseError κ) α :=
  (result.mapError (ParseError.shift bytes)).map (shift bytes)

/-! ## Calls -/

namespace Lexer

variable {E : Engine} {lexer after : Lexer} {text : String} {call : Call E}
  {error : ParseError (Pattern E)}

/-- **The answer to a call** with the places that a token is read as, where it was asked for them,
and the lexer after it. -/
def answer (lexer : Lexer) :
    Call E → Except (ParseError (Pattern E)) (Option (Scan (Pattern E))) × Lexer
  | .next expected => lexer.bareScan expected
  | .scan expected => lexer.scan expected

/-- **The answers to calls** that are made one after the other. -/
def answers (lexer : Lexer) :
    List (Call E) → List (Except (ParseError (Pattern E)) (Option (Scan (Pattern E))) × Lexer)
  | [] => []
  | call :: calls => lexer.answer call :: (lexer.answer call).2.answers calls

/-- The patterns that a call expects. -/
def Call.expected : Call E → List (Pattern E)
  | next expected | scan expected => expected

/-- A token as a call gives it. -/
def Call.scanOf : Call E → Token (Pattern E) → Scan (Pattern E)
  | next _, token => { token }
  | scan expected, token => ⟨token, some (placesOf token expected)⟩

/-- Every call asks for the next token. -/
theorem answer_eq (lexer : Lexer) (call : Call E) : lexer.answer call
    = (lexer.next call.expected).map (Except.map (Option.map call.scanOf)) id := by
  cases call with
  | next expected =>
    rw [answer, bareScan, Call.expected]
    rcases lexer.next expected with ⟨_ | _ | token, after⟩ <;> rfl
  | scan expected =>
    rw [answer, scan, Call.expected]
    rcases lexer.next expected with ⟨_ | _ | token, after⟩ <;> rfl

theorem In.afterCalls (h : lexer.In text) (calls : List (Call E)) :
    (lexer.afterCalls calls).In text := by
  induction calls generalizing lexer with
  | nil => exact h
  | cons call calls ih => exact ih (h.reply call).2

/-! ### Shifted lexers -/

theorem rest_shift (lexer : Lexer) : (lexer.shift bytes).rest = lexer.rest := rfl

theorem drop_shift (lexer : Lexer) (count : Nat) :
    (lexer.shift bytes).drop count = (lexer.drop count).shift bytes :=
  congrArg (Lexer.mk · _) (Nat.add_assoc ..)

theorem pass_shift (lexer : Lexer) (size : Nat) :
    (lexer.shift bytes).pass size = (lexer.pass size).shift bytes :=
  congrArg (Lexer.mk · _) (Nat.add_assoc ..)

theorem skipBlanks_shift (lexer : Lexer) :
    (lexer.shift bytes).skipBlanks = lexer.skipBlanks.shift bytes := lexer.drop_shift _

/-- The next token is the same one, further on. -/
theorem next_shift (lexer : Lexer) (expected : List (Pattern E)) : (lexer.shift bytes).next expected
    = (lexer.next expected).map (shiftResult (fun bytes => Option.map (Token.shift bytes)) bytes)
        (Lexer.shift bytes) := by
  simp only [next, skipBlanks_shift, rest_shift]
  generalize lexer.skipBlanks = here
  cases here.rest.isEmpty with
  | true => rfl
  | false =>
    cases best? (matchesOf here.rest expected) with
    | none => rfl
    | some found =>
      by_cases empty : found.size = 0
      · simp only [empty, if_true, Bool.false_eq_true, if_false]
        rfl
      · simp only [empty, Bool.false_eq_true, if_false, pass_shift]
        rfl

/-- **A call is answered in the same way**, further on. -/
theorem answer_shift (lexer : Lexer) (call : Call E) : (lexer.shift bytes).answer call
    = (lexer.answer call).map (shiftResult (fun bytes => Option.map (Scan.shift bytes)) bytes)
        (Lexer.shift bytes) := by
  rw [answer_eq, answer_eq, next_shift]
  rcases lexer.next call.expected with ⟨_ | _ | token, after⟩
  · rfl
  · rfl
  · cases call <;> rfl

/-- **All calls are answered in the same way**, further on. -/
theorem answers_shift (lexer : Lexer) (calls : List (Call E)) : (lexer.shift bytes).answers calls
    = (lexer.answers calls).map
        (Prod.map (shiftResult (fun bytes => Option.map (Scan.shift bytes)) bytes)
          (Lexer.shift bytes)) := by
  induction calls generalizing lexer with
  | nil => rfl
  | cons call calls ih =>
    rw [answers, answers, List.map_cons, answer_shift]
    exact congrArg _ (ih _)

/-- A lexer is a fresh one on the rest of its text, further on. -/
theorem shift_ofString (lexer : Lexer) :
    (ofString (String.ofList lexer.rest)).shift lexer.offset = lexer := by
  rw [ofString, String.toList_ofList]
  rfl

/-! ### Blanks -/

/-- Where no blank stands there is none to skip. -/
theorem skipBlanks_eq_self (h : ∀ c ∈ lexer.rest.head?, Unicode.isBlank c = false) :
    lexer.skipBlanks = lexer := by
  obtain ⟨offset, rest⟩ := lexer
  cases rest with
  | nil => rfl
  | cons c rest => simp [skipBlanks, drop, h c rfl, byteLength]

/-- **Blanks that were skipped change no answer.** -/
theorem answer_skipBlanks (lexer : Lexer) (call : Call E) :
    lexer.skipBlanks.answer call = lexer.answer call := by
  rw [answer_eq, answer_eq, next, next, skipBlanks_eq_self lexer.skips_skipBlanks.not_blank]

theorem answers_skipBlanks (lexer : Lexer) (calls : List (Call E)) :
    lexer.skipBlanks.answers calls = lexer.answers calls := by
  cases calls with
  | nil => rfl
  | cons call calls => rw [answers, answers, answer_skipBlanks]

/-- Blanks in front of a text are skipped with those that it begins with. -/
theorem skipBlanks_ofString_append {gap : String} (blank : AllBlank gap.toList) :
    (ofString (gap ++ text)).skipBlanks
      = ((ofString text).shift gap.utf8ByteSize).skipBlanks := by
  have split : (ofString (gap ++ text)).rest = gap.toList ++ text.toList := String.toList_append
  have offset : (ofString (gap ++ text)).skipBlanks.offset
      = ((ofString text).shift gap.utf8ByteSize).skipBlanks.offset := by
    rw [offset_skipBlanks, offset_skipBlanks, split, List.takeWhile_append_of_pos blank,
      byteLength_append, byteLength_toList]
    change 0 + (_ + byteLength (text.toList.takeWhile Unicode.isBlank)) = _ + 0 + byteLength _
    rw [Nat.zero_add, Nat.add_zero]
    rfl
  have rest : (ofString (gap ++ text)).skipBlanks.rest
      = ((ofString text).shift gap.utf8ByteSize).skipBlanks.rest := by
    rw [rest_skipBlanks, rest_skipBlanks, split, List.dropWhile_append_of_pos blank]
    rfl
  exact congrArg₂ Lexer.mk offset rest

theorem eq_skipBlanks_of_next {expected : List (Pattern E)}
    (h : lexer.next expected = (.error error, after)) : after = lexer.skipBlanks := by
  dsimp only [next] at h
  split at h
  · cases h
  · split at h
    · exact (congrArg Prod.snd h).symm
    · split at h
      · exact (congrArg Prod.snd h).symm
      · cases h

/-- **A call that fails takes blanks only.** -/
theorem eq_skipBlanks_of_answer (h : lexer.answer call = (.error error, after)) :
    after = lexer.skipBlanks := by
  rw [answer_eq] at h
  rcases next : lexer.next call.expected with ⟨error' | _ | token, after'⟩
  · rw [next] at h
    obtain rfl := (Prod.mk.inj h).2
    exact eq_skipBlanks_of_next next
  · rw [next] at h
    cases h
  · rw [next] at h
    cases h

end Lexer

/-! ## Runs -/

section Runs

variable {E : Engine} {g : Grammar (Pattern E)} {equals : String → Pattern E → Bool}
  {chart : Chart (Pattern E)} {lexer lexer' : Lexer}

theorem Chart.push_shift {token : Token (Pattern E)} {kinds : List (Pattern E)} {items : ItemSet} :
    (chart.shift bytes).push g (token.shift bytes) kinds items
      = (chart.push g token kinds items).shift bytes := by
  rw [push, push, shift, shift, Array.map_push]

/-- **A token is read in the same way**, further on. -/
theorem Chart.step_shift (scan : Scan (Pattern E)) :
    (chart.shift bytes).step g equals (scan.shift bytes)
      = shiftResult Chart.shift bytes (chart.step g equals scan) := by
  have frontier : (chart.shift bytes).frontier = chart.frontier := rfl
  have text : (scan.shift bytes).token.text = scan.token.text := rfl
  have selected : ∀ expected,
      (scan.shift bytes).selected equals expected = scan.selected equals expected := fun _ => rfl
  simp only [step, frontier, text, selected]
  generalize chart.frontier.scanned g _ = items
  cases scan.token.text.isEmpty with
  | true => rfl
  | false =>
    cases items.items.isEmpty with
    | true => rfl
    | false => exact congrArg Except.ok push_shift

/-- Lexers that answer the first question in the same way lead to the same run. -/
theorem recognizeFrom_congr
    (h : ∀ expected : List (Pattern E), lexer.scan expected = lexer'.scan expected) :
    recognizeFrom g Lexer.tokenizer equals chart lexer
      = recognizeFrom g Lexer.tokenizer equals chart lexer' := by
  have same : Lexer.tokenizer.scan lexer (chart.frontier.expected g)
      = Lexer.tokenizer.scan lexer' (chart.frontier.expected g) := h _
  rw [recognizeFrom_eq, recognizeFrom_eq, same]

theorem Lexer.scan_shift {expected : List (Pattern E)}
    {answer : Except (ParseError (Pattern E)) (Option (Scan (Pattern E)))} {next : Lexer}
    (h : Lexer.tokenizer.scan lexer expected = (answer, next)) :
    Lexer.tokenizer.scan (lexer.shift bytes) expected
      = (shiftResult (fun bytes => Option.map (Scan.shift bytes)) bytes answer,
          next.shift bytes) :=
  (answer_shift lexer (.scan expected)).trans (congrArg _ h)

/-- **A run makes the same steps**, further on. -/
theorem recognizeFrom_shift :
    recognizeFrom g Lexer.tokenizer equals (chart.shift bytes) (lexer.shift bytes)
      = (recognizeFrom g Lexer.tokenizer equals chart lexer).shift bytes := by
  fun_induction recognizeFrom g Lexer.tokenizer equals chart lexer with
  | case1 chart lexer error next answer =>
    exact recognizeFrom_of_failure (Lexer.scan_shift answer)
  | case2 chart lexer next answer => exact recognizeFrom_of_end (Lexer.scan_shift answer)
  | case3 chart lexer scan next answer error step =>
    refine recognizeFrom_of_error (Lexer.scan_shift answer) ?_
    rw [Chart.step_shift, step]
    rfl
  | case4 chart lexer scan next answer longer step _ ih =>
    rw [← ih]
    refine recognizeFrom_of_step (Lexer.scan_shift answer) ?_
    rw [Chart.step_shift, step]
    rfl

/-- The forest of a chart does not depend on the offsets of its tokens. -/
theorem Forest.ofChart_shift :
    Forest.ofChart g (chart.shift bytes) = (Forest.ofChart g chart).shift bytes := by
  have parallel : chart.Parallel (chart.shift bytes) := ⟨rfl, rfl, Array.size_map⟩
  obtain ⟨nodes, roots⟩ := parallel.forest_ofChart g
  rw [ofChart] at nodes roots ⊢
  exact congrArg₂ (Forest.mk g _) nodes roots

end Runs

namespace Grammar

variable {E : Engine} {gap text : String}

/-- **A run over a text with blanks in front** is the run over the text, further on. -/
theorem run_append (g : Grammar (Pattern E)) (blank : AllBlank gap.toList) :
    g.run (gap ++ text) = (g.run text).shift gap.utf8ByteSize := by
  have first : ∀ expected : List (Pattern E), (Lexer.ofString (gap ++ text)).scan expected
      = ((Lexer.ofString text).shift gap.utf8ByteSize).scan expected := by
    intro expected
    have same := Lexer.answer_skipBlanks (Lexer.ofString (gap ++ text)) (.scan expected)
    rw [Lexer.skipBlanks_ofString_append blank, Lexer.answer_skipBlanks] at same
    exact same.symm
  have start : (Chart.start g).shift gap.utf8ByteSize = .start g := by
    simp [Chart.start, Chart.shift]
  rw [run, recognize, recognizeFrom_congr first, ← start]
  exact recognizeFrom_shift

/-- **A parse of a text with blanks in front** comes to the same, further on. -/
theorem parse_append (g : Grammar (Pattern E)) (blank : AllBlank gap.toList) :
    g.parse (gap ++ text) = shiftResult Forest.shift gap.utf8ByteSize (g.parse text) := by
  rw [parse, parse, g.run_append blank, Run.forest, Run.forest, Run.shift]
  cases (g.run text).error? with
  | some error => rfl
  | none => exact congrArg Except.ok Forest.ofChart_shift

end Grammar

/-- **A lexer knows nothing of what it has passed.**

After any calls a lexer is in its text, and it answers all further calls like a fresh lexer on the
rest of the text, with all offsets larger by its own.  A call that fails changes the answer to no
later call: whatever is called then is answered as if the failed call had not been made.  And a
parse of a text with blanks in front is the parse of the text, either with the same forest over the
same tokens or with the same error, and all offsets larger by the bytes of the blanks. -/
theorem memoryless_of_calls (E : Engine) :
    (∀ (text : String) (calls further : List (Lexer.Call E)),
        let lexer := (Lexer.ofString text).afterCalls calls
        lexer.In text ∧ lexer.answers further
          = ((Lexer.ofString (String.ofList lexer.rest)).answers further).map
              (Prod.map (shiftResult (fun bytes => Option.map (Scan.shift bytes)) lexer.offset)
                (Lexer.shift lexer.offset)))
      ∧ (∀ (lexer after : Lexer) (failed : Lexer.Call E) (error : ParseError (Pattern E)),
        lexer.answer failed = (.error error, after) →
          ∀ further : List (Lexer.Call E), after.answers further = lexer.answers further)
      ∧ ∀ (g : Grammar (Pattern E)) (gap text : String), AllBlank gap.toList →
        g.parse (gap ++ text) = shiftResult Forest.shift gap.utf8ByteSize (g.parse text) := by
  refine ⟨fun text calls further => ⟨(Lexer.in_ofString text).afterCalls calls, ?_⟩,
    fun lexer after failed error fails further => ?_, fun g gap text => g.parse_append⟩
  · rw [← Lexer.answers_shift, Lexer.shift_ofString]
  · rw [Lexer.eq_skipBlanks_of_answer fails, Lexer.answers_skipBlanks]

/-- A word, and the mark that calls it out. -/
def outcryWord : Pattern .standard := .ofSource "[a-z]+"

def outcryMark : Pattern .standard := .literal "!"

def outcry : Grammar (Pattern .standard) :=
  .ofList "S" [⟨"S", [.terminal outcryWord, .terminal outcryMark]⟩]

/-- A lexer that was asked for the mark too early still gives the word, and behind three bytes of
blanks a missing mark is missed three bytes further on. -/
theorem memoryless_of_calls_outcry :
    (∃ after, (Lexer.ofString " hi !").answer (.next [outcryMark])
        = (.error (.unexpected 1 [outcryMark]), after)
      ∧ after.answers [.scan [outcryMark, outcryWord], .next [outcryMark]]
        = (Lexer.ofString " hi !").answers
            [.scan [outcryMark, outcryWord], .next [outcryMark]])
      ∧ AllBlank "\u00a0\t".toList
      ∧ outcry.parse ("\u00a0\t" ++ "hi ?") = .error (.unexpected 6 [outcryMark]) := by
  obtain ⟨-, retry, indented⟩ := memoryless_of_calls .standard
  have early : ((Lexer.ofString " hi !").answer (.next [outcryMark])).1
      = .error (.unexpected 1 [outcryMark]) := by decide +kernel
  have stopped : (outcry.run "hi ?").error? = some (.unexpected 3 [outcryMark]) := by
    decide +kernel
  have blank : AllBlank "\u00a0\t".toList := by decide +kernel
  have bytes : "\u00a0\t".utf8ByteSize = 3 := by decide
  refine ⟨⟨_, Prod.ext early rfl, retry _ _ _ _ (Prod.ext early rfl) _⟩, blank, ?_⟩
  rw [indented outcry _ _ blank, Grammar.parse, Run.forest, stopped, bytes]
  rfl

end Earley
