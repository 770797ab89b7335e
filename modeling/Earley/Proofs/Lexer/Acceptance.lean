import Earley.Proofs.Lexer.Choice
import Earley.Proofs.Regex.Engine
import Earley.Proofs.Regex.Framing
import Earley.Proofs.TextParse

/-!
# Proofs/Lexer/Acceptance — a token passes the test of its own pattern

The lexer finds a token by a search in the text that is left; the test of a pattern sees the text of
the token alone.  `Engine.Matching` is what is to be known of the engine to compare them: where its
expressions have matches, that the frame at both ends keeps those that end with the text, and which
matches may be lost when the text is cut off behind them.  The standard engine matches in this way
(`Engine.standardMatching`).

A match that is kept is accepted by the test (`Pattern.accepts_of_not_loses`), and so a parser that
leaves the choice to the tests reads every token that the lexer gives it, up to those that have lost
their match: a condition on word boundaries may hold before a character of a word and not at the end
of a text.
-/

namespace Earley

variable {E : Engine}

/-! ## Matches of an engine -/

/-- **Where the expressions of an engine have matches**, and how these depend on the text behind
them. -/
structure Engine.Matching (E : Engine) where
  /-- An expression has a match in a text, from one number of characters to another. -/
  Leads : E.Expr → List Char → Nat → Nat → Prop
  /-- A condition on word boundaries may stand at the end of a match.  This is told by the form of
  the expression, and no match of it needs to depend on the condition. -/
  Watches : E.Expr → Prop
  /-- Whether a character belongs to a word. -/
  isWord : Char → Bool
  /-- A search finds a match. -/
  leads_of_findEnd? : ∀ {expr part rest},
    E.findEnd? expr (part ++ rest) = some (byteLength part) →
      ∃ start, Leads expr (part ++ rest) start part.length
  /-- A test finds any match. -/
  isMatch_of_leads : ∀ {expr text start stop}, Leads expr text start stop → stop ≤ text.length →
    E.isMatch expr text = true
  /-- What is behind a match is seen by conditions on word boundaries only. -/
  leads_cut : ∀ {expr part rest start}, Leads expr (part ++ rest) start part.length →
    (Watches expr → ∀ c ∈ rest.head?, isWord c = false) → Leads expr part start part.length
  /-- The dollar sign of the frame at both ends holds at the end of a text. -/
  leads_whole : ∀ {source atStart whole text start},
    E.compile ("^(?:".toList ++ source ++ ")".toList) = .ok atStart →
      E.compile ("^(?:".toList ++ source ++ ")$".toList) = .ok whole →
        Leads atStart text start text.length → Leads whole text start text.length

/-- **The matches of the standard engine** are where the paths of its expressions lead. -/
def Engine.standardMatching : Engine.standard.Matching where
  Leads := fun r text start stop => Regex.Leads text r start stop
  Watches := fun r => Regex.watches r = true
  isWord := Unicode.isWord
  leads_of_findEnd? := by
    intro r part rest found
    obtain ⟨last, first, bytes⟩ := Option.map_eq_some_iff.1 found
    obtain ⟨le, start, leads⟩ := Regex.leads_of_find? first
    have place : last.pos = part.length := by
      rw [← charCount_byteLength_take le, bytes, charCount_byteLength_append]
    exact ⟨start, place ▸ leads⟩
  isMatch_of_leads := fun leads le => Regex.isMatch_of_leads (leads.le.trans le) leads
  leads_cut := by
    intro r part rest start leads free
    have cut := leads.take (List.prefix_append part rest).length_le (Nat.le_refl _) fun _ => by
      rw [List.getElem?_append_right (Nat.le_refl _), Nat.sub_self, ← List.head?_eq_getElem?]
      by_cases watches : Regex.watches r = true
      · exact .inr (by simpa [Option.any_eq_false] using free watches)
      · exact .inl (Bool.eq_false_iff.2 watches)
    rwa [List.take_left] at cut
  leads_whole := fun start whole => Regex.leads_whole (Engine.compile_standard_eq_ok_iff.1 start)
    (Engine.compile_standard_eq_ok_iff.1 whole)

namespace Pattern

variable {M : E.Matching} {pattern : Pattern E} {part rest : List Char}

/-- **A pattern loses its match** up to the end of `part` when the rest is cut off: all matches up
to there are ones that `part` alone does not have. -/
def Loses (M : E.Matching) (part rest : List Char) : Pattern E → Prop
  | literal _ => False
  | regex matcher => ∀ start, M.Leads matcher.atStart (part ++ rest) start part.length →
    ¬ M.Leads matcher.atStart part start part.length

/-- Whether a condition on word boundaries may stand at the end of a match. -/
def Watches (M : E.Matching) : Pattern E → Prop
  | literal _ => False
  | regex matcher => M.Watches matcher.atStart

/-- **What matches at the beginning of a text is accepted as a whole text**, unless its match is
lost. -/
theorem accepts_of_not_loses (matched : pattern.matchEnd? (part ++ rest) = some (byteLength part))
    (kept : ¬ pattern.Loses M part rest) : pattern.accepts (String.ofList part) = true := by
  cases pattern with
  | literal expected =>
    have length := congrArg (Option.map (charCount (part ++ rest))) matched
    obtain ⟨rest', split, length⟩ := matchLength?_literal.1 length
    rw [charCount_byteLength_append] at length
    simp [accepts, List.append_inj_left split length]
  | regex matcher =>
    simp only [Loses, not_forall, not_not] at kept
    obtain ⟨start, -, leads⟩ := kept
    rw [accepts, String.toList_ofList]
    exact M.isMatch_of_leads (M.leads_whole matcher.atStart_eq matcher.whole_eq leads)
      (Nat.le_refl _)

/-- **Only a pattern that watches loses its match**, and only before a character of a word. -/
theorem Loses.watches (matched : pattern.matchEnd? (part ++ rest) = some (byteLength part))
    (h : pattern.Loses M part rest) :
    pattern.Watches M ∧ ∃ c ∈ rest.head?, M.isWord c = true := by
  cases pattern with
  | literal => exact h.elim
  | regex matcher =>
    obtain ⟨start, leads⟩ := M.leads_of_findEnd? matched
    have lost := mt (M.leads_cut leads) (h start leads)
    simp only [not_forall, Bool.not_eq_false, exists_prop] at lost
    exact lost

end Pattern

namespace Lexer

variable {M : E.Matching} {lexer after : Lexer} {expected : List (Pattern E)}
  {token : Token (Pattern E)}

/-- A token that is given is one that the lexer takes behind the blanks. -/
theorem takes_of_next (h : lexer.next expected = (.ok (some token), after)) :
    ∃ pattern length, lexer.skipBlanks.rest ≠ []
      ∧ lexer.skipBlanks.Takes expected pattern length
      ∧ token = lexer.skipBlanks.tokenOf pattern length
      ∧ after = lexer.skipBlanks.drop length := by
  have given : lexer.scan expected
      = (.ok (some ⟨token, some (placesOf token expected)⟩), after) := by
    rw [scan, h]
  rcases lexer.scan_cases expected with
    ⟨-, ends⟩ | ⟨further, ⟨_, -, fails⟩ | ⟨pattern, length, takes, same⟩⟩
  · obtain ⟨⟩ := given.symm.trans ends
  · obtain ⟨⟩ := given.symm.trans fails
  · obtain ⟨answer, place⟩ := Prod.mk.inj (given.symm.trans same)
    have scans := Option.some.inj (Except.ok.inj answer)
    exact ⟨pattern, length, further, takes, congrArg Scan.token scans, place⟩

theorem mem_of_next (h : lexer.next expected = (.ok (some token), after)) :
    token.kind ∈ expected := by
  obtain ⟨pattern, length, -, takes, rfl, -⟩ := takes_of_next h
  exact takes.mem

theorem isEmpty_text_of_next (h : lexer.next expected = (.ok (some token), after)) :
    token.text.isEmpty = false := by
  obtain ⟨pattern, length, further, takes, rfl, -⟩ := takes_of_next h
  exact isEmpty_text_tokenOf pattern takes.pos further

/-- **A token passes the test of its kind**, unless this loses its match. -/
theorem accepts_of_next (h : lexer.next expected = (.ok (some token), after))
    (kept : ¬ token.kind.Loses M token.text.toList after.rest) :
    token.kind.accepts token.text = true := by
  obtain ⟨pattern, length, -, takes, rfl, rfl⟩ := takes_of_next h
  obtain ⟨-, matched⟩ := Pattern.matchLength?_eq_some_iff.1 takes.matched
  rw [tokenOf, drop, String.toList_ofList] at kept
  refine Pattern.accepts_of_not_loses ?_ kept
  rwa [List.take_append_drop]

/-- **A bare answer** is the answer of the lexer. -/
theorem bareScan_cases (lexer : Lexer) (expected : List (Pattern E)) :
    (∃ after, lexer.next expected = (.ok none, after)
        ∧ lexer.bareScan expected = (.ok none, after))
      ∨ (∃ error after, lexer.next expected = (.error error, after)
        ∧ lexer.bareScan expected = (.error error, after))
      ∨ ∃ token after, lexer.next expected = (.ok (some token), after)
        ∧ lexer.bareScan expected = (.ok (some { token }), after) := by
  rw [bareScan]
  rcases lexer.next expected with ⟨error | _ | token, after⟩
  · exact .inr (.inl ⟨error, after, rfl, rfl⟩)
  · exact .inl ⟨after, rfl, rfl⟩
  · exact .inr (.inr ⟨token, after, rfl, rfl⟩)

end Lexer

/-! ## Runs that leave the choice to the tests -/

section Bare

variable {M : E.Matching} {g : Grammar (Pattern E)} {chart : Chart (Pattern E)}
  {lexer after : Lexer}
  {token : Token (Pattern E)}

/-- **A token that passes the test of an expected kind is read.** -/
theorem Chart.step_of_accepts (text : token.text.isEmpty = false) {kind : Pattern E}
    (mem : kind ∈ chart.frontier.expected g) (accepts : kind.accepts token.text = true) :
    ∃ longer, chart.step g Pattern.accepts { token } = .ok longer := by
  have chosen : (chart.frontier.expected g).filter (Pattern.accepts token.text)
      ⊆ chart.frontier.expected g := List.filter_subset_self _
  have read : (chart.frontier.scanned g
      ((chart.frontier.expected g).filter (Pattern.accepts token.text))).items.isEmpty = false := by
    rw [Bool.eq_false_iff, ne_eq, ItemSet.isEmpty_scanned_iff chosen]
    exact List.ne_nil_of_mem (List.mem_filter.2 ⟨mem, accepts⟩)
  simp only [Chart.step, Scan.selected, text, read]
  exact ⟨_, rfl⟩

/-- A token with a text is refused because it is none of the expected kinds. -/
theorem Chart.eq_unexpected_of_step {equals : String → Pattern E → Bool} {scan : Scan (Pattern E)}
    {error : ParseError (Pattern E)} (text : scan.token.text.isEmpty = false)
    (h : chart.step g equals scan = .error error) :
    error = .unexpected scan.token.start (chart.frontier.expected g) := by
  simp only [Chart.step, text, Bool.false_eq_true, if_false] at h
  split at h
  · exact (Except.error.inj h).symm
  · cases h

/-- **What stops a run that leaves the choice to the tests**, at its last question: the lexer fails,
or it gives a token that fails the test of its own kind, which loses its match. -/
inductive BareStop (M : E.Matching) (g : Grammar (Pattern E)) (lexer : Lexer) :
    ParseError (Pattern E) → Prop
  | lexer {chart : Chart (Pattern E)} {here after : Lexer} {error : ParseError (Pattern E)}
      (asks : Asks g Lexer.bareTokenizer Pattern.accepts lexer chart here)
      (answer : here.next (chart.frontier.expected g) = (.error error, after)) :
      BareStop M g lexer error
  | token {chart : Chart (Pattern E)} {here after : Lexer} {token : Token (Pattern E)}
      (asks : Asks g Lexer.bareTokenizer Pattern.accepts lexer chart here)
      (answer : here.next (chart.frontier.expected g) = (.ok (some token), after))
      (loses : token.kind.Loses M token.text.toList after.rest)
      (fails : token.kind.accepts token.text = false) :
      BareStop M g lexer (.unexpected token.start (chart.frontier.expected g))

theorem BareStop.of_recognize {error : ParseError (Pattern E)}
    (h : (recognize g Lexer.bareTokenizer Pattern.accepts lexer).error? = some error) :
    BareStop M g lexer error := by
  have first : Asks g Lexer.bareTokenizer Pattern.accepts lexer (.start g) lexer := .start
  obtain ⟨chart, here, answer, after, asks, scan, outcome⟩ := first.exists_last
  change here.bareScan _ = _ at scan
  rcases here.bareScan_cases (chart.frontier.expected g) with
    ⟨after', next, bare⟩ | ⟨error', after', next, bare⟩ | ⟨token, after', next, bare⟩
  · obtain ⟨rfl, rfl⟩ := Prod.mk.inj (scan.symm.trans bare)
    rcases outcome with ⟨-, run⟩ | ⟨_, ⟨⟩, -⟩ | ⟨_, _, ⟨⟩, -⟩
    obtain ⟨⟩ := h.symm.trans (congrArg Run.error? run)
  · obtain ⟨rfl, rfl⟩ := Prod.mk.inj (scan.symm.trans bare)
    rcases outcome with ⟨⟨⟩, -⟩ | ⟨_, ⟨⟩, run⟩ | ⟨_, _, ⟨⟩, -⟩
    obtain rfl := Option.some.inj (h.symm.trans (congrArg Run.error? run))
    exact .lexer asks next
  · obtain ⟨rfl, rfl⟩ := Prod.mk.inj (scan.symm.trans bare)
    rcases outcome with ⟨⟨⟩, -⟩ | ⟨_, ⟨⟩, -⟩ | ⟨_, error', ⟨⟩, step⟩
    have run := asks.recognize_eq.trans (recognizeFrom_of_error scan step)
    obtain rfl := Option.some.inj (h.symm.trans (congrArg Run.error? run))
    have text := Lexer.isEmpty_text_of_next next
    have fails : token.kind.accepts token.text = false := by
      rw [Bool.eq_false_iff]
      intro accepts
      obtain ⟨longer, read⟩ := Chart.step_of_accepts text (Lexer.mem_of_next next) accepts
      obtain ⟨⟩ := step.symm.trans read
    have loses : token.kind.Loses M token.text.toList after.rest := by
      by_contra kept
      obtain ⟨⟩ := fails.symm.trans (Lexer.accepts_of_next next kept)
    rw [Chart.eq_unexpected_of_step text step]
    exact .token asks next loses fails

/-- **A token passes the test of its own pattern**, unless this loses its match when the text behind
the token is cut off.

What a pattern matches at the beginning of a text, it accepts as a whole text.  Every token of the
lexer passes the test of its kind.  A parse that asks the lexer and leaves it to the tests what a
token is read as reads every token that it is given: it stops where the lexer fails, with the error
of the lexer.  Only a pattern with a condition on word boundaries at the end of a match loses a
match, and only before a character of a word. -/
theorem acceptance_of_matches (M : E.Matching) :
    (∀ (pattern : Pattern E) (part rest : List Char),
        pattern.matchEnd? (part ++ rest) = some (byteLength part) →
          (¬ pattern.Loses M part rest → pattern.accepts (String.ofList part) = true)
            ∧ (pattern.Loses M part rest →
              pattern.Watches M ∧ ∃ c ∈ rest.head?, M.isWord c = true))
      ∧ (∀ (lexer after : Lexer) (expected : List (Pattern E)) (token : Token (Pattern E)),
        lexer.next expected = (.ok (some token), after) →
          ¬ token.kind.Loses M token.text.toList after.rest →
            token.kind.accepts token.text = true)
      ∧ ∀ (g : Grammar (Pattern E)) (lexer : Lexer) (error : ParseError (Pattern E)),
        parse g Lexer.bareTokenizer Pattern.accepts lexer = .error error →
          BareStop M g lexer error := by
  refine ⟨fun pattern part rest matched => ⟨Pattern.accepts_of_not_loses matched, ?_⟩,
    fun _ _ _ _ => Lexer.accepts_of_next, fun g lexer error fails => BareStop.of_recognize ?_⟩
  · exact Pattern.Loses.watches matched
  · rw [parse, Run.forest] at fails
    split at fails
    · rename_i stopped
      rwa [← Except.error.inj fails]
    · cases fails

/-- The letters up to the end of a word. -/
def closedWord : Pattern .standard := .ofSource "[a-z]+\\b"

def closedWordGrammar : Grammar (Pattern .standard) := .ofList "S" [⟨"S", [.terminal closedWord]⟩]

/-- Before a blank the end of a word is one in any case. -/
theorem acceptance_of_matches_closedWord :
    closedWord.matchEnd? ("ab".toList ++ " 1".toList) = some (byteLength "ab".toList)
      ∧ ¬ closedWord.Loses Engine.standardMatching "ab".toList " 1".toList
      ∧ closedWord.accepts (String.ofList "ab".toList) = true
      ∧ ((Lexer.ofString "ab 1").next [closedWord]).1 = .ok (some ⟨closedWord, "ab", 0, 2⟩)
      ∧ closedWord.accepts "ab" = true
      ∧ BareStop Engine.standardMatching closedWordGrammar (.ofString "ab 1")
          (.unexpected 3 []) := by
  obtain ⟨whole, token, run⟩ := acceptance_of_matches Engine.standardMatching
  have matched : closedWord.matchEnd? ("ab".toList ++ " 1".toList)
      = some (byteLength "ab".toList) := by decide +kernel
  obtain ⟨accepts, loses⟩ := whole _ _ _ matched
  have kept : ¬ closedWord.Loses Engine.standardMatching "ab".toList " 1".toList := by
    intro lost
    obtain ⟨-, c, behind, word⟩ := loses lost
    obtain rfl : ' ' = c := Option.some.inj behind
    exact absurd word (by decide +kernel)
  have given : (Lexer.ofString "ab 1").next [closedWord]
      = (.ok (some ⟨closedWord, "ab", 0, 2⟩), ⟨2, " 1".toList⟩) :=
    Prod.ext (by decide +kernel) rfl
  have stopped : (recognize closedWordGrammar Lexer.bareTokenizer Pattern.accepts
      (.ofString "ab 1")).error? = some (.unexpected 3 []) := by decide +kernel
  refine ⟨matched, kept, accepts kept, congrArg Prod.fst given, token _ _ _ _ given kept,
    run _ _ _ ?_⟩
  rw [parse, Run.forest, stopped]

/-- A letter inside of a word. -/
def insideWord : Pattern .standard := .ofSource "a\\B"

def insideWordGrammar : Grammar (Pattern .standard) :=
  .ofList "S" [⟨"S", [.terminal insideWord, .terminal (.ofSource "b")]⟩]

/-- **A token may fail the test of its own pattern**: its text alone is not inside of a word. -/
theorem not_accepts_insideWord :
    insideWord.matchEnd? "ab".toList = some 1
      ∧ insideWord.accepts (String.ofList ("ab".toList.take 1)) = false
      ∧ ((Lexer.ofString "ab").next [insideWord]).1 = .ok (some ⟨insideWord, "a", 0, 1⟩)
      ∧ parse insideWordGrammar Lexer.bareTokenizer Pattern.accepts (.ofString "ab")
        = .error (.unexpected 0 [insideWord]) := by
  have stopped : (recognize insideWordGrammar Lexer.bareTokenizer Pattern.accepts
      (.ofString "ab")).error? = some (.unexpected 0 [insideWord]) := by decide +kernel
  refine ⟨by decide +kernel, by decide +kernel, by decide +kernel, ?_⟩
  rw [parse, Run.forest, stopped]

end Bare

end Earley
