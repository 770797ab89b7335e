import Earley.Proofs.Forest.Acceptance
import Earley.Proofs.RuleText.Reading
import Earley.Proofs.TextParse

/-!
# Proofs/RuleText/Agreement — parsing a rule is reading it from left to right

The scanner keeps step with the run of the parser over the text of a rule: it is asked for what is
admissible and reads what the lexer takes (`exists_read_of_asks`).  So both end in the same way.  A
body that is complete has one derivation, and evaluating it gives the alternatives that the scanner
has read; a rule that ends before its body has none; and where the lexer finds no token, the scanner
is stuck.
-/

namespace Earley.RuleText

variable {text : String} {chart : Chart (Pattern .standard)} {lexer : Lexer}
  {kind : Pattern .standard} {progress : Progress}
  {equals : String → Pattern .standard → Bool} {name : String} {sequences : List (List Atom)}

/-! ## Keeping step -/

theorem reads_eq_kindAt
    (asks : Asks grammar Lexer.tokenizer equals (.ofString text) chart lexer) :
    chart.Reads = KindAt chart.tokens :=
  (Grammar.reading_of_asks asks).reads_eq_kindAt

/-- **The lexer is asked for what is admissible.** -/
theorem mem_expected_iff
    (asks : Asks grammar Lexer.tokenizer equals (.ofString text) chart lexer)
    (read : Read chart.tokens.toList progress) :
    kind ∈ chart.frontier.expected grammar ↔ kind ∈ progress.admissible := by
  rw [(Grammar.reading_of_asks asks).mem_expected_iff, reads_eq_kindAt asks]
  exact read.awaits_iff

/-- **At every question of a run** the scanner is where the lexer is. -/
theorem exists_read_of_asks
    (asks : Asks grammar Lexer.tokenizer equals (.ofString text) chart lexer) :
    ∃ progress, Read chart.tokens.toList progress ∧ scanRule text = progress.finish lexer.rest := by
  induction asks with
  | start => exact ⟨.start, .start, rfl⟩
  | @step chart longer lexer next scan asks answer step ih =>
    obtain ⟨progress, read, same⟩ := ih
    obtain ⟨kind, length, longer', -, takes, rfl, step', tokens, -⟩ :=
      (Grammar.reading_of_asks asks).exists_push equals answer
    obtain rfl := Except.ok.inj (step.symm.trans step')
    have admitted : (lexer.skipBlanks.tokenOf kind length).kind ∈ progress.admissible :=
      (mem_expected_iff asks read).1 takes.mem
    refine ⟨progress.push (lexer.skipBlanks.tokenOf kind length), ?_, ?_⟩
    · rw [tokens, Array.toList_push]
      exact read.push admitted
    · rw [same]
      exact Progress.finish_of_some lexer.rest_skipBlanks.symm
        (Progress.scan?_of_match admitted takes.matched rfl)

/-! ## Forests of rules -/

/-- **Before the arrow was read there is no derivation.** -/
theorem roots_eq_nil {f : Forest (Pattern .standard)} (rules : f.grammar = grammar)
    (packs : f.Packs (KindAt f.tokens)) (few : f.tokens.size < 2) : f.roots = [] := by
  by_contra present
  have derives := packs.roots_ne_nil_iff.1 present
  rw [rules] at derives
  obtain ⟨trees, derivation⟩ := derives_iff_exists_derivation.1 derives
  obtain ⟨tree, _, stop, rfl, derivation, tail⟩ := derivation_nonterminal_iff.1 derivation
  obtain ⟨-, rfl⟩ := derivation_nil_iff.1 tail
  obtain ⟨_, -, -, -, inner⟩ := derivation_rule.1 derivation
  have le := inner.derives.le
  omega

/-- **A rule with a body has one derivation**, and evaluating this gives its name and alternatives;
no production is reduced from arguments that it has no meaning for. -/
theorem evaluate_rule {f : Forest (Pattern .standard)} (rules : f.grammar = grammar)
    (packs : f.Packs (KindAt f.tokens)) (read : Read f.tokens.toList (.body name sequences)) :
    ∃ root r reductions, f.roots = [root] ∧ f.count root = some 1
      ∧ (f.choose semantics.chooser root).resolution? = some r
      ∧ f.evaluate semantics r root = ⟨reductions, .ok (.rule name sequences)⟩
      ∧ f.accept semantics root = some (.rule name sequences)
      ∧ ∀ reduction ∈ reductions.toList,
          semantics.reduce reduction.production reduction.args ≠ .nothing := by
  obtain ⟨tree, means⟩ := read.exists_means
  have derivation : Derivation f.grammar (KindAt f.tokens) [.nonterminal f.grammar.entry] [tree] 0
      f.tokens.size := by
    rw [rules]
    exact means.derivation
  have single : ∀ index kind kind', KindAt f.tokens index kind → KindAt f.tokens index kind' →
      kind = kind' := fun _ _ _ => KindAt.eq
  obtain ⟨root, roots, trees⟩ := packs.exists_roots_eq_singleton derivation fun other own => by
    rw [rules] at own
    exact unique_rule single own means.derivation
  obtain ⟨count, r, reductions, chosen, evaluated, accepted, made⟩ :=
    packs.evaluate_of_singleton (fun _ _ => KindAt.lt) rfl trees means.value
  obtain ⟨_, -, -, meaningful⟩ := fits_of_derivation (fun _ _ => KindAt.lt) means.derivation
  refine ⟨root, r, reductions, roots, count, chosen, evaluated, accepted, fun reduction mem => ?_⟩
  obtain ⟨inner, memInner, same, args⟩ := ReductionsOf.exists_inner made mem
  rw [same]
  exact meaningful inner (by simpa [Tree.postorders] using memInner) _ args

/-! ## Agreement -/

theorem nodup_admissible : progress.admissible.Nodup := by
  cases progress with
  | start => exact List.nodup_singleton _
  | named name => exact List.nodup_singleton _
  | body name sequences => exact nodup_lexemeKinds

/-- **A rule is read as the scanner reads it**, or refused where the scanner ends too early or is
stuck.  There is never another fault. -/
theorem readRule_cases (E : Engine) (text : String) :
    (∃ name sequences, scanRule text = .complete name sequences ∧ sequences ≠ []
        ∧ readRule E text = .ok (name, sequences))
      ∨ scanRule text = .incomplete ∧ readRule E text = .error .incomplete
      ∨ ∃ rest admissible pos expected, scanRule text = .stuck rest admissible
        ∧ readRule E text = .error (.notRead (.unexpected pos expected)) := by
  obtain ⟨chart, lexer, asks, ends⟩ := grammar.parse_cases text
  obtain ⟨progress, read, same⟩ := exists_read_of_asks asks
  rcases ends with ⟨ends, parsed, packs⟩ | ⟨further, error, refuses, parsed⟩
  · rw [Lexer.rest_skipBlanks] at ends
    rw [Progress.finish_of_blank ends] at same
    rcases read.atEnd_cases with ⟨early, few⟩ | ⟨name, sequences, rfl⟩
    · refine .inr (.inl ⟨same.trans early, ?_⟩)
      simp only [readRule, parsed, roots_eq_nil rfl packs few]
    · obtain ⟨root, _, _, roots, count, -, -, accepted, -⟩ := evaluate_rule rfl packs read
      obtain ⟨-, -, -, body⟩ := read.holds List.prefix_rfl
      refine .inl ⟨name, sequences, same, body.ne_nil, ?_⟩
      simp only [readRule, parsed, roots, count, accepted, if_true]
  · cases refuses with
    | unexpected unmatched =>
      have stuck : progress.scan? lexer.skipBlanks.rest = none :=
        Progress.scan?_eq_none fun pattern mem =>
          unmatched pattern ((mem_expected_iff asks read).2 mem)
      rw [Progress.finish_of_none lexer.rest_skipBlanks.symm further stuck] at same
      refine .inr (.inr ⟨_, _, lexer.skipBlanks.offset, chart.frontier.expected grammar, same, ?_⟩)
      simp only [readRule, parsed]
    | emptyToken matched empty =>
      obtain ⟨pattern, mem, matched⟩ := matched
      exact absurd (Progress.matchLength_pos ((mem_expected_iff asks read).1 mem) matched)
        (Nat.lt_irrefl 0)

/-- **A rule that the scanner completes is read** with the same name and alternatives. -/
theorem readRule_of_complete {E : Engine} (h : scanRule text = .complete name sequences) :
    readRule E text = .ok (name, sequences) := by
  rcases readRule_cases E text with ⟨_, _, same, -, read⟩ | ⟨same, -⟩ | ⟨_, _, _, _, same, -⟩
  · obtain ⟨rfl, rfl⟩ := Outcome.complete.inj (h.symm.trans same)
    exact read
  · cases h.symm.trans same
  · cases h.symm.trans same

/-- **Parsing a rule is reading it from left to right.**  Where the scanner completes the rule, it
has one derivation, whose evaluation reduces every production from arguments that it has a meaning
for and gives the same name and the same alternatives.  Where the text ends before the arrow was
read, the rule is incomplete.  Where the scanner is stuck, no admissible pattern matches, and the
error has the offset of that place and the kinds that are admissible there. -/
theorem readRule_scan (E : Engine) (text : String) :
    match scanRule text with
    | .complete name sequences => readRule E text = .ok (name, sequences)
        ∧ ∃ f root r reductions, grammar.parse text = .ok f ∧ f.roots = [root]
          ∧ f.count root = some 1 ∧ (f.choose semantics.chooser root).resolution? = some r
          ∧ f.evaluate semantics r root = ⟨reductions, .ok (.rule name sequences)⟩
          ∧ ∀ reduction ∈ reductions.toList,
              semantics.reduce reduction.production reduction.args ≠ .nothing
    | .incomplete => readRule E text = .error .incomplete
    | .stuck rest admissible => ∃ before expected,
        readRule E text = .error (.notRead (.unexpected (byteLength before) expected))
          ∧ text.toList = before ++ rest ∧ rest ≠ [] ∧ expected.Perm admissible
          ∧ ∀ pattern ∈ admissible, pattern.matchLength? rest = none := by
  obtain ⟨chart, lexer, asks, ends⟩ := grammar.run_cases text
  obtain ⟨progress, read, same⟩ := exists_read_of_asks asks
  rcases ends with ⟨ends, run⟩ | ⟨further, error, refuses, -, run⟩
  · have parsed : grammar.parse text = .ok (.ofChart grammar chart) := by
      rw [Grammar.parse, run]
      rfl
    have reading := Grammar.reading_of_asks asks
    have packs := Forest.packs_ofChart reading.sound reading.saturated
    rw [reads_eq_kindAt asks] at packs
    rw [Lexer.rest_skipBlanks] at ends
    rw [same, Progress.finish_of_blank ends]
    rcases read.atEnd_cases with ⟨early, few⟩ | ⟨name, sequences, rfl⟩
    · have roots := roots_eq_nil rfl packs few
      simp only [early, readRule, parsed, roots]
    · obtain ⟨root, r, reductions, roots, count, chosen, evaluated, accepted, meaningful⟩ :=
        evaluate_rule rfl packs read
      refine ⟨?_, _, root, r, reductions, parsed, roots, count, chosen, evaluated, meaningful⟩
      simp only [readRule, parsed, roots, count, accepted, if_true]
  · have fails : readRule E text = .error (.notRead error) := by
      rw [readRule, Grammar.parse, run]
      rfl
    have expected : (chart.frontier.expected grammar).Perm progress.admissible :=
      (List.perm_ext_iff_of_nodup ItemSet.nodup_expected nodup_admissible).2 fun _ =>
        mem_expected_iff asks read
    cases refuses with
    | unexpected unmatched =>
      have nowhere : ∀ pattern ∈ progress.admissible,
          pattern.matchLength? lexer.skipBlanks.rest = none :=
        fun pattern mem => unmatched pattern (expected.mem_iff.2 mem)
      obtain ⟨before, split, offset⟩ := lexer.skips_skipBlanks.exists_before
        (Grammar.reading_of_asks asks).behind.exists_before
      rw [same, Progress.finish_of_none lexer.rest_skipBlanks.symm further
        (Progress.scan?_eq_none nowhere)]
      exact ⟨before, _, offset ▸ fails, split, further, expected, nowhere⟩
    | emptyToken matched empty =>
      obtain ⟨pattern, mem, matched⟩ := matched
      exact absurd (Progress.matchLength_pos (expected.mem_iff.1 mem) matched) (Nat.lt_irrefl 0)

end Earley.RuleText
