import Earley.Proofs.RuleText.Lines
import Earley.Proofs.RuleText.Writing

/-!
# Proofs/RuleText/RoundTrip — what was written is read again

A written rule is still one without the blanks at its ends (`Written.trim`), and reading it gives
the productions that it was written from.  The lines of a text of rules are read one by one, so that
a text with a written rule on every line gives the productions of all of them in their order.
-/

namespace Earley.RuleText

open Unicode (isBlank)

variable {E : Engine} {symbol : Symbol (Pattern E)} {symbols : List (Symbol (Pattern E))}
  {name : String}
  {sequences : List (List (Symbol (Pattern E)))} {text line : List Char}

/-! ## From atoms to productions -/

/-- Elements that are each read as what they were made from are read together. -/
theorem mapM_map_of_eq_ok {ε α β γ : Type} {read : α → Except ε β} {write : γ → α}
    {source : γ → β}
    (h : ∀ x, read (write x) = .ok (source x)) (xs : List γ) :
    (xs.map write).mapM read = .ok (xs.map source) := by
  have each : read ∘ write = fun x => pure (source x) := funext h
  rw [List.mapM_map, each, List.mapM_pure]
  rfl

/-- The source of a pattern makes the same pattern again. -/
theorem compile_source (matcher : Matcher E) :
    Pattern.compile E matcher.source = .ok (.regex matcher) := by
  cases compiled : Matcher.compile E matcher.source with
  | ok again =>
    rw [Pattern.compile, compiled, Matcher.ext_source (Matcher.source_of_compile compiled)]
    rfl
  | error refusal =>
    rw [Matcher.compile] at compiled
    split at compiled
    · rename_i refused
      cases refused.symm.trans matcher.atStart_eq
    · split at compiled
      · rename_i refused
        cases refused.symm.trans matcher.whole_eq
      · cases compiled

theorem symbol_atomOf (symbol : Symbol (Pattern E)) :
    (atomOf symbol).symbol E = .ok symbol := by
  rcases symbol with (text | matcher) | name
  · rfl
  · simp only [atomOf, Atom.symbol, compile_source]
  · rfl

theorem productionOf_map (name : String) (symbols : List (Symbol (Pattern E))) :
    productionOf E name (symbols.map atomOf) = .ok ⟨name, symbols⟩ := by
  rw [productionOf, mapM_map_of_eq_ok symbol_atomOf, List.map_id']
  rfl

/-- **A written rule is read** as its name and its alternatives. -/
theorem Written.readRule (h : Written name sequences text) :
    readRule E (String.ofList text) = .ok (name, sequences.map (List.map atomOf)) := by
  rw [← String.toList_ofList (l := text)] at h
  exact readRule_of_complete h.scanRule

/-- **The productions of a written rule** are those of its alternatives. -/
theorem Written.ruleProductions (h : Written name sequences text) :
    ruleProductions E (String.ofList text)
      = .ok (sequences.map fun symbols => ⟨name, symbols⟩) := by
  rw [RuleText.ruleProductions, h.readRule]
  exact mapM_map_of_eq_ok (productionOf_map name) sequences

/-! ## Without the blanks at the ends -/

/-- Blanks at the ends are dropped, and only those. -/
theorem trim_of_allBlank {lead trail : List Char} {c : Char} (leads : AllBlank lead)
    (trails : AllBlank trail) (first : isBlank c = false)
    (last : ∀ d ∈ (c :: text).getLast?, isBlank d = false) :
    trim (lead ++ ((c :: text) ++ trail)) = c :: text := by
  have front : (lead ++ ((c :: text) ++ trail)).dropWhile isBlank = (c :: text) ++ trail := by
    refine dropWhile_append_of_stop leads ?_
    rintro _ ⟨⟩
    exact first
  have back : (trail.reverse ++ (c :: text).reverse).dropWhile isBlank = (c :: text).reverse := by
    refine dropWhile_append_of_stop (fun d mem => trails d (List.mem_reverse.1 mem)) ?_
    rwa [List.head?_reverse]
  rw [trim, front, List.reverse_append, back, List.reverse_reverse]

/-- The end of a text does not change if more of it stands in front. -/
theorem not_isBlank_last_append {c : Char} (front : List Char) (solid : isBlank c = false)
    (h : ∀ d ∈ text.getLast?, isBlank d = false) :
    ∀ d ∈ (front ++ c :: text).getLast?, isBlank d = false := by
  rw [List.getLast?_append, List.getLast?_cons]
  cases last : text.getLast? with
  | none =>
    rintro _ ⟨⟩
    exact solid
  | some d =>
    rintro _ ⟨⟩
    exact h d last

theorem WrittenSequence.not_isBlank_last (h : WrittenSequence symbols text) :
    ∀ c ∈ text.getLast?, isBlank c = false := by
  induction h with
  | nil => exact nofun
  | @cons symbol symbols gap text quote _ writable quotes _ _ ih =>
    obtain ⟨front, last, same, solid⟩ := writable.exists_last quotes
    have split : gap ++ (spelling quote symbol ++ text) = (gap ++ front) ++ last :: text := by
      simp [same]
    rw [split]
    exact not_isBlank_last_append _ solid ih

theorem WrittenBody.not_isBlank_last (h : WrittenBody sequences text) :
    ∀ c ∈ text.getLast?, isBlank c = false := by
  induction h with
  | one sequence => exact sequence.not_isBlank_last
  | more _ _ _ ih =>
    rw [← List.append_assoc]
    exact not_isBlank_last_append _ (by decide) ih

/-- **A written rule without the blanks at its ends** is one still, and it is no comment. -/
theorem Written.trim (h : Written name sequences text) :
    Written name sequences (trim text) ∧ isRule (trim text) = true := by
  obtain @⟨lead, gap, body, trail, named, leads, blank, inner, trails⟩ := h
  obtain ⟨c, rest, same, start, -⟩ := id named
  have core : name.toList ++ (gap ++ '-' :: '>' :: body)
      = c :: (rest ++ (gap ++ '-' :: '>' :: body)) := by
    rw [same, List.cons_append]
  have last : ∀ d ∈ (name.toList ++ (gap ++ '-' :: '>' :: body)).getLast?, isBlank d = false := by
    rw [← List.append_assoc]
    exact not_isBlank_last_append _ (by decide)
      (not_isBlank_last_append ([] : List Char) (by decide) inner.not_isBlank_last)
  have trimmed : RuleText.trim (lead ++ (name.toList ++ (gap ++ '-' :: '>' :: body) ++ trail))
      = name.toList ++ (gap ++ '-' :: '>' :: body) := by
    rw [core] at last ⊢
    exact trim_of_allBlank leads trails
      (isBlank_of_isNameRest (isNameRest_of_isNameStart start)) last
  rw [trimmed]
  constructor
  · have alone := @Written.rule E name sequences [] gap body [] named nofun blank inner nofun
    rwa [List.nil_append, List.append_nil] at alone
  · have mark : c ≠ '#' := by
      rintro rfl
      exact absurd start (by decide)
    simpa [core, isRule] using mark

/-! ## Lines -/

/-- **Lines that are put together** are taken apart again. -/
theorem lines_intercalate {all : List (List Char)} (h : ∀ line ∈ all, '\n' ∉ line)
    (some : all ≠ []) : lines (['\n'].intercalate all) = all := by
  induction all with
  | nil => exact absurd rfl some
  | cons line all ih =>
    obtain ⟨first, others⟩ := List.forall_mem_cons.1 h
    cases all with
    | nil => rw [List.intercalate_singleton, lines_of_not_mem first]
    | cons second all =>
      rw [List.intercalate_cons_cons, List.append_assoc, List.singleton_append, lines_append,
        lines_of_not_mem first, ih others (List.cons_ne_nil _ _), List.singleton_append]

/-! ## Rules on lines -/

/-- **A line with a rule** that is written on it. -/
structure RuleLine (E : Engine) where
  name : String
  sequences : List (List (Symbol (Pattern E)))
  text : List Char
  written : Written name sequences text
  single : '\n' ∉ text

namespace RuleLine

/-- The productions that a line is written from. -/
def productions (rule : RuleLine E) : List (Production (Pattern E)) :=
  rule.sequences.map fun symbols => ⟨rule.name, symbols⟩

/-- **A text with a rule on every line.** -/
def textOf (rules : List (RuleLine E)) : String :=
  String.ofList (['\n'].intercalate (rules.map RuleLine.text))

/-- Every line with a written rule is a line with a rule. -/
theorem ruleLines_textOf {rules : List (RuleLine E)} (some : rules ≠ []) :
    ruleLines (textOf rules) = ((rules.map RuleLine.text).map trim).zipIdx 1 := by
  have alone : ∀ line ∈ rules.map RuleLine.text, '\n' ∉ line :=
    List.forall_mem_map.2 fun rule _ => rule.single
  rw [ruleLines, textOf, String.toList_ofList, lines_intercalate alone (by simpa using some),
    List.filter_eq_self]
  rintro ⟨line, number⟩ mem
  have trimmed : line ∈ (rules.map RuleLine.text).map trim := List.fst_mem_of_mem_zipIdx mem
  obtain ⟨_, written, rfl⟩ := List.mem_map.1 trimmed
  obtain ⟨rule, -, rfl⟩ := List.mem_map.1 written
  exact rule.written.trim.2

/-- **The rules of a text are read line by line.** -/
theorem productions_textOf (rules : List (RuleLine E)) :
    RuleText.productions E (textOf rules) = .ok (rules.flatMap productions) := by
  by_cases some : rules = []
  · subst some
    rfl
  · have found : ((rules.zipIdx 1).map (Prod.map (trim ∘ RuleLine.text) id)).mapM
          (fun entry => (ruleProductions E (String.ofList entry.1)).mapError (RuleError.mk entry.2))
        = .ok ((rules.zipIdx 1).map fun entry => entry.1.productions) := by
      refine mapM_map_of_eq_ok (fun entry => ?_) _
      change Except.mapError _ (ruleProductions E (String.ofList (trim entry.1.text))) = _
      rw [entry.1.written.trim.1.ruleProductions]
      rfl
    have same : (rules.zipIdx 1).map (fun entry => entry.1.productions)
        = rules.map RuleLine.productions := by
      nth_rewrite 2 [← List.zipIdx_map_fst 1 rules]
      rw [List.map_map]
      rfl
    rw [same] at found
    rw [RuleText.productions, ruleLines_textOf some, List.map_map, List.zipIdx_map,
      List.flatMap_def]
    exact congrArg (Except.map List.flatten) found

end RuleLine

/-- **Rules are read as they were written.**  A production that was written as a rule of its own is
read as the same production; and the productions of a text with a written rule on every line are
those of all its rules, in their order. -/
theorem read_written (E : Engine) :
    (∀ (name : String) (symbols : List (Symbol (Pattern E))) (text : String),
        Written name [symbols] text.toList → production E text = .ok ⟨name, symbols⟩)
      ∧ ∀ rules : List (RuleLine E),
        productions E (RuleLine.textOf rules) = .ok (rules.flatMap RuleLine.productions) := by
  refine ⟨fun name symbols text written => ?_, RuleLine.productions_textOf⟩
  rw [production, written.trim.1.readRule]
  exact congrArg (Except.mapError _) (productionOf_map name symbols)

/-- A rule with both kinds of quotes, an escaped quote, an escaped backslash and an escaped
slash. -/
theorem read_written_escapes :
    production .standard " a->'it\\'s'  b \"\\\\\" /x\\/y/"
      = .ok ⟨"a", [.terminal (.literal "it's"), .nonterminal "b", .terminal (.literal "\\"),
          .terminal (.ofSource "x/y")]⟩ := by
  have blank : AllBlank [' '] := by decide
  have apart : ∀ {text : List Char}, ∀ c ∈ (' ' :: text).head?, isBlank c = true := by
    rintro _ _ ⟨⟩
    decide
  have last : @WrittenSequence .standard [.terminal (.ofSource "x/y")] _ :=
    .cons blank (show isSlashable _ = true by decide +kernel) (.inl rfl) .nil nofun
  have third : WrittenSequence (.terminal (.literal "\\") :: _) _ :=
    .cons blank trivial (.inl rfl) last apart
  have second : WrittenSequence (.nonterminal "b" :: _) _ :=
    .cons (by decide : AllBlank [' ', ' ']) ⟨'b', [], rfl, by decide, nofun⟩ (.inl rfl) third apart
  have first : WrittenSequence (.terminal (.literal "it's") :: _) _ :=
    .cons (by decide : AllBlank []) trivial (.inr rfl) second apart
  have rule := @Written.rule .standard "a" _ [' '] [] _ [] ⟨'a', [], rfl, by decide, nofun⟩ blank
    nofun (.one first) nofun
  refine (read_written .standard).1 _ _ _ ?_
  convert rule using 1
  decide +kernel

end Earley.RuleText
