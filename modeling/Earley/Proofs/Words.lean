import Earley.Proofs.Forest.Packing
import Earley.Proofs.TextParse

/-!
# Proofs/Words — texts that are laid out in words are parsed as these words

A word is a text with the kind of token that it is to be read as.  Words are laid out in a text with
blanks around them, so that where each of them stands the pattern of its kind matches just as far as
the word goes and no other pattern of the grammar matches at all (`Laid`).  If the words derive from
the entry, a run over the text reads exactly them (`exists_forest_of_laid`): whatever is still to
come begins with a word of a kind that is awaited there.
-/

namespace Earley

open Unicode (isBlank)

variable {E : Engine}

/-- **A word**: a text and the kind of token that it is to be read as. -/
structure Word (E : Engine) where
  kind : Pattern E
  text : String

/-- The word that a token was read as. -/
def wordOf (token : Token (Pattern E)) : Word E := ⟨token.kind, token.text⟩

/-- A token that is read as a word. -/
def Word.token (word : Word E) : Token (Pattern E) := ⟨word.kind, word.text, 0, 0⟩

theorem map_wordOf_token (words : List (Word E)) : (words.map Word.token).map wordOf = words := by
  have same : wordOf ∘ Word.token = (id : Word E → Word E) := rfl
  rw [List.map_map, same, List.map_id]

/-- **Words with blanks** before, between and behind them, as many as one likes. -/
inductive Spaced : List (Word E) → List Char → Prop
  | nil {gap : List Char} (blank : AllBlank gap) : Spaced [] gap
  | cons {word : Word E} {words : List (Word E)} {gap rest : List Char} (blank : AllBlank gap)
      (others : Spaced words rest) : Spaced (word :: words) (gap ++ (word.text.toList ++ rest))

/-- **A text is laid out in words** with blanks around them: where a word stands, the pattern of its
kind matches as far as the word goes, and no other of the kinds matches. -/
inductive Laid (kinds : List (Pattern E)) : List (Word E) → List Char → Prop
  | nil {gap : List Char} (blank : AllBlank gap) : Laid kinds [] gap
  | cons {word : Word E} {words : List (Word E)} {gap rest : List Char} (blank : AllBlank gap)
      (present : word.text ≠ "") (first : ∀ c ∈ word.text.toList.head?, isBlank c = false)
      (own : word.kind.matchLength? (word.text.toList ++ rest) = some word.text.toList.length)
      (alone : ∀ kind ∈ kinds, ∀ length,
        kind.matchLength? (word.text.toList ++ rest) = some length → kind = word.kind)
      (others : Laid kinds words rest) :
      Laid kinds (word :: words) (gap ++ (word.text.toList ++ rest))

/-- **A word stands clear** in front of a text: the pattern of its kind matches as far as the word
goes, and no other of the kinds matches. -/
structure Word.Clear (kinds : List (Pattern E)) (word : Word E) (rest : List Char) : Prop where
  present : word.text ≠ ""
  first : ∀ c ∈ word.text.toList.head?, isBlank c = false
  own : word.kind.matchLength? (word.text.toList ++ rest) = some word.text.toList.length
  alone : ∀ kind ∈ kinds, ∀ length,
    kind.matchLength? (word.text.toList ++ rest) = some length → kind = word.kind

/-- **Words stand at a position** among tokens. -/
def WordsAt (tokens : Array (Token (Pattern E))) : Nat → List (Word E) → Prop
  | _, [] => True
  | pos, word :: words => tokens[pos]?.map wordOf = some word ∧ WordsAt tokens (pos + 1) words

variable {g : Grammar (Pattern E)} {kinds : List (Pattern E)} {words words' : List (Word E)}
  {word : Word E} {tokens : Array (Token (Pattern E))} {pos : Nat} {text : String}
  {chart : Chart (Pattern E)} {lexer : Lexer} {equals : String → Pattern E → Bool}

/-! ## Words among tokens -/

theorem wordsAt_append : WordsAt tokens pos (words ++ words')
    ↔ WordsAt tokens pos words ∧ WordsAt tokens (pos + words.length) words' := by
  induction words generalizing pos with
  | nil => exact (iff_of_eq (true_and _)).symm
  | cons word words ih =>
    have place : pos + (word :: words).length = pos + 1 + words.length := by
      rw [List.length_cons]
      omega
    rw [List.cons_append, WordsAt, WordsAt, ih, and_assoc, place]

/-- Tokens stand where they were read as words. -/
theorem wordsAt_of_append {front rest : List (Token (Pattern E))}
    (split : tokens.toList = front ++ rest) : WordsAt tokens front.length (rest.map wordOf) := by
  induction rest generalizing front with
  | nil => trivial
  | cons token rest ih =>
    have place : tokens[front.length]? = some token := by
      rw [← Array.getElem?_toList, split]
      simp
    have further : tokens.toList = (front ++ [token]) ++ rest := by
      rw [split, List.append_assoc, List.singleton_append]
    have behind := ih further
    rw [List.length_append, List.length_singleton] at behind
    exact ⟨by rw [place, Option.map_some], behind⟩

theorem wordsAt_zero (spelled : tokens.toList.map wordOf = words) : WordsAt tokens 0 words :=
  spelled ▸ wordsAt_of_append (List.nil_append _).symm

theorem getElem?_of_spelled (spelled : tokens.toList.map wordOf = words) :
    tokens[pos]?.map wordOf = words[pos]? := by
  rw [← spelled, List.getElem?_map, Array.getElem?_toList]

theorem size_of_spelled (spelled : tokens.toList.map wordOf = words) :
    tokens.size = words.length := by
  rw [← spelled, List.length_map, Array.length_toList]

/-- Tokens are of the kinds of the words that they spell. -/
theorem kindAt_iff_of_spelled (spelled : tokens.toList.map wordOf = words) {kind : Pattern E} :
    KindAt tokens pos kind ↔ ∃ word, words[pos]? = some word ∧ word.kind = kind := by
  rw [← getElem?_of_spelled spelled]
  constructor
  · rintro ⟨token, place, rfl⟩
    exact ⟨wordOf token, by rw [place, Option.map_some], rfl⟩
  · rintro ⟨_, spells, rfl⟩
    obtain ⟨token, place, rfl⟩ := Option.map_eq_some_iff.1 spells
    exact ⟨token, place, rfl⟩

/-! ## Reading words -/

/-- **Words that stand clear are laid out** wherever blanks are put between them. -/
theorem Spaced.laid_of_clear {words : List (Word E)} {text : List Char} (spaced : Spaced words text)
    (clear : ∀ word back, (word :: back).IsSuffix words → ∀ rest, Spaced back rest →
      word.Clear kinds rest) : Laid kinds words text := by
  induction spaced with
  | nil blank => exact .nil blank
  | cons blank others ih =>
    obtain ⟨present, first, own, alone⟩ := clear _ _ (List.suffix_refl _) _ others
    exact .cons blank present first own alone
      (ih fun word back suffix => clear word back (suffix.trans (List.suffix_cons _ _)))

namespace Laid

theorem skipBlanks_nil (h : Laid kinds [] lexer.rest) : lexer.skipBlanks.rest = [] := by
  generalize same : lexer.rest = text at h
  cases h with
  | nil blank => rw [lexer.rest_skipBlanks, same, List.dropWhile_eq_nil_iff.2 blank]

/-- **Behind the blanks** stands the first word. -/
theorem skipBlanks_cons (h : Laid kinds (word :: words) lexer.rest) :
    ∃ rest, lexer.skipBlanks.rest = word.text.toList ++ rest ∧ word.text ≠ ""
      ∧ word.kind.matchLength? lexer.skipBlanks.rest = some word.text.toList.length
      ∧ (∀ kind ∈ kinds, ∀ length,
          kind.matchLength? lexer.skipBlanks.rest = some length → kind = word.kind)
      ∧ Laid kinds words rest := by
  generalize same : lexer.rest = text at h
  cases h with
  | @cons _ _ gap rest blank present first own alone others =>
    have begins : ∀ c ∈ (word.text.toList ++ rest).head?, isBlank c = false := by
      obtain ⟨c, tail, split⟩ := List.exists_cons_of_ne_nil
        (show word.text.toList ≠ [] by simpa using present)
      rw [split, List.cons_append]
      rw [split] at first
      exact first
    have ahead : lexer.skipBlanks.rest = word.text.toList ++ rest := by
      rw [lexer.rest_skipBlanks, same, dropWhile_append_of_stop blank begins]
    rw [ahead]
    exact ⟨rest, rfl, present, own, alone, others⟩

end Laid

/-- **At every question of a run** the words that were read are behind the lexer and the others in
front of it. -/
theorem exists_laid_of_asks (terminals : ∀ id kind, .terminal kind ∈ g.symbols id → kind ∈ kinds)
    (laid : Laid kinds words text.toList)
    (asks : Asks g Lexer.tokenizer equals (.ofString text) chart lexer) :
    ∃ ahead, words = chart.tokens.toList.map wordOf ++ ahead ∧ Laid kinds ahead lexer.rest := by
  induction asks with
  | start => exact ⟨words, rfl, laid⟩
  | @step chart longer lexer next scan asks answer step ih =>
    obtain ⟨ahead, split, laid⟩ := ih
    have reading := Grammar.reading_of_asks asks
    obtain ⟨kind, length, longer', further, takes, rfl, step', tokens, -⟩ :=
      reading.exists_push equals answer
    obtain rfl := Except.ok.inj (step.symm.trans step')
    cases ahead with
    | nil => exact absurd laid.skipBlanks_nil further
    | cons word ahead =>
      obtain ⟨rest, place, -, own, alone, laid⟩ := laid.skipBlanks_cons
      obtain rfl := alone kind (reading.mem_of_mem_expected terminals takes.mem) _ takes.matched
      obtain rfl := Option.some.inj (own.symm.trans takes.matched)
      have taken :
          wordOf (lexer.skipBlanks.tokenOf word.kind word.text.toList.length) = word := by
        rw [wordOf, Lexer.tokenOf, place, List.take_left, String.ofList_toList]
      have behind : (lexer.skipBlanks.drop word.text.toList.length).rest = rest := by
        rw [Lexer.drop, place, List.drop_left]
      refine ⟨ahead, ?_, behind ▸ laid⟩
      rw [split, tokens, Array.toList_push, List.map_append, List.map_singleton, taken,
        List.append_assoc, List.singleton_append]

/-- **The next word is awaited**, if the words derive from the entry. -/
theorem mem_expected_of_ahead (reading : g.Reading text chart lexer) {ahead : List (Word E)}
    (split : words = chart.tokens.toList.map wordOf ++ word :: ahead)
    (derives : ∀ tokens : Array (Token (Pattern E)), tokens.toList.map wordOf = words →
      Derives g (KindAt tokens) [.nonterminal g.entry] 0 tokens.size) :
    word.kind ∈ chart.frontier.expected g := by
  -- The words ahead are made into tokens, so that all of the words derive from the entry.
  have spelled : (chart.tokens.push word.token ++ (ahead.map Word.token).toArray).toList.map wordOf
      = words := by
    rw [split, Array.toList_append, Array.toList_push, List.append_assoc, List.map_append]
    exact congrArg _ (map_wordOf_token (word :: ahead))
  rw [reading.mem_expected_iff, reading.reads_eq_kindAt]
  exact awaits_of_completion (derives _ spelled) (by simp)

/-- **A text of words that derive from the entry is parsed as these words.** -/
theorem exists_forest_of_laid
    (terminals : ∀ id kind, .terminal kind ∈ g.symbols id → kind ∈ kinds)
    (laid : Laid kinds words text.toList)
    (derives : ∀ tokens : Array (Token (Pattern E)), tokens.toList.map wordOf = words →
      Derives g (KindAt tokens) [.nonterminal g.entry] 0 tokens.size) :
    ∃ f, g.parse text = .ok f ∧ f.grammar = g ∧ f.Packs (KindAt f.tokens)
      ∧ f.tokens.toList.map wordOf = words := by
  obtain ⟨chart, lexer, asks, ends⟩ := g.parse_cases text
  obtain ⟨ahead, split, laid⟩ := exists_laid_of_asks terminals laid asks
  cases ahead with
  | nil =>
    rcases ends with ⟨-, parsed, packs⟩ | ⟨further, -⟩
    · exact ⟨_, parsed, rfl, packs, (split.trans (List.append_nil _)).symm⟩
    · exact absurd laid.skipBlanks_nil further
  | cons word ahead =>
    -- The next word is awaited, and so the lexer neither is at its end nor refuses.
    have expected := mem_expected_of_ahead (Grammar.reading_of_asks asks) split derives
    obtain ⟨rest, place, present, own, -, -⟩ := laid.skipBlanks_cons
    exfalso
    rcases ends with ⟨none, -⟩ | ⟨-, error, refuses, -⟩
    · rw [place, List.append_eq_nil_iff] at none
      exact present (by simpa using none.1)
    · cases refuses with
      | unexpected unmatched =>
        exact absurd ((unmatched _ expected).symm.trans own) (Option.some_ne_none _).symm
      | emptyToken _ empty => exact present (by simpa using empty _ expected _ own)

/-- The forest is that of a chart, in which each token was read as its own kind. -/
theorem exists_chart_of_laid
    (terminals : ∀ id kind, .terminal kind ∈ g.symbols id → kind ∈ kinds)
    (laid : Laid kinds words text.toList)
    (derives : ∀ tokens : Array (Token (Pattern E)), tokens.toList.map wordOf = words →
      Derives g (KindAt tokens) [.nonterminal g.entry] 0 tokens.size) :
    ∃ chart : Chart (Pattern E), g.parse text = .ok (.ofChart g chart) ∧ chart.Sound g
      ∧ chart.Saturated g ∧ chart.Reads = KindAt chart.tokens
      ∧ chart.tokens.toList.map wordOf = words := by
  obtain ⟨f, parsed, -, -, spelled⟩ := exists_forest_of_laid terminals laid derives
  obtain ⟨chart, lexer, asks, ⟨-, parsed', -⟩ | ⟨-, error, -, fails⟩⟩ := g.parse_cases text
  · obtain rfl := Except.ok.inj (parsed.symm.trans parsed')
    have reading := Grammar.reading_of_asks asks
    exact ⟨chart, parsed, reading.sound, reading.saturated, reading.reads_eq_kindAt, spelled⟩
  · exact nomatch parsed.symm.trans fails

end Earley
