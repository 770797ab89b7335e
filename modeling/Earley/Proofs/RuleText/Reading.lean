import Earley.Proofs.Grammar.Rewriting
import Earley.Proofs.RuleText.Phrases
import Earley.Proofs.TextParse

/-!
# Proofs/RuleText/Reading — tokens that were read to a progress are the beginning of a rule

Tokens bring a rule to some progress if each of them is of a kind that was admissible (`Read`).
What the progress says then holds of them: behind the arrow the body has a derivation whose meaning
is the alternatives so far (`Read.holds`).  Since from everywhere a rule can be completed, what the
grammar awaits behind the tokens is what is admissible (`Read.awaits_iff`).
-/

namespace Earley.RuleText

variable {tokens : Array (Token (Pattern .standard))} {token : Token (Pattern .standard)}
  {kind : Pattern .standard} {tree front sequence : Tree} {pos last stop count : Nat}
  {atoms : List Atom} {name : String} {sequences : List (List Atom)} {progress : Progress}
  {read : List (Token (Pattern .standard))}

/-! ## Derivations with a meaning -/

/-- **A tree means a phrase**: it derives a name over a stretch and has the phrase as its value. -/
structure Means (tokens : Array (Token (Pattern .standard))) (name : String) (tree : Tree)
    (pos stop : Nat) (phrase : Phrase) : Prop where
  derivation : Derivation grammar (KindAt tokens) [.nonterminal name] [tree] pos stop
  value : tree.value? semantics tokens = some phrase

theorem means_empty : Means tokens "seq" (.node 4 []) pos pos (.sequence []) :=
  ⟨derivation_seq.2 (.inl ⟨rfl, rfl⟩), rfl⟩

/-- A token of a symbol means what the scanner makes of it. -/
theorem exists_means_sym (place : tokens[last]? = some token)
    (mem : token.kind ∈ symbolRules.map Prod.snd) :
    ∃ symbol atom, Means tokens "sym" symbol last (last + 1) (.atom atom)
      ∧ lexemeOf token = .symbol atom := by
  obtain ⟨⟨id, kind⟩, known, same⟩ := List.mem_map.1 mem
  have derivation : Derivation grammar (KindAt tokens) [.nonterminal "sym"] [.node id [.leaf last]]
      last (last + 1) := derivation_sym.2 ⟨_, known, rfl, ⟨token, place, same.symm⟩, rfl⟩
  have value : (Tree.node id [.leaf last]).value? semantics tokens
      = some (semantics.reduce id [.text token.text]) :=
    Tree.value?_node (Tree.values?_cons (Tree.value?_leaf place) rfl)
  simp only [symbolRules, List.mem_cons, Prod.mk.injEq, List.not_mem_nil, or_false] at known
  rcases known with ⟨rfl, rfl⟩ | ⟨rfl, rfl⟩ | ⟨rfl, rfl⟩ | ⟨rfl, rfl⟩
  · exact ⟨_, _, ⟨derivation, value⟩, lexemeOf_identifier same.symm⟩
  · exact ⟨_, _, ⟨derivation, value⟩, lexemeOf_quoted (.inl same.symm)⟩
  · exact ⟨_, _, ⟨derivation, value⟩, lexemeOf_quoted (.inr same.symm)⟩
  · exact ⟨_, _, ⟨derivation, value⟩, lexemeOf_slashed same.symm⟩

theorem Means.snoc (h : Means tokens "seq" front pos last (.sequence atoms)) {symbol : Tree}
    {atom : Atom} (h' : Means tokens "sym" symbol last stop (.atom atom)) :
    Means tokens "seq" (.node 3 [front, symbol]) pos stop (.sequence (atoms ++ [atom])) := by
  have value : (Tree.node 3 [front, symbol]).value? semantics tokens
      = some (semantics.reduce 3 [.sequence atoms, .atom atom]) :=
    Tree.value?_node (Tree.values?_cons h.value (Tree.values?_cons h'.value rfl))
  exact ⟨derivation_seq.2 (.inr ⟨front, last, symbol, rfl, h.derivation, h'.derivation⟩), value⟩

/-- **The body of a rule**, taken apart behind its last bar. -/
inductive Body (tokens : Array (Token (Pattern .standard))) (stop : Nat) : List (List Atom) → Prop
  | one {sequence : Tree} {atoms : List Atom}
      (inner : Means tokens "seq" sequence 2 stop (.sequence atoms)) : Body tokens stop [atoms]
  | more {front sequence : Tree} {bar : Nat} {token : Token (Pattern .standard)}
      {done : List (List Atom)} {atoms : List Atom}
      (before : Means tokens "alts" front 2 bar (.alternatives done))
      (place : tokens[bar]? = some token) (own : token.kind = .literal "|")
      (inner : Means tokens "seq" sequence (bar + 1) stop (.sequence atoms)) :
      Body tokens stop (done ++ [atoms])

namespace Body

theorem empty : Body tokens 2 [[]] := .one means_empty

theorem exists_means (h : Body tokens stop sequences) :
    ∃ tree, Means tokens "alts" tree 2 stop (.alternatives sequences) := by
  cases h with
  | @one sequence atoms inner =>
    have value : (Tree.node 2 [sequence]).value? semantics tokens
        = some (semantics.reduce 2 [.sequence atoms]) :=
      Tree.value?_node (Tree.values?_cons inner.value rfl)
    exact ⟨_, derivation_alts.2 (.inl ⟨_, rfl, inner.derivation⟩), value⟩
  | @more front sequence bar token done atoms before place own inner =>
    have value : (Tree.node 1 [front, .leaf bar, sequence]).value? semantics tokens
        = some (semantics.reduce 1 [.alternatives done, .text token.text, .sequence atoms]) :=
      Tree.value?_node (Tree.values?_cons before.value
        (Tree.values?_cons (Tree.value?_leaf place) (Tree.values?_cons inner.value rfl)))
    exact ⟨_, derivation_alts.2 (.inr ⟨_, _, _, rfl, before.derivation, ⟨token, place, own⟩,
      inner.derivation⟩), value⟩

/-- A body has an alternative. -/
theorem ne_nil (h : Body tokens stop sequences) : sequences ≠ [] := by
  cases h with
  | one inner => exact List.cons_ne_nil _ _
  | more before place own inner => exact List.concat_ne_nil _ _

/-- **One more token** is one more lexeme of the body. -/
theorem push (h : Body tokens stop sequences) (place : tokens[stop]? = some token)
    (admitted : token.kind ∈ lexemeKinds) :
    Body tokens (stop + 1) (addLexeme sequences (lexemeOf token)) := by
  rcases List.mem_cons.1 admitted with bar | symbol
  · obtain ⟨tree, before⟩ := h.exists_means
    rw [lexemeOf_bar bar]
    exact .more before place bar means_empty
  · obtain ⟨tree, atom, inner, lexeme⟩ := exists_means_sym place symbol
    rw [lexeme]
    cases h with
    | one front => exact .one (front.snoc inner)
    | more before place own front =>
      have added := Body.more before place own (front.snoc inner)
      simpa [addLexeme] using added

end Body

/-! ## What a progress says -/

namespace Progress

/-- **What a progress says** about so many tokens. -/
def Holds (tokens : Array (Token (Pattern .standard))) (count : Nat) : Progress → Prop
  | start => count = 0
  | named name => count = 1
      ∧ ∃ token, tokens[0]? = some token ∧ token.kind = identifier ∧ token.text = name
  | body name sequences => 2 ≤ count
      ∧ (∃ token, tokens[0]? = some token ∧ token.kind = identifier ∧ token.text = name)
      ∧ (∃ token, tokens[1]? = some token ∧ token.kind = .literal "->")
      ∧ Body tokens count sequences

/-- **One more token** keeps what is said. -/
theorem Holds.push (h : progress.Holds tokens count) (place : tokens[count]? = some token)
    (admitted : token.kind ∈ progress.admissible) :
    (progress.push token).Holds tokens (count + 1) := by
  cases progress with
  | start =>
    obtain rfl : count = 0 := h
    exact ⟨rfl, token, place, List.mem_singleton.1 admitted, rfl⟩
  | named name =>
    obtain ⟨rfl, begins⟩ := h
    exact ⟨Nat.le_refl 2, begins, ⟨token, place, List.mem_singleton.1 admitted⟩, .empty⟩
  | body name sequences =>
    obtain ⟨le, begins, arrow, inner⟩ := h
    exact ⟨Nat.le_succ_of_le le, begins, arrow, inner.push place admitted⟩

end Progress

/-! ## Tokens read to a progress -/

/-- **Tokens that bring a rule to some progress**: each is of a kind that was admissible. -/
inductive Read : List (Token (Pattern .standard)) → Progress → Prop
  | start : Read [] .start
  | push {tokens : List (Token (Pattern .standard))} {progress : Progress}
      {token : Token (Pattern .standard)} (before : Read tokens progress)
      (admitted : token.kind ∈ progress.admissible) :
      Read (tokens ++ [token]) (progress.push token)

namespace Read

/-- **What was read is what the progress says**, whatever tokens follow. -/
theorem holds (h : Read read progress) (begins : read <+: tokens.toList) :
    progress.Holds tokens read.length := by
  induction h with
  | start => rfl
  | @push front progress token _ admitted ih =>
    obtain ⟨after, split⟩ := begins
    have place : tokens[front.length]? = some token := by
      rw [← Array.getElem?_toList, ← split]
      simp
    rw [List.length_append]
    exact (ih ⟨[token] ++ after, by rw [← split, List.append_assoc]⟩).push place admitted

/-- **A body that was read to the end** of the tokens is a rule. -/
theorem exists_means (h : Read tokens.toList (.body name sequences)) :
    ∃ tree, Means tokens "rule" tree 0 tokens.size (.rule name sequences) := by
  obtain ⟨-, ⟨token, place, kind, rfl⟩, ⟨arrow, place', kind'⟩, inner⟩ := h.holds List.prefix_rfl
  obtain ⟨tree, means⟩ := inner.exists_means
  have value : (Tree.node 0 [.leaf 0, .leaf 1, tree]).value? semantics tokens
      = some (semantics.reduce 0 [.text token.text, .text arrow.text, .alternatives sequences]) :=
    Tree.value?_node (Tree.values?_cons (Tree.value?_leaf place)
      (Tree.values?_cons (Tree.value?_leaf place') (Tree.values?_cons means.value rfl)))
  exact ⟨_, derivation_rule.2 ⟨tree, rfl, ⟨token, place, kind⟩, ⟨arrow, place', kind'⟩,
    means.derivation⟩, value⟩

/-- A rule ends before its arrow was read, or in its body. -/
theorem atEnd_cases (h : Read tokens.toList progress) :
    progress.atEnd = .incomplete ∧ tokens.size < 2
      ∨ ∃ name sequences, progress = .body name sequences := by
  have told := h.holds List.prefix_rfl
  rw [Array.length_toList] at told
  cases progress with
  | start =>
    have none : tokens.size = 0 := told
    exact .inl ⟨rfl, by omega⟩
  | named name =>
    have one : tokens.size = 1 := told.1
    exact .inl ⟨rfl, by omega⟩
  | body name sequences => exact .inr ⟨name, sequences, rfl⟩

/-- **From everywhere a rule can be completed.** -/
theorem exists_completion (h : Read read progress) :
    ∃ more name sequences, Read (read ++ more) (.body name sequences) := by
  have arrow : ∀ {read name}, Read read (.named name) →
      Read (read ++ [⟨.literal "->", "->", 0, 0⟩]) (.body name [[]]) :=
    fun h => h.push (List.mem_singleton_self _)
  cases progress with
  | start =>
    have name : Read (read ++ [⟨identifier, "a", 0, 0⟩]) (.named "a") :=
      h.push (List.mem_singleton_self _)
    have body := arrow name
    rw [List.append_assoc] at body
    exact ⟨_, _, _, body⟩
  | named name => exact ⟨_, name, _, arrow h⟩
  | body name sequences => exact ⟨[], name, sequences, by rwa [List.append_nil]⟩

end Read

/-! ## What is awaited -/

/-- What the body of a rule and its parts are written with. -/
def bodySymbols : List (Symbol (Pattern .standard)) :=
  [.nonterminal "alts", .nonterminal "seq", .nonterminal "sym"] ++ lexemeKinds.map .terminal

theorem symbols_subset_bodySymbols : ∀ name, .nonterminal name ∈ bodySymbols →
    ∀ id ∈ grammar.productionsOf name, ∀ symbol ∈ grammar.symbols id, symbol ∈ bodySymbols := by
  intro name mem
  obtain rfl | rfl | rfl : name = "alts" ∨ name = "seq" ∨ name = "sym" := by
    simpa [bodySymbols] using mem
  · rw [productionsOf_alts]
    simp [symbols_alts_more, symbols_alts_one, bodySymbols, lexemeKinds]
  · rw [productionsOf_seq]
    simp [symbols_seq_longer, symbols_seq_empty, bodySymbols]
  · intro id known symbol symbolMem
    rw [productionsOf_sym] at known
    obtain ⟨rule, memRule, rfl⟩ := List.mem_map.1 known
    rw [symbols_of_mem_symbolRules rule memRule] at symbolMem
    obtain rfl := List.mem_singleton.1 symbolMem
    have kind : rule.2 ∈ lexemeKinds :=
      lexemeKinds_eq ▸ List.mem_cons_of_mem _ (List.mem_map_of_mem memRule)
    exact List.mem_append_right _ (List.mem_map_of_mem kind)

variable {reads : Nat → Pattern .standard → Prop}

/-- The body of a rule awaits lexemes. -/
theorem mem_of_awaits_alts (h : Awaits grammar reads [.nonterminal "alts"] pos stop kind) :
    kind ∈ lexemeKinds := by
  have mem : .terminal kind ∈ bodySymbols :=
    h.induction_on symbols_subset_bodySymbols (by simp [bodySymbols])
  simpa [bodySymbols] using mem

/-- **A rule awaits a name, an arrow or, behind those, what its body awaits.** -/
theorem awaits_rule_cases (h : Awaits grammar reads [.nonterminal "rule"] 0 stop kind) :
    stop = 0 ∧ kind = identifier ∨ stop = 1 ∧ kind = .literal "->"
      ∨ 2 ≤ stop ∧ kind ∈ lexemeKinds := by
  rw [awaits_rule_iff, productionsOf_rule] at h
  obtain ⟨id, mem, h⟩ := h
  obtain rfl := List.mem_singleton.1 mem
  rw [symbols_rule] at h
  rcases awaits_terminal_iff.1 h with ⟨rfl, rfl⟩ | ⟨-, h⟩
  · exact .inl ⟨rfl, rfl⟩
  rcases awaits_terminal_iff.1 h with ⟨rfl, rfl⟩ | ⟨-, h⟩
  · exact .inr (.inl ⟨rfl, rfl⟩)
  · exact .inr (.inr ⟨h.le, mem_of_awaits_alts h⟩)

/-- **What is awaited behind the tokens of a progress is what is admissible.** -/
theorem Read.awaits_iff (h : Read tokens.toList progress) :
    Awaits grammar (KindAt tokens) [.nonterminal "rule"] 0 tokens.size kind
      ↔ kind ∈ progress.admissible := by
  constructor
  · intro awaits
    have told := h.holds List.prefix_rfl
    rw [Array.length_toList] at told
    cases progress with
    | start =>
      have size : tokens.size = 0 := told
      obtain ⟨-, rfl⟩ | ⟨one, -⟩ | ⟨two, -⟩ := awaits_rule_cases awaits
      · exact List.mem_singleton_self _
      · omega
      · omega
    | named name =>
      have size : tokens.size = 1 := told.1
      obtain ⟨zero, -⟩ | ⟨-, rfl⟩ | ⟨two, -⟩ := awaits_rule_cases awaits
      · omega
      · exact List.mem_singleton_self _
      · omega
    | body name sequences =>
      have size : 2 ≤ tokens.size := told.1
      obtain ⟨zero, -⟩ | ⟨one, -⟩ | ⟨-, mem⟩ := awaits_rule_cases awaits
      · omega
      · omega
      · exact mem
  · -- The kind is read in a completion of the rule, so that it is awaited where it stands.
    intro admitted
    have longer : Read (tokens.toList ++ [⟨kind, "", 0, 0⟩]) _ := h.push admitted
    obtain ⟨more, name, sequences, whole⟩ := longer.exists_completion
    have whole : Read (tokens.push ⟨kind, "", 0, 0⟩ ++ more.toArray).toList
        (.body name sequences) := by
      simpa using whole
    obtain ⟨tree, means⟩ := whole.exists_means
    exact awaits_of_completion means.derivation.derives (by simp)

end Earley.RuleText
