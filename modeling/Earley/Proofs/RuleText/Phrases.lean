import Earley.Proofs.Forest.Evaluation
import Earley.Proofs.RuleText.Patterns

/-!
# Proofs/RuleText/Phrases — the derivations of rules and what they mean

The grammar of rules is unambiguous (`unique_rule`): a sequence ends with its last symbol, an
alternative begins behind the last bar, and each token is read as one kind.  The meaning of every
derivation fits its symbol, so that no production meets arguments that it has no meaning for
(`fits_of_derivation`).
-/

namespace Earley.RuleText

variable {reads : Nat → Pattern .standard → Prop} {tree tree' : Tree} {pos mid stop : Nat}

/-! ## The productions -/

theorem productionsOf_rule : grammar.productionsOf "rule" = [0] := rfl

theorem symbols_rule : grammar.symbols 0
    = [.terminal identifier, .terminal (.literal "->"), .nonterminal "alts"] := rfl

theorem productionsOf_alts : grammar.productionsOf "alts" = [1, 2] := rfl

theorem symbols_alts_more : grammar.symbols 1
    = [.nonterminal "alts", .terminal (.literal "|"), .nonterminal "seq"] := rfl

theorem symbols_alts_one : grammar.symbols 2 = [.nonterminal "seq"] := rfl

theorem productionsOf_seq : grammar.productionsOf "seq" = [3, 4] := rfl

theorem symbols_seq_longer : grammar.symbols 3 = [.nonterminal "seq", .nonterminal "sym"] := rfl

theorem symbols_seq_empty : grammar.symbols 4 = [] := rfl

/-- The productions of symbols, each with the kind of its token. -/
def symbolRules : List (ProdId × Pattern .standard) :=
  [(5, identifier), (6, doubleQuoted), (7, singleQuoted), (8, slashed)]

theorem productionsOf_sym : grammar.productionsOf "sym" = symbolRules.map Prod.fst := rfl

theorem symbols_of_mem_symbolRules : ∀ rule ∈ symbolRules,
    grammar.symbols rule.1 = [.terminal rule.2] := by
  simp only [symbolRules, List.forall_mem_cons]
  exact ⟨rfl, rfl, rfl, rfl, fun _ mem => absurd mem List.not_mem_nil⟩

/-- **A rule** is a name, an arrow and a body. -/
theorem derivation_rule : Derivation grammar reads [.nonterminal "rule"] [tree] pos stop
    ↔ ∃ body, tree = .node 0 [.leaf pos, .leaf (pos + 1), body] ∧ reads pos identifier
      ∧ reads (pos + 1) (.literal "->")
      ∧ Derivation grammar reads [.nonterminal "alts"] [body] (pos + 2) stop := by
  rw [derivation_rule_iff, productionsOf_rule]
  constructor
  · rintro ⟨id, rule, children, rfl, inner⟩
    obtain rfl := List.mem_singleton.1 rule
    rw [symbols_rule] at inner
    obtain ⟨_, rfl, name, inner⟩ := derivation_terminal_iff.1 inner
    obtain ⟨_, rfl, arrow, inner⟩ := derivation_terminal_iff.1 inner
    obtain ⟨body, _, _, rfl, inner, tail⟩ := derivation_nonterminal_iff.1 inner
    obtain ⟨rfl, rfl⟩ := derivation_nil_iff.1 tail
    exact ⟨body, rfl, name, arrow, inner⟩
  · rintro ⟨body, rfl, name, arrow, inner⟩
    refine ⟨0, List.mem_singleton_self _, _, rfl, ?_⟩
    rw [symbols_rule]
    exact .leaf name (.leaf arrow inner)

/-- **A body** is a sequence, or a body, a bar and a sequence. -/
theorem derivation_alts : Derivation grammar reads [.nonterminal "alts"] [tree] pos stop
    ↔ (∃ sequence, tree = .node 2 [sequence]
        ∧ Derivation grammar reads [.nonterminal "seq"] [sequence] pos stop)
      ∨ ∃ front bar sequence, tree = .node 1 [front, .leaf bar, sequence]
        ∧ Derivation grammar reads [.nonterminal "alts"] [front] pos bar
        ∧ reads bar (.literal "|")
        ∧ Derivation grammar reads [.nonterminal "seq"] [sequence] (bar + 1) stop := by
  rw [derivation_rule_iff, productionsOf_alts]
  constructor
  · rintro ⟨id, rule, children, rfl, inner⟩
    rcases List.mem_pair.1 rule with rfl | rfl
    · rw [symbols_alts_more] at inner
      obtain ⟨front, _, bar, rfl, head, inner⟩ := derivation_nonterminal_iff.1 inner
      obtain ⟨_, rfl, stands, inner⟩ := derivation_terminal_iff.1 inner
      obtain ⟨sequence, _, _, rfl, inner, tail⟩ := derivation_nonterminal_iff.1 inner
      obtain ⟨rfl, rfl⟩ := derivation_nil_iff.1 tail
      exact .inr ⟨front, bar, sequence, rfl, head, stands, inner⟩
    · rw [symbols_alts_one] at inner
      obtain ⟨sequence, _, _, rfl, inner, tail⟩ := derivation_nonterminal_iff.1 inner
      obtain ⟨rfl, rfl⟩ := derivation_nil_iff.1 tail
      exact .inl ⟨sequence, rfl, inner⟩
  · rintro (⟨sequence, rfl, inner⟩ | ⟨front, bar, sequence, rfl, head, stands, inner⟩)
    · exact ⟨2, by decide, _, rfl, inner⟩
    · refine ⟨1, by decide, _, rfl, ?_⟩
      rw [symbols_alts_more]
      exact derivation_nonterminal_iff.2 ⟨front, _, bar, rfl, head, .leaf stands inner⟩

/-- **A symbol** is a token of one of its kinds. -/
theorem derivation_sym : Derivation grammar reads [.nonterminal "sym"] [tree] pos stop
    ↔ ∃ rule ∈ symbolRules,
        tree = .node rule.1 [.leaf pos] ∧ reads pos rule.2 ∧ pos + 1 = stop := by
  rw [derivation_rule_iff, productionsOf_sym]
  constructor
  · rintro ⟨id, known, children, rfl, inner⟩
    obtain ⟨rule, mem, rfl⟩ := List.mem_map.1 known
    rw [symbols_of_mem_symbolRules rule mem] at inner
    obtain ⟨_, rfl, stands, tail⟩ := derivation_terminal_iff.1 inner
    obtain ⟨rfl, same⟩ := derivation_nil_iff.1 tail
    exact ⟨rule, mem, rfl, stands, same⟩
  · rintro ⟨rule, mem, rfl, stands, rfl⟩
    refine ⟨rule.1, List.mem_map_of_mem mem, _, rfl, ?_⟩
    rw [symbols_of_mem_symbolRules rule mem]
    exact .leaf stands (.nil _)

/-- **A sequence** is empty, or a sequence and a symbol. -/
theorem derivation_seq : Derivation grammar reads [.nonterminal "seq"] [tree] pos stop
    ↔ (tree = .node 4 [] ∧ pos = stop)
      ∨ ∃ front last symbol, tree = .node 3 [front, symbol]
        ∧ Derivation grammar reads [.nonterminal "seq"] [front] pos last
        ∧ Derivation grammar reads [.nonterminal "sym"] [symbol] last stop := by
  rw [derivation_rule_iff, productionsOf_seq]
  constructor
  · rintro ⟨id, rule, children, rfl, inner⟩
    rcases List.mem_pair.1 rule with rfl | rfl
    · rw [symbols_seq_longer] at inner
      obtain ⟨front, _, last, rfl, head, inner⟩ := derivation_nonterminal_iff.1 inner
      obtain ⟨symbol, _, _, rfl, inner, tail⟩ := derivation_nonterminal_iff.1 inner
      obtain ⟨rfl, rfl⟩ := derivation_nil_iff.1 tail
      exact .inr ⟨front, last, symbol, rfl, head, inner⟩
    · rw [symbols_seq_empty] at inner
      obtain ⟨rfl, rfl⟩ := derivation_nil_iff.1 inner
      exact .inl ⟨rfl, rfl⟩
  · rintro (⟨rfl, rfl⟩ | ⟨front, last, symbol, rfl, head, inner⟩)
    · exact ⟨4, by decide, _, rfl, .nil pos⟩
    · refine ⟨3, by decide, _, rfl, ?_⟩
      rw [symbols_seq_longer]
      exact derivation_nonterminal_iff.2 ⟨front, _, last, rfl, head, inner⟩

/-! ## One derivation -/

/-- The kinds of lexemes are the bar and the kinds of symbols. -/
theorem lexemeKinds_eq : lexemeKinds = .literal "|" :: symbolRules.map Prod.snd := rfl

theorem bar_not_mem_symbolRules : ∀ rule ∈ symbolRules, rule.2 ≠ .literal "|" := by
  intro rule mem same
  have nodup := nodup_lexemeKinds
  rw [lexemeKinds_eq] at nodup
  exact (List.nodup_cons.1 nodup).1 (same ▸ List.mem_map_of_mem mem)

theorem nodup_symbolRules : (symbolRules.map Prod.snd).Nodup := nodup_lexemeKinds.of_cons

section Unique

variable (single : ∀ index kind kind', reads index kind → reads index kind' → kind = kind')

include single

/-- **A token is one symbol.** -/
theorem unique_sym (h : Derivation grammar reads [.nonterminal "sym"] [tree] pos stop)
    (h' : Derivation grammar reads [.nonterminal "sym"] [tree'] pos stop) : tree = tree' := by
  obtain ⟨rule, mem, rfl, stands, -⟩ := derivation_sym.1 h
  obtain ⟨rule', mem', rfl, stands', -⟩ := derivation_sym.1 h'
  rw [List.inj_on_of_nodup_map nodup_symbolRules mem mem' (single pos _ _ stands stands')]

omit single in
/-- The last symbol of a sequence is its last token. -/
theorem last_of_sym {last : Nat}
    (h : Derivation grammar reads [.nonterminal "sym"] [tree] last stop) : last + 1 = stop := by
  obtain ⟨_, -, -, -, same⟩ := derivation_sym.1 h
  exact same

/-- **A stretch has one sequence.** -/
theorem unique_seq (h : Derivation grammar reads [.nonterminal "seq"] [tree] pos stop)
    (h' : Derivation grammar reads [.nonterminal "seq"] [tree'] pos stop) : tree = tree' := by
  induction stop using Nat.strongRecOn generalizing tree tree' with
  | ind stop ih =>
    rcases derivation_seq.1 h with ⟨rfl, rfl⟩ | ⟨front, last, symbol, rfl, head, inner⟩
    · rcases derivation_seq.1 h' with ⟨rfl, -⟩ | ⟨front, last, symbol, rfl, head, inner⟩
      · rfl
      · have := head.derives.le
        have := last_of_sym inner
        omega
    · have le := head.derives.le
      obtain rfl := last_of_sym inner
      rcases derivation_seq.1 h' with ⟨rfl, same⟩ | ⟨front', last', symbol', rfl, head', inner'⟩
      · omega
      · obtain rfl : last' = last := Nat.succ.inj (last_of_sym inner')
        rw [ih _ (Nat.lt_succ_self _) head head', unique_sym single inner inner']

omit single in
/-- All tokens of a sequence are symbols. -/
theorem exists_rule_of_seq (h : Derivation grammar reads [.nonterminal "seq"] [tree] pos stop)
    {index : Nat} (low : pos ≤ index) (high : index < stop) :
    ∃ rule ∈ symbolRules, reads index rule.2 := by
  induction stop using Nat.strongRecOn generalizing tree with
  | ind stop ih =>
    rcases derivation_seq.1 h with ⟨-, rfl⟩ | ⟨front, last, symbol, rfl, head, inner⟩
    · omega
    · obtain ⟨rule, mem, -, stands, rfl⟩ := derivation_sym.1 inner
      rcases Nat.lt_succ_iff_lt_or_eq.1 high with before | rfl
      · exact ih last (Nat.lt_succ_self _) head before
      · exact ⟨rule, mem, stands⟩

/-- No bar stands in a sequence. -/
theorem not_bar_of_seq (h : Derivation grammar reads [.nonterminal "seq"] [tree] pos stop)
    {index : Nat} (low : pos ≤ index) (high : index < stop) : ¬ reads index (.literal "|") := by
  intro bar
  obtain ⟨rule, mem, stands⟩ := exists_rule_of_seq h low high
  exact bar_not_mem_symbolRules rule mem (single index _ _ stands bar)

/-- **A stretch has one body**, for the last sequence begins behind the last bar. -/
theorem unique_alts (h : Derivation grammar reads [.nonterminal "alts"] [tree] pos stop)
    (h' : Derivation grammar reads [.nonterminal "alts"] [tree'] pos stop) : tree = tree' := by
  induction stop using Nat.strongRecOn generalizing tree tree' with
  | ind stop ih =>
    rcases derivation_alts.1 h with
      ⟨sequence, rfl, inner⟩ | ⟨front, bar, sequence, rfl, head, stands, inner⟩
    · rcases derivation_alts.1 h' with
        ⟨sequence', rfl, inner'⟩ | ⟨front, bar, sequence', rfl, head, stands, inner'⟩
      · rw [unique_seq single inner inner']
      · exact absurd stands (not_bar_of_seq single inner head.derives.le inner'.derives.le)
    · rcases derivation_alts.1 h' with
        ⟨sequence', rfl, inner'⟩ | ⟨front', bar', sequence', rfl, head', stands', inner'⟩
      · exact absurd stands (not_bar_of_seq single inner' head.derives.le inner.derives.le)
      · rcases Nat.lt_trichotomy bar bar' with before | rfl | before
        · exact absurd stands' (not_bar_of_seq single inner before inner'.derives.le)
        · rw [ih bar inner.derives.le head head', unique_seq single inner inner']
        · exact absurd stands (not_bar_of_seq single inner' before inner.derives.le)

/-- **A text has one derivation as a rule.** -/
theorem unique_rule (h : Derivation grammar reads [.nonterminal "rule"] [tree] pos stop)
    (h' : Derivation grammar reads [.nonterminal "rule"] [tree'] pos stop) : tree = tree' := by
  obtain ⟨body, rfl, -, -, inner⟩ := derivation_rule.1 h
  obtain ⟨body', rfl, -, -, inner'⟩ := derivation_rule.1 h'
  rw [unique_alts single inner inner']

end Unique

/-! ## Meanings -/

namespace Phrase

/-- **A phrase fits a symbol** if it is what the productions of that name make, or the text of a
token. -/
def Fits : Phrase → Symbol (Pattern .standard) → Prop
  | text _, .terminal _ => True
  | rule _ _, .nonterminal name => name = "rule"
  | alternatives _, .nonterminal name => name = "alts"
  | sequence _, .nonterminal name => name = "seq"
  | atom _, .nonterminal name => name = "sym"
  | _, _ => False

variable {phrase : Phrase}

theorem Fits.exists_text {kind : Pattern .standard} (h : phrase.Fits (.terminal kind)) :
    ∃ content, phrase = .text content := by
  cases phrase <;> first | exact ⟨_, rfl⟩ | exact h.elim

theorem Fits.exists_alternatives (h : phrase.Fits (.nonterminal "alts")) :
    ∃ sequences, phrase = .alternatives sequences := by
  cases phrase <;> simp [Fits] at h ⊢

theorem Fits.exists_sequence (h : phrase.Fits (.nonterminal "seq")) :
    ∃ atoms, phrase = .sequence atoms := by
  cases phrase <;> simp [Fits] at h ⊢

theorem Fits.exists_atom (h : phrase.Fits (.nonterminal "sym")) :
    ∃ symbol, phrase = .atom symbol := by
  cases phrase <;> simp [Fits] at h ⊢

theorem Fits.ne_nothing {symbol : Symbol (Pattern .standard)} (h : phrase.Fits symbol) :
    phrase ≠ .nothing := by
  rintro rfl
  exact h

end Phrase

/-- The arguments of a production fit its symbols one by one. -/
abbrev FitAll : List Phrase → List (Symbol (Pattern .standard)) → Prop := List.Forall₂ Phrase.Fits

/-- **Every production has a meaning** for arguments that fit its symbols, and it fits its name. -/
theorem fits_of_mem_rules : ∀ rule ∈ rules, ∀ args, FitAll args rule.1.symbols →
    (rule.2 args).Fits (.nonterminal rule.1.name) := by
  simp only [rules, List.forall_mem_cons]
  refine ⟨?rule, ?more, ?one, ?longer, ?empty, ?name, ?double, ?single, ?slashed,
    fun _ mem => absurd mem List.not_mem_nil⟩
  case rule =>
    rintro _ (_ | ⟨name, _ | ⟨arrow, _ | ⟨body, _ | _⟩⟩⟩)
    obtain ⟨text, rfl⟩ := name.exists_text
    obtain ⟨sequences, rfl⟩ := body.exists_alternatives
    rfl
  case more =>
    rintro _ (_ | ⟨front, _ | ⟨bar, _ | ⟨last, _ | _⟩⟩⟩)
    obtain ⟨sequences, rfl⟩ := front.exists_alternatives
    obtain ⟨atoms, rfl⟩ := last.exists_sequence
    rfl
  case one =>
    rintro _ (_ | ⟨only, _ | _⟩)
    obtain ⟨atoms, rfl⟩ := only.exists_sequence
    rfl
  case longer =>
    rintro _ (_ | ⟨front, _ | ⟨last, _ | _⟩⟩)
    obtain ⟨atoms, rfl⟩ := front.exists_sequence
    obtain ⟨symbol, rfl⟩ := last.exists_atom
    rfl
  case empty => exact fun _ _ => rfl
  all_goals
    rintro _ (_ | ⟨only, _ | _⟩)
    obtain ⟨text, rfl⟩ := only.exists_text
    rfl

theorem fits_reduce {id : ProdId} {args : List Phrase} (bound : id < grammar.productions.size)
    (fits : FitAll args (grammar.symbols id)) :
    (semantics.reduce id args).Fits (.nonterminal (grammar.name id)) := by
  have size : grammar.productions.size = rules.length := rfl
  have place : rules[id]? = some rules[id] := List.getElem?_eq_getElem (size ▸ bound)
  have production : grammar.productions[id]? = some rules[id].1 := by
    change (rules.map Prod.fst).toArray[id]? = _
    rw [List.getElem?_toArray, List.getElem?_map, place]
    rfl
  rw [Grammar.symbols, production] at fits
  rw [Grammar.name, production]
  have meaning := fits_of_mem_rules rules[id] (List.getElem_mem _) args fits
  simpa [semantics, place] using meaning

/-- **Derivations mean what fits their symbols**, and so does every part of them: no production is
met with arguments that it has no meaning for. -/
theorem fits_of_derivation {symbols : List (Symbol (Pattern .standard))} {trees : List Tree}
    {tokens : Array (Token (Pattern .standard))}
    (known : ∀ index kind, reads index kind → index < tokens.size)
    (h : Derivation grammar reads symbols trees pos stop) :
    ∃ values, Tree.values? semantics tokens trees = some values ∧ FitAll values symbols
      ∧ ∀ inner ∈ Tree.postorders trees, ∀ args,
          Tree.values? semantics tokens inner.2 = some args →
            semantics.reduce inner.1 args ≠ .nothing := by
  induction h with
  | nil => exact ⟨[], rfl, .nil, fun _ mem => absurd mem List.not_mem_nil⟩
  | @leaf kind _ _ index _ stand _ ih =>
    obtain ⟨values, same, fits, parts⟩ := ih
    have bound := known _ _ stand
    have own : (Tree.leaf index).value? semantics tokens = some (.text tokens[index].text) :=
      Tree.value?_leaf (Array.getElem?_eq_getElem bound)
    exact ⟨_, Tree.values?_cons own same, .cons trivial fits, parts⟩
  | @node name id _ children _ _ _ _ rule _ _ ihHead ihTail =>
    obtain ⟨args, sameArgs, fitsArgs, partsHead⟩ := ihHead
    obtain ⟨values, same, fits, parts⟩ := ihTail
    obtain ⟨bound, rfl⟩ := Grammar.mem_productionsOf.1 rule
    have own := fits_reduce bound fitsArgs
    refine ⟨_, Tree.values?_cons (Tree.value?_node sameArgs) same, .cons own fits,
      fun inner mem => ?_⟩
    simp only [Tree.postorders, Tree.postorder, List.mem_append, List.mem_singleton] at mem
    rcases mem with (mem | rfl) | mem
    · exact partsHead inner mem
    · intro args' same'
      obtain rfl := Option.some.inj (sameArgs.symm.trans same')
      exact own.ne_nothing
    · exact parts inner mem

end Earley.RuleText
