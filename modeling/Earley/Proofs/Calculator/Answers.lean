import Earley.Proofs.Calculator.Layers
import Earley.Proofs.Calculator.Numeral
import Earley.Proofs.Forest.Acceptance
import Earley.Proofs.TextParse

/-!
# Proofs/Calculator/Answers — every expression that is read has one value

Every kind of token that an expression may ask for matches at least one character
(`matchLength_pos`), so that the lexer refuses a text only where nothing matches.  Where all of a
text is read, it is too short for an expression or it has one derivation, whose value is the answer
(`single_root`).
-/

namespace Earley.Calculator

variable {V : Type} {kind : Pattern .standard} {text : List Char} {length : Nat}

/-! ## The kinds of tokens -/

/-- The characters that are tokens of their own. -/
def signs : List Char := ['+', '-', '*', '/', '%', '^', '!', '(', ')']

/-- The kind of such a character. -/
def signKind (c : Char) : Pattern .standard := .literal (String.singleton c)

/-- The kinds of tokens. -/
def kinds : List (Pattern .standard) := number :: signs.map signKind

theorem mem_kinds_iff : kind ∈ kinds ↔ kind = number ∨ ∃ c ∈ signs, kind = signKind c := by
  simp only [kinds, List.mem_cons, List.mem_map, eq_comm]

theorem matchLength?_signKind {c : Char} : (signKind c).matchLength? text = some length
    ↔ ∃ rest, text = c :: rest ∧ length = 1 := by
  rw [signKind, Pattern.matchLength?_literal, String.toList_singleton]
  rfl

/-- **No kind of token matches the empty text.** -/
theorem matchLength_pos (mem : kind ∈ kinds) (h : kind.matchLength? text = some length) :
    0 < length := by
  rcases mem_kinds_iff.1 mem with rfl | ⟨c, -, rfl⟩
  · exact numeralLength_pos (matchLength?_number.symm.trans h)
  · obtain ⟨_, -, rfl⟩ := matchLength?_signKind.1 h
    exact Nat.one_pos

/-- **The first character tells the kind** of a token. -/
theorem kind_of_match {c : Char} {rest : List Char} (mem : kind ∈ kinds)
    (h : kind.matchLength? (c :: rest) = some length) :
    kind = number ∧ (Unicode.isDecimalDigit c = true ∨ c = '.')
      ∨ kind = signKind c ∧ c ∈ signs := by
  rcases mem_kinds_iff.1 mem with rfl | ⟨sign, known, rfl⟩
  · obtain ⟨_, _, split, first⟩ :=
      exists_first_of_numeralLength? (matchLength?_number.symm.trans h)
    obtain ⟨rfl, -⟩ := List.cons.inj split
    exact .inl ⟨rfl, first⟩
  · obtain ⟨_, split, -⟩ := matchLength?_signKind.1 h
    obtain ⟨rfl, -⟩ := List.cons.inj split
    exact .inr ⟨rfl, known⟩

/-- **All terminals of expressions** are of these kinds. -/
theorem mem_kinds_of_mem_symbols {id : ProdId} (mem : .terminal kind ∈ grammar.symbols id) :
    kind ∈ kinds := by
  have known : ∀ production ∈ productions, ∀ kind, .terminal kind ∈ production.symbols →
      kind ∈ kinds := by
    simp [productions, kinds, signs, signKind]
  obtain ⟨production, mem, there⟩ := Grammar.exists_of_mem_symbols mem
  exact known production mem kind there

/-! ## The answer -/

/-- **A derivation of the input is the only one**: it lies below the only root, and its value is
what this is accepted with. -/
theorem single_root {f : Forest (Pattern .standard)} (rules : f.grammar = grammar)
    (packs : f.Packs (KindAt f.tokens)) {tree : Tree}
    (derivation : Derivation grammar (KindAt f.tokens) [.nonterminal "expr"] [tree] 0
      f.tokens.size) (ops : Operations V) {value : V}
    (means : tree.value? ops.semantics f.tokens = some value) :
    ∃ root, f.roots = [root] ∧ f.count root = some 1
      ∧ f.accept ops.semantics root = some value := by
  have own : Derivation f.grammar (KindAt f.tokens) [.nonterminal f.grammar.entry] [tree] 0
      f.tokens.size := by
    rw [rules]
    exact derivation
  have single : ∀ index kind kind', KindAt f.tokens index kind → KindAt f.tokens index kind' →
      kind = kind' := fun _ _ _ => KindAt.eq
  have ends : ∀ kind, ¬ KindAt f.tokens f.tokens.size kind :=
    fun kind stands => Nat.lt_irrefl _ stands.lt
  refine packs.exists_root_of_value (fun _ _ => KindAt.lt) rfl own ?_ means
  intro other derivation'
  rw [rules] at derivation'
  exact unique_expr single ends derivation' derivation

/-- **Every text has one reading at most.**  The lexer finds a place where nothing matches that may
stand there; or the text is read and is no expression, and it is said to be incomplete; or it has a
single root with a single tree, which is accepted with the value that is answered.  No text leads to
an empty token or to an expression without a reading. -/
theorem one_reading_of_text (ops : Operations V) (text : String) :
    (∃ offset expected, grammar.parse text = .error (.unexpected offset expected)
        ∧ evaluate ops text = .error (.notRead (.unexpected offset expected)))
      ∨ ∃ f, grammar.parse text = .ok f
          ∧ (f.roots = [] ∧ evaluate ops text = .error .incomplete
            ∨ ∃ root value, f.roots = [root] ∧ f.count root = some 1
                ∧ f.accept ops.semantics root = some value ∧ evaluate ops text = .ok value) := by
  obtain ⟨chart, lexer, asks, ⟨-, parsed, packs⟩ | ⟨-, error, refuses, fails⟩⟩ :=
    grammar.parse_cases text
  · refine .inr ⟨_, parsed, ?_⟩
    by_cases none : (Forest.ofChart grammar chart).roots = []
    · refine .inl ⟨none, ?_⟩
      simp only [evaluate, parsed, none]
    · obtain ⟨trees, derivation⟩ := derives_iff_exists_derivation.1 (packs.roots_ne_nil_iff.1 none)
      obtain ⟨tree, rfl⟩ := derivation.exists_eq_singleton
      obtain ⟨value, means⟩ := Tree.exists_value derivation (fun _ _ => KindAt.lt) ops.semantics
      obtain ⟨root, roots, count, accepted⟩ := single_root rfl packs derivation ops means
      refine .inr ⟨root, value, roots, count, accepted, ?_⟩
      simp only [evaluate, parsed, roots, accepted]
  · cases refuses with
    | unexpected unmatched =>
      refine .inl ⟨_, _, fails, ?_⟩
      simp only [evaluate, fails]
    | emptyToken matched empty =>
      obtain ⟨kind, mem, matched⟩ := matched
      have reading := Grammar.reading_of_asks asks
      exact absurd (matchLength_pos
        (reading.mem_of_mem_expected (fun _ _ => mem_kinds_of_mem_symbols) mem) matched)
        (Nat.lt_irrefl 0)

end Earley.Calculator
