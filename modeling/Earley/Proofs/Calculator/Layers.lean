import Earley.Calculator
import Earley.Proofs.Grammar.Layer
import Earley.Proofs.Pattern

/-!
# Proofs/Calculator/Layers — expressions have one derivation

Sums, products and factorials are layers of operators.  Powers and negations are not: they group to
the right, and their right operand may be a negation again.  Each of the six names settles before
the operators that it may go on with, by induction on the length of a derivation
(`settles_factor_and_expr`), so that the tokens of a whole input have one derivation
(`unique_expr`).
-/

namespace Earley.Calculator

variable {reads : Nat → Pattern .standard → Prop} {tree tree' : Tree} {span pos stop : Nat}

/-! ## The productions -/

/-- Sums and differences of terms. -/
def sums : LeftLayer grammar where
  name := "expr"
  base := "term"
  pass := 0
  operators := [(6, .literal "+"), (7, .literal "-")]
  operand := [.nonterminal "term"]
  productionsOf_eq := rfl
  symbols_pass := rfl
  symbols_operator := by
    simp only [List.forall_mem_cons]
    exact ⟨rfl, rfl, nofun⟩
  nodup := by decide

/-- Products, quotients and remainders of factors. -/
def products : LeftLayer grammar where
  name := "term"
  base := "factor"
  pass := 1
  operators := [(8, .literal "*"), (9, .literal "/"), (10, .literal "%")]
  operand := [.nonterminal "factor"]
  productionsOf_eq := rfl
  symbols_pass := rfl
  symbols_operator := by
    simp only [List.forall_mem_cons]
    exact ⟨rfl, rfl, rfl, nofun⟩
  nodup := by decide

/-- Factorials of groups. -/
def factorials : LeftLayer grammar where
  name := "ufact"
  base := "group"
  pass := 4
  operators := [(13, .literal "!")]
  operand := []
  productionsOf_eq := rfl
  symbols_pass := rfl
  symbols_operator := by
    simp only [List.forall_mem_cons]
    exact ⟨rfl, nofun⟩
  nodup := by decide

theorem productionsOf_factor : grammar.productionsOf "factor" = [2, 11] := rfl

theorem symbols_factor_power : grammar.symbols 2 = [.nonterminal "power"] := rfl

theorem symbols_factor_negation : grammar.symbols 11
    = [.terminal (.literal "-"), .nonterminal "factor"] := rfl

theorem productionsOf_power : grammar.productionsOf "power" = [3, 12] := rfl

theorem symbols_power_base : grammar.symbols 3 = [.nonterminal "ufact"] := rfl

theorem symbols_power_raised : grammar.symbols 12
    = [.nonterminal "ufact", .terminal (.literal "^"), .nonterminal "factor"] := rfl

theorem productionsOf_ufact : grammar.productionsOf "ufact" = [4, 13] := rfl

theorem symbols_ufact_base : grammar.symbols 4 = [.nonterminal "group"] := rfl

theorem symbols_ufact_factorial : grammar.symbols 13
    = [.nonterminal "ufact", .terminal (.literal "!")] := rfl

theorem productionsOf_group : grammar.productionsOf "group" = [5, 14] := rfl

theorem symbols_group_number : grammar.symbols 5 = [.terminal number] := rfl

theorem symbols_group_bracket : grammar.symbols 14
    = [.terminal (.literal "("), .nonterminal "expr", .terminal (.literal ")")] := rfl

/-- **A factor** is a power or a negated factor. -/
theorem derivation_factor : Derivation grammar reads [.nonterminal "factor"] [tree] pos stop
    ↔ (∃ inner, tree = .node 2 [inner]
        ∧ Derivation grammar reads [.nonterminal "power"] [inner] pos stop)
      ∨ ∃ inner, tree = .node 11 [.leaf pos, inner] ∧ reads pos (.literal "-")
        ∧ Derivation grammar reads [.nonterminal "factor"] [inner] (pos + 1) stop := by
  rw [derivation_rule_iff, productionsOf_factor]
  constructor
  · rintro ⟨id, rule, children, rfl, inner⟩
    rcases List.mem_pair.1 rule with rfl | rfl
    · rw [symbols_factor_power] at inner
      obtain ⟨tree, rfl⟩ := inner.exists_eq_singleton
      exact .inl ⟨tree, rfl, inner⟩
    · rw [symbols_factor_negation] at inner
      obtain ⟨_, rfl, minus, inner⟩ := derivation_terminal_iff.1 inner
      obtain ⟨tree, rfl⟩ := inner.exists_eq_singleton
      exact .inr ⟨tree, rfl, minus, inner⟩
  · rintro (⟨inner, rfl, derivation⟩ | ⟨inner, rfl, minus, derivation⟩)
    · exact ⟨2, by decide, _, rfl, derivation⟩
    · exact ⟨11, by decide, _, rfl, symbols_factor_negation ▸ .leaf minus derivation⟩

/-- **A power** is a factorial, or a factorial raised to a factor. -/
theorem derivation_power : Derivation grammar reads [.nonterminal "power"] [tree] pos stop
    ↔ (∃ inner, tree = .node 3 [inner]
        ∧ Derivation grammar reads [.nonterminal "ufact"] [inner] pos stop)
      ∨ ∃ front mid back, tree = .node 12 [front, .leaf mid, back]
        ∧ Derivation grammar reads [.nonterminal "ufact"] [front] pos mid
        ∧ reads mid (.literal "^")
        ∧ Derivation grammar reads [.nonterminal "factor"] [back] (mid + 1) stop := by
  rw [derivation_rule_iff, productionsOf_power]
  constructor
  · rintro ⟨id, rule, children, rfl, inner⟩
    rcases List.mem_pair.1 rule with rfl | rfl
    · rw [symbols_power_base] at inner
      obtain ⟨tree, rfl⟩ := inner.exists_eq_singleton
      exact .inl ⟨tree, rfl, inner⟩
    · rw [symbols_power_raised] at inner
      obtain ⟨front, _, mid, rfl, head, inner⟩ := derivation_nonterminal_iff.1 inner
      obtain ⟨_, rfl, hat, inner⟩ := derivation_terminal_iff.1 inner
      obtain ⟨back, rfl⟩ := inner.exists_eq_singleton
      exact .inr ⟨front, mid, back, rfl, head, hat, inner⟩
  · rintro (⟨inner, rfl, derivation⟩ | ⟨front, mid, back, rfl, head, hat, derivation⟩)
    · exact ⟨3, by decide, _, rfl, derivation⟩
    · refine ⟨12, by decide, _, rfl, ?_⟩
      rw [symbols_power_raised]
      exact derivation_nonterminal_iff.2 ⟨front, _, mid, rfl, head, .leaf hat derivation⟩

/-- **A group** is a number, or an expression between brackets. -/
theorem derivation_group : Derivation grammar reads [.nonterminal "group"] [tree] pos stop
    ↔ (tree = .node 5 [.leaf pos] ∧ reads pos number ∧ pos + 1 = stop)
      ∨ ∃ inner last, tree = .node 14 [.leaf pos, inner, .leaf last] ∧ reads pos (.literal "(")
        ∧ Derivation grammar reads [.nonterminal "expr"] [inner] (pos + 1) last
        ∧ reads last (.literal ")") ∧ last + 1 = stop := by
  rw [derivation_rule_iff, productionsOf_group]
  constructor
  · rintro ⟨id, rule, children, rfl, inner⟩
    rcases List.mem_pair.1 rule with rfl | rfl
    · rw [symbols_group_number] at inner
      obtain ⟨_, rfl, digits, tail⟩ := derivation_terminal_iff.1 inner
      obtain ⟨rfl, same⟩ := derivation_nil_iff.1 tail
      exact .inl ⟨rfl, digits, same⟩
    · rw [symbols_group_bracket] at inner
      obtain ⟨_, rfl, opens, inner⟩ := derivation_terminal_iff.1 inner
      obtain ⟨tree, _, last, rfl, middle, tail⟩ := derivation_nonterminal_iff.1 inner
      obtain ⟨_, rfl, closes, tail⟩ := derivation_terminal_iff.1 tail
      obtain ⟨rfl, same⟩ := derivation_nil_iff.1 tail
      exact .inr ⟨tree, last, rfl, opens, middle, closes, same⟩
  · rintro (⟨rfl, digits, rfl⟩ | ⟨inner, last, rfl, opens, derivation, closes, rfl⟩)
    · exact ⟨5, by decide, _, rfl, symbols_group_number ▸ .leaf digits (.nil _)⟩
    · refine ⟨14, by decide, _, rfl, ?_⟩
      rw [symbols_group_bracket]
      exact .leaf opens (derivation_nonterminal_iff.2 ⟨inner, _, last, rfl, derivation,
        .leaf closes (.nil _)⟩)

/-! ## One derivation -/

/-- What a factorial may go on with. -/
def ufactMore : List (Pattern .standard) := [] ++ factorials.operators.map Prod.snd

/-- What a power and a factor may go on with. -/
def powerMore : List (Pattern .standard) := ufactMore ++ [.literal "^"]

/-- What a term may go on with. -/
def termMore : List (Pattern .standard) := powerMore ++ products.operators.map Prod.snd

/-- What an expression may go on with. -/
def exprMore : List (Pattern .standard) := termMore ++ sums.operators.map Prod.snd

/-- What a power and its parts begin with. -/
def openings : List (Symbol (Pattern .standard)) :=
  [.nonterminal "power", .nonterminal "ufact", .nonterminal "group", .terminal number,
    .terminal (.literal "(")]

theorem exists_first_of_openings : ∀ name, .nonterminal name ∈ openings →
    ∀ id ∈ grammar.productionsOf name,
      ∃ first rest, grammar.symbols id = first :: rest ∧ first ∈ openings := by
  intro name mem
  obtain rfl | rfl | rfl : name = "power" ∨ name = "ufact" ∨ name = "group" := by
    simpa [openings] using mem
  · simp [productionsOf_power, symbols_power_base, symbols_power_raised, openings]
  · simp [productionsOf_ufact, symbols_ufact_base, symbols_ufact_factorial, openings]
  · simp [productionsOf_group, symbols_group_number, symbols_group_bracket, openings]

/-- **A power begins** with a number or a bracket. -/
theorem first_of_power (h : Derives grammar reads [.nonterminal "power"] pos stop) :
    reads pos number ∨ reads pos (.literal "(") := by
  obtain ⟨kind, mem, stand⟩ := h.exists_first exists_first_of_openings (by simp [openings])
  obtain rfl | rfl : kind = number ∨ kind = .literal "(" := by simpa [openings] using mem
  · exact .inl stand
  · exact .inr stand

section Settles

variable (single : ∀ index kind kind', reads index kind → reads index kind' → kind = kind')

include single

theorem settles_group (expr : Settles grammar reads span [.nonterminal "expr"] exprMore) :
    Settles grammar reads (span + 1) [.nonterminal "group"] [] := by
  refine settles_name_iff.2 fun pos stop stop' tree tree' short h h' _ _ => ?_
  have apart : ∀ {index}, reads index number → ¬ reads index (.literal "(") :=
    fun digits opens => Pattern.ofSource_ne_literal (single _ _ _ digits opens)
  have closed : ∀ {index}, reads index (.literal ")") → Clear reads exprMore index :=
    fun closes => .of_reads single closes (by decide)
  rcases derivation_group.1 h with
    ⟨rfl, digits, rfl⟩ | ⟨inner, last, rfl, opens, middle, closes, rfl⟩
  · rcases derivation_group.1 h' with ⟨rfl, -, rfl⟩ | ⟨_, _, -, opens, -⟩
    · exact ⟨rfl, rfl⟩
    · exact absurd opens (apart digits)
  · rcases derivation_group.1 h' with ⟨-, digits, -⟩ | ⟨_, _, rfl, -, middle', closes', rfl⟩
    · exact absurd opens (apart digits)
    · obtain ⟨rfl, rfl⟩ := settles_name_iff.1 expr (by omega) middle middle' (closed closes)
        (closed closes')
      exact ⟨rfl, rfl⟩

/-- A power settles if factorials do and shorter factors. -/
theorem settles_power
    (ufact : Settles grammar reads (span + 1) [.nonterminal "ufact"] ufactMore)
    (factor : Settles grammar reads span [.nonterminal "factor"] powerMore) :
    Settles grammar reads (span + 1) [.nonterminal "power"] powerMore := by
  refine settles_name_iff.2 fun pos stop stop' tree tree' short h h' ends ends' => ?_
  have base : ∀ {index}, Clear reads powerMore index → Clear reads ufactMore index :=
    fun clear => clear.mono (List.subset_append_left _ _)
  have raised : ∀ {index}, reads index (.literal "^") → Clear reads ufactMore index :=
    fun hat => .of_reads single hat (by decide)
  have idle : ∀ {index}, Clear reads powerMore index → ¬ reads index (.literal "^") :=
    fun clear => clear _ (by decide)
  rcases derivation_power.1 h with
    ⟨inner, rfl, first⟩ | ⟨front, mid, back, rfl, first, hat, second⟩
  · rcases derivation_power.1 h' with ⟨_, rfl, first'⟩ | ⟨_, _, _, rfl, first', hat', -⟩
    · obtain ⟨rfl, rfl⟩ := settles_name_iff.1 ufact short first first' (base ends) (base ends')
      exact ⟨rfl, rfl⟩
    · obtain ⟨-, rfl⟩ := settles_name_iff.1 ufact short first first' (base ends) (raised hat')
      exact absurd hat' (idle ends)
  · have := first.derives.le
    have := second.derives.le
    rcases derivation_power.1 h' with ⟨_, rfl, first'⟩ | ⟨_, _, _, rfl, first', hat', second'⟩
    · obtain ⟨-, rfl⟩ := settles_name_iff.1 ufact (by omega) first first' (raised hat) (base ends')
      exact absurd hat (idle ends')
    · obtain ⟨rfl, rfl⟩ := settles_name_iff.1 ufact (by omega) first first' (raised hat)
        (raised hat')
      obtain ⟨rfl, rfl⟩ := settles_name_iff.1 factor (by omega) second second' ends ends'
      exact ⟨rfl, rfl⟩

/-- A factor settles if powers do and shorter factors. -/
theorem settles_factor
    (power : Settles grammar reads (span + 1) [.nonterminal "power"] powerMore)
    (factor : Settles grammar reads span [.nonterminal "factor"] powerMore) :
    Settles grammar reads (span + 1) [.nonterminal "factor"] powerMore := by
  refine settles_name_iff.2 fun pos stop stop' tree tree' short h h' ends ends' => ?_
  have apart : ∀ {inner stop}, reads pos (.literal "-") →
      ¬ Derivation grammar reads [.nonterminal "power"] [inner] pos stop := by
    intro inner stop minus derivation
    rcases first_of_power derivation.derives with digits | opens
    · exact Pattern.ofSource_ne_literal (single _ _ _ digits minus)
    · exact absurd (single _ _ _ opens minus) (by decide)
  rcases derivation_factor.1 h with ⟨inner, rfl, plain⟩ | ⟨inner, rfl, minus, behind⟩
  · rcases derivation_factor.1 h' with ⟨_, rfl, plain'⟩ | ⟨_, -, minus', -⟩
    · obtain ⟨rfl, rfl⟩ := settles_name_iff.1 power short plain plain' ends ends'
      exact ⟨rfl, rfl⟩
    · exact absurd plain (apart minus')
  · rcases derivation_factor.1 h' with ⟨_, -, plain'⟩ | ⟨_, rfl, -, behind'⟩
    · exact absurd plain' (apart minus)
    · obtain ⟨rfl, rfl⟩ := settles_name_iff.1 factor (by omega) behind behind' ends ends'
      exact ⟨rfl, rfl⟩

/-- **Factors and expressions settle**, however long they are. -/
theorem settles_factor_and_expr (span : Nat) :
    Settles grammar reads span [.nonterminal "factor"] powerMore
      ∧ Settles grammar reads span [.nonterminal "expr"] exprMore := by
  induction span with
  | zero => exact ⟨settles_zero, settles_zero⟩
  | succ span ih =>
    obtain ⟨shorterFactor, shorterExpr⟩ := ih
    have group := settles_group single shorterExpr
    have ufact : Settles grammar reads (span + 1) [.nonterminal "ufact"] ufactMore :=
      LeftLayer.settles (L := factorials) single (by decide) group settles_nil
    have power := settles_power single ufact shorterFactor
    have factor := settles_factor single power shorterFactor
    have term : Settles grammar reads (span + 1) [.nonterminal "term"] termMore :=
      LeftLayer.settles (L := products) single (by decide) factor factor
    exact ⟨factor, LeftLayer.settles (L := sums) single (by decide) term term⟩

/-- **A whole input has one derivation as an expression.** -/
theorem unique_expr (ends : ∀ kind, ¬ reads stop kind)
    (h : Derivation grammar reads [.nonterminal "expr"] [tree] pos stop)
    (h' : Derivation grammar reads [.nonterminal "expr"] [tree'] pos stop) : tree = tree' := by
  have clear : Clear reads exprMore stop := fun kind _ => ends kind
  have le := h.derives.le
  have settles := (settles_factor_and_expr single (stop + 1)).2
  exact (settles_name_iff.1 settles (by omega) h h' clear clear).1

end Settles

end Earley.Calculator
