import Earley.Proofs.Calculator.Answers
import Earley.Proofs.Words
import Mathlib.Tactic.FinCases
import Mathlib.Tactic.IntervalCases

/-!
# Proofs/Calculator/Printing — expressions that are written out have the value that they mean

Expressions are trees over numerals and operators.  Each has a layer of the grammar, and where an
operand belongs to a looser layer than its operator asks for it is written between brackets, and
nowhere else (`Expr.words`).  Written with any blanks between the words, an expression is read again
as itself: its words are tokens of their own (`Separated.laid`), they derive the layer of the
expression with the value that it means (`Expr.evaluates`), and no other derivation exists.
-/

namespace Earley.Calculator

open Unicode (isBlank isDecimalDigit)

/-! ## Expressions -/

/-- **Numerals** as they are written. -/
structure Numeral where
  text : String
  valid : IsNumeral text.toList

/-- Operators between two operands. -/
inductive Operator where
  | add
  | sub
  | mul
  | div
  | mod
  | pow

/-- **Expressions.** -/
inductive Expr where
  | numeral (n : Numeral)
  | binary (op : Operator) (left right : Expr)
  | negation (operand : Expr)
  | factorial (operand : Expr)

namespace Operator

/-- The character that is written for an operator. -/
def sign : Operator → Char
  | add => '+'
  | sub => '-'
  | mul => '*'
  | div => '/'
  | mod => '%'
  | pow => '^'

/-- The layer of an operator: they are numbered from the loosest one, 0 for sums, to the tightest
one, 5 for numerals and brackets. -/
def layer : Operator → Nat
  | add => 0
  | sub => 0
  | mul => 1
  | div => 1
  | mod => 1
  | pow => 3

/-- The loosest layer of a left operand: the own one, where operators group to the left. -/
def left : Operator → Nat
  | pow => 4
  | op => op.layer

/-- The loosest layer of a right operand: a tighter one, where operators group to the left, and for
a power a negation, which is looser. -/
def right : Operator → Nat
  | pow => 2
  | op => op.layer + 1

/-- What an operator does. -/
def apply {V : Type} (ops : Operations V) : Operator → V → V → V
  | add => ops.add
  | sub => ops.sub
  | mul => ops.mul
  | div => ops.div
  | mod => ops.mod
  | pow => ops.pow

/-- The production of an operator. -/
def production : Operator → ProdId
  | add => 6
  | sub => 7
  | mul => 8
  | div => 9
  | mod => 10
  | pow => 12

end Operator

/-- A character as a word. -/
def signWord (c : Char) : Word .standard := ⟨signKind c, String.singleton c⟩

/-- Brackets around words, if they are needed. -/
def bracket (needed : Bool) (words : List (Word .standard)) : List (Word .standard) :=
  if needed then signWord '(' :: (words ++ [signWord ')']) else words

namespace Expr

/-- **The meaning of an expression.** -/
def eval {V : Type} (ops : Operations V) : Expr → V
  | numeral n => ops.numeral n.text
  | binary op left right => op.apply ops (left.eval ops) (right.eval ops)
  | negation operand => ops.neg (operand.eval ops)
  | factorial operand => ops.factorial (operand.eval ops)

/-- The layer of an expression. -/
def layer : Expr → Nat
  | numeral _ => 5
  | binary op _ _ => op.layer
  | negation _ => 2
  | factorial _ => 4

/-- **The words of an expression**, with brackets around the operands that are too loose. -/
def words : Expr → List (Word .standard)
  | numeral n => [⟨number, n.text⟩]
  | binary op left right => bracket (left.layer < op.left) left.words
      ++ signWord op.sign :: bracket (right.layer < op.right) right.words
  | negation operand => signWord '-' :: bracket (operand.layer < 2) operand.words
  | factorial operand => bracket (operand.layer < 4) operand.words ++ [signWord '!']

end Expr

/-! ## Words in a text -/

/-- **Separated words**: numerals and signs, with a sign behind each numeral but the last. -/
inductive Separated : List (Word .standard) → Prop
  | nil : Separated []
  | sign {c : Char} {words : List (Word .standard)} (known : c ∈ signs) (rest : Separated words) :
      Separated (signWord c :: words)
  | numeral {words : List (Word .standard)} (n : Numeral)
      (behind : ∀ word ∈ words.head?, ∃ c ∈ signs, word = signWord c) (rest : Separated words) :
      Separated (⟨number, n.text⟩ :: words)

theorem Separated.append_sign {words words' : List (Word .standard)} {c : Char}
    (h : Separated words) (known : c ∈ signs) (h' : Separated words') :
    Separated (words ++ signWord c :: words') := by
  induction h with
  | nil => exact .sign known h'
  | sign known' _ ih => exact .sign known' ih
  | @numeral words n behind _ ih =>
    refine .numeral n ?_ ih
    cases words with
    | nil =>
      rintro _ ⟨⟩
      exact ⟨c, known, rfl⟩
    | cons word words => exact behind

theorem Separated.bracket {words : List (Word .standard)} (h : Separated words) (needed : Bool) :
    Separated (bracket needed words) := by
  cases needed with
  | false => exact h
  | true => exact .sign (by decide) (h.append_sign (by decide) .nil)

theorem Expr.separated (e : Expr) : Separated e.words := by
  induction e with
  | numeral n => exact .numeral n (fun _ none => nomatch none) .nil
  | binary op left right ihLeft ihRight =>
    have known : op.sign ∈ signs := by cases op <;> decide
    exact (ihLeft.bracket _).append_sign known (ihRight.bracket _)
  | negation operand ih =>
    have known : '-' ∈ signs := by decide
    exact .sign known (ih.bracket _)
  | factorial operand ih =>
    have known : '!' ∈ signs := by decide
    exact (ih.bracket _).append_sign known .nil

theorem of_mem_signs : ∀ c ∈ signs,
    isDecimalDigit c = false ∧ c ≠ '.' ∧ isBlank c = false := by
  intro c mem
  fin_cases mem <;> decide

/-- Behind a numeral neither a digit nor a point follows. -/
theorem stop_of_spaced {words : List (Word .standard)} {text : List Char}
    (spaced : Spaced words text) (behind : ∀ word ∈ words.head?, ∃ c ∈ signs, word = signWord c) :
    ∀ c ∈ text.head?, isDecimalDigit c = false ∧ c ≠ '.' := by
  have solid : ∀ {c}, isBlank c = true → isDecimalDigit c = false ∧ c ≠ '.' := by
    intro c blank
    have other : ¬ (isDecimalDigit c = true ∨ c = '.') := fun first =>
      Bool.false_ne_true ((not_isBlank_of_first first).symm.trans blank)
    simpa using other
  cases spaced with
  | nil blank => exact fun c first => solid (blank c (List.mem_of_head? first))
  | @cons word words gap text blank _ =>
    obtain ⟨c, known, rfl⟩ := behind word rfl
    cases gap with
    | nil =>
      rintro d first
      obtain rfl : c = d := by simpa [signWord] using first
      exact ⟨(of_mem_signs c known).1, (of_mem_signs c known).2.1⟩
    | cons d gap =>
      rintro _ ⟨⟩
      exact solid (blank d List.mem_cons_self)

/-- A sign is laid out in front of a text, whatever follows. -/
theorem laid_cons_sign {c : Char} {words : List (Word .standard)} {gap text : List Char}
    (known : c ∈ signs) (blank : AllBlank gap) (others : Laid kinds words text) :
    Laid kinds (signWord c :: words) (gap ++ ((signWord c).text.toList ++ text)) := by
  obtain ⟨digit, point, solid⟩ := of_mem_signs c known
  have single : (signWord c).text.toList = [c] := String.toList_singleton c
  refine .cons blank (by simp [signWord]) ?_ ?_ ?_ others
  · rw [single]
    rintro _ ⟨⟩
    exact solid
  · rw [single]
    exact matchLength?_signKind.2 ⟨text, rfl, rfl⟩
  · rw [single]
    intro kind mem length matched
    rcases kind_of_match mem matched with ⟨-, first⟩ | ⟨same, -⟩
    · simp [digit, point] at first
    · exact same

/-- A numeral is laid out in front of a text, if neither a digit nor a point follows. -/
theorem laid_cons_numeral {words : List (Word .standard)} {gap text : List Char} (n : Numeral)
    (blank : AllBlank gap) (stop : ∀ c ∈ text.head?, isDecimalDigit c = false ∧ c ≠ '.')
    (others : Laid kinds words text) :
    Laid kinds (⟨number, n.text⟩ :: words) (gap ++ (n.text.toList ++ text)) := by
  obtain ⟨c, tail, split, first⟩ := n.valid.exists_first
  have present : n.text ≠ "" := by
    intro none
    rw [none] at split
    exact nomatch split
  have begins : ∀ d ∈ n.text.toList.head?, isBlank d = false := by
    rw [split]
    rintro _ ⟨⟩
    exact not_isBlank_of_first first
  have own : number.matchLength? (n.text.toList ++ text) = some n.text.toList.length :=
    matchLength?_number.trans (n.valid.numeralLength?_append stop)
  refine .cons blank present begins own (fun kind mem length matched => ?_) others
  change kind.matchLength? (n.text.toList ++ text) = _ at matched
  rw [split] at matched
  rcases kind_of_match mem matched with ⟨same, -⟩ | ⟨-, known⟩
  · exact same
  · obtain ⟨digit, point, -⟩ := of_mem_signs c known
    simp [digit, point] at first

/-- **Separated words are laid out** wherever blanks are put between them. -/
theorem Separated.laid {words : List (Word .standard)} {text : List Char} (h : Separated words)
    (spaced : Spaced words text) : Laid kinds words text := by
  induction h generalizing text with
  | nil =>
    cases spaced with
    | nil blank => exact .nil blank
  | sign known _ ih =>
    cases spaced with
    | cons blank others => exact laid_cons_sign known blank (ih others)
  | numeral n behind _ ih =>
    cases spaced with
    | cons blank others =>
      exact laid_cons_numeral n blank (stop_of_spaced others behind) (ih others)

/-! ## Derivations with a value -/

/-- The names of the layers, from the loosest to the tightest. -/
def layerName : Nat → String
  | 0 => "expr"
  | 1 => "term"
  | 2 => "factor"
  | 3 => "power"
  | 4 => "ufact"
  | _ => "group"

/-- The production that passes on from a layer to the next tighter one has the number of the
layer. -/
theorem pass_spec {V : Type} (ops : Operations V) : ∀ layer < 5,
    layer ∈ grammar.productionsOf (layerName layer)
      ∧ grammar.symbols layer = [.nonterminal (layerName (layer + 1))]
      ∧ ∀ value, ops.reduce layer [value] = value := by
  intro layer lt
  interval_cases layer <;> exact ⟨by decide, rfl, fun _ => rfl⟩

/-- The production of an operator has operands of the layers that it asks for. -/
theorem Operator.production_spec {V : Type} (ops : Operations V) (op : Operator) :
    op.production ∈ grammar.productionsOf (layerName op.layer)
      ∧ grammar.symbols op.production = [.nonterminal (layerName op.left),
          .terminal (signKind op.sign), .nonterminal (layerName op.right)]
      ∧ ∀ x sign y, ops.reduce op.production [x, sign, y] = op.apply ops x y := by
  cases op <;> exact ⟨by decide, rfl, fun _ _ _ => rfl⟩

section Evaluates

variable {V : Type} {ops : Operations V} {tokens : Array (Token (Pattern .standard))}
  {word : Word .standard} {words : List (Word .standard)} {layer pos mid stop : Nat} {value x y : V}

/-- **A stretch of tokens has a value** in a layer: a derivation of its name has this value. -/
def Evaluates (ops : Operations V) (tokens : Array (Token (Pattern .standard)))
    (layer pos stop : Nat) (value : V) : Prop :=
  ∃ tree, Derivation grammar (KindAt tokens) [.nonterminal (layerName layer)] [tree] pos stop
    ∧ tree.value? ops.semantics tokens = some value

/-- **What has a value has it in all looser layers.** -/
theorem Evaluates.lift {loose : Nat} (h : Evaluates ops tokens layer pos stop value)
    (le : loose ≤ layer) (bound : layer ≤ 5) : Evaluates ops tokens loose pos stop value := by
  induction layer, le using Nat.le_induction with
  | base => exact h
  | succ layer le ih =>
    obtain ⟨tree, derivation, means⟩ := h
    obtain ⟨rule, symbols, pass⟩ := pass_spec ops layer (by omega)
    refine ih ⟨.node layer [tree], .singleton_node rule (symbols ▸ derivation), ?_⟩ (by omega)
    rw [Tree.value?_node (Tree.values?_cons means rfl)]
    exact congrArg some (pass value)

/-- A word stands for its kind, and its value is that of its text. -/
theorem leaf_spec (ops : Operations V) (place : tokens[pos]?.map wordOf = some word) :
    KindAt tokens pos word.kind
      ∧ (Tree.leaf pos).value? ops.semantics tokens = some (ops.numeral word.text) := by
  obtain ⟨token, present, rfl⟩ := Option.map_eq_some_iff.1 place
  exact ⟨⟨token, present, rfl⟩, Tree.value?_leaf present⟩

namespace Evaluates

theorem numeral {text : String} (place : tokens[pos]?.map wordOf = some ⟨number, text⟩) :
    Evaluates ops tokens 5 pos (pos + 1) (ops.numeral text) := by
  obtain ⟨digits, leaf⟩ := leaf_spec ops place
  exact ⟨.node 5 [.leaf pos], derivation_group.2 (.inl ⟨rfl, digits, rfl⟩),
    Tree.value?_node (Tree.values?_cons leaf rfl)⟩

theorem brackets (opens : tokens[pos]?.map wordOf = some (signWord '('))
    (inner : Evaluates ops tokens 0 (pos + 1) mid value)
    (closes : tokens[mid]?.map wordOf = some (signWord ')')) :
    Evaluates ops tokens 5 pos (mid + 1) value := by
  obtain ⟨left, first⟩ := leaf_spec ops opens
  obtain ⟨right, last⟩ := leaf_spec ops closes
  obtain ⟨tree, derivation, means⟩ := inner
  have own : (Tree.node 14 [.leaf pos, tree, .leaf mid]).value? ops.semantics tokens
      = some (ops.semantics.reduce 14 [_, value, _]) :=
    Tree.value?_node (Tree.values?_cons first
      (Tree.values?_cons means (Tree.values?_cons last rfl)))
  exact ⟨_, derivation_group.2 (.inr ⟨tree, mid, rfl, left, derivation, right, rfl⟩), own⟩

theorem binary {op : Operator} (left : Evaluates ops tokens op.left pos mid x)
    (place : tokens[mid]?.map wordOf = some (signWord op.sign))
    (right : Evaluates ops tokens op.right (mid + 1) stop y) :
    Evaluates ops tokens op.layer pos stop (op.apply ops x y) := by
  obtain ⟨rule, symbols, meaning⟩ := op.production_spec ops
  obtain ⟨front, head, first⟩ := left
  obtain ⟨sign, leaf⟩ := leaf_spec ops place
  obtain ⟨back, tail, second⟩ := right
  have own : (Tree.node op.production [front, .leaf mid, back]).value? ops.semantics tokens
      = some (ops.reduce op.production [x, _, y]) :=
    Tree.value?_node (Tree.values?_cons first
      (Tree.values?_cons leaf (Tree.values?_cons second rfl)))
  rw [meaning] at own
  refine ⟨_, .singleton_node rule ?_, own⟩
  rw [symbols]
  exact derivation_nonterminal_iff.2 ⟨front, _, mid, rfl, head, .leaf sign tail⟩

theorem negation (place : tokens[pos]?.map wordOf = some (signWord '-'))
    (inner : Evaluates ops tokens 2 (pos + 1) stop x) :
    Evaluates ops tokens 2 pos stop (ops.neg x) := by
  obtain ⟨sign, leaf⟩ := leaf_spec ops place
  obtain ⟨tree, derivation, means⟩ := inner
  have own : (Tree.node 11 [.leaf pos, tree]).value? ops.semantics tokens
      = some (ops.semantics.reduce 11 [_, x]) :=
    Tree.value?_node (Tree.values?_cons leaf (Tree.values?_cons means rfl))
  exact ⟨_, derivation_factor.2 (.inr ⟨tree, rfl, sign, derivation⟩), own⟩

theorem factorial (inner : Evaluates ops tokens 4 pos mid x)
    (place : tokens[mid]?.map wordOf = some (signWord '!')) :
    Evaluates ops tokens 4 pos (mid + 1) (ops.factorial x) := by
  obtain ⟨tree, derivation, means⟩ := inner
  obtain ⟨sign, leaf⟩ := leaf_spec ops place
  have own : (Tree.node 13 [tree, .leaf mid]).value? ops.semantics tokens
      = some (ops.semantics.reduce 13 [x, _]) :=
    Tree.value?_node (Tree.values?_cons means (Tree.values?_cons leaf rfl))
  exact ⟨_, factorials.derivation_iff.2 (.inr ⟨_, List.mem_singleton_self _, tree, mid, [], rfl,
    derivation, sign, .nil _⟩), own⟩

/-- **An operand has its value** in the layer that is asked for, between brackets if it needs
them. -/
theorem operand {required : Nat} (bound : layer ≤ 5) (bound' : required ≤ 5)
    (h : ∀ pos, WordsAt tokens pos words →
      Evaluates ops tokens layer pos (pos + words.length) value)
    (place : WordsAt tokens pos (bracket (layer < required) words)) :
    Evaluates ops tokens required pos (pos + (bracket (layer < required) words).length) value := by
  by_cases loose : layer < required
  · simp only [bracket, loose, decide_true, if_true] at place ⊢
    obtain ⟨opens, place⟩ := place
    obtain ⟨inside, closes, -⟩ := wordsAt_append.1 place
    have whole := brackets opens ((h _ inside).lift (Nat.zero_le _) bound) closes
    have stop : pos + (signWord '(' :: (words ++ [signWord ')'])).length
        = pos + 1 + words.length + 1 := by
      simp only [List.length_cons, List.length_append, List.length_nil]
      omega
    rw [stop]
    exact whole.lift bound' (Nat.le_refl 5)
  · simp only [bracket, loose, decide_false, Bool.false_eq_true, if_false] at place ⊢
    exact (h _ place).lift (Nat.not_lt.1 loose) bound

end Evaluates

theorem Operator.layers_le (op : Operator) : op.layer ≤ 5 ∧ op.left ≤ 5 ∧ op.right ≤ 5 := by
  cases op <;> decide

theorem Expr.layer_le (e : Expr) : e.layer ≤ 5 := by
  cases e with
  | numeral n => exact Nat.le_refl 5
  | binary op left right => exact op.layers_le.1
  | negation operand => exact Nat.le_of_ble_eq_true rfl
  | factorial operand => exact Nat.le_of_ble_eq_true rfl

/-- **The words of an expression have its value** in its layer. -/
theorem Expr.evaluates (ops : Operations V) (e : Expr) (pos : Nat)
    (place : WordsAt tokens pos e.words) :
    Evaluates ops tokens e.layer pos (pos + e.words.length) (e.eval ops) := by
  induction e generalizing pos with
  | numeral n => exact .numeral place.1
  | binary op left right ihLeft ihRight =>
    obtain ⟨-, boundLeft, boundRight⟩ := op.layers_le
    obtain ⟨first, sign, second⟩ := wordsAt_append.1 place
    have front := Evaluates.operand left.layer_le boundLeft ihLeft first
    have back := Evaluates.operand right.layer_le boundRight ihRight second
    have whole := front.binary sign back
    have stop : pos + (Expr.binary op left right).words.length
        = pos + (bracket (left.layer < op.left) left.words).length + 1
          + (bracket (right.layer < op.right) right.words).length := by
      rw [Expr.words, List.length_append, List.length_cons]
      omega
    rw [stop]
    exact whole
  | negation operand ih =>
    obtain ⟨sign, inner⟩ := place
    have whole := (Evaluates.operand operand.layer_le (by decide) ih inner).negation sign
    have stop : pos + (Expr.negation operand).words.length
        = pos + 1 + (bracket (operand.layer < 2) operand.words).length := by
      rw [Expr.words, List.length_cons]
      omega
    rw [stop]
    exact whole
  | factorial operand ih =>
    obtain ⟨inner, sign, -⟩ := wordsAt_append.1 place
    have whole := (Evaluates.operand operand.layer_le (by decide) ih inner).factorial sign
    rw [Expr.words, List.length_append, ← Nat.add_assoc]
    exact whole

/-- **The tokens of an expression have its value.** -/
theorem Expr.evaluates_whole (ops : Operations V) (e : Expr)
    (spelled : tokens.toList.map wordOf = e.words) :
    Evaluates ops tokens 0 0 tokens.size (e.eval ops) := by
  have size : 0 + e.words.length = tokens.size := by
    rw [← spelled, List.length_map, Array.length_toList, Nat.zero_add]
  have whole := e.evaluates ops 0 (wordsAt_zero spelled)
  rw [size] at whole
  exact whole.lift (Nat.zero_le _) e.layer_le

end Evaluates

/-! ## Reading what was written -/

/-- **Expressions that are written out have the value that they mean.**  Written with brackets only
where a layer asks for them and with any blanks between its words, an expression has a single root,
which is accepted with its value. -/
theorem accept_printed {V : Type} (ops : Operations V) (e : Expr) (text : String)
    (spaced : Spaced e.words text.toList) :
    ∃ f root, grammar.parse text = .ok f ∧ f.roots = [root]
      ∧ f.accept ops.semantics root = some (e.eval ops)
      ∧ evaluate ops text = .ok (e.eval ops) := by
  have derives : ∀ tokens : Array (Token (Pattern .standard)), tokens.toList.map wordOf = e.words →
      Derives grammar (KindAt tokens) [.nonterminal "expr"] 0 tokens.size := by
    intro tokens spelled
    obtain ⟨tree, derivation, -⟩ := e.evaluates_whole ops spelled
    exact derivation.derives
  obtain ⟨f, parsed, rules, packs, spelled⟩ :=
    exists_forest_of_laid (fun _ _ => mem_kinds_of_mem_symbols) (e.separated.laid spaced) derives
  obtain ⟨tree, derivation, means⟩ := e.evaluates_whole ops spelled
  obtain ⟨root, roots, -, accepted⟩ := single_root rules packs derivation ops means
  refine ⟨f, root, parsed, roots, accepted, ?_⟩
  simp only [evaluate, parsed, roots, accepted]

/-- The operations that write an expression with brackets around every operation. -/
def outline : Operations String where
  numeral text := text
  add x y := "(" ++ x ++ "+" ++ y ++ ")"
  sub x y := "(" ++ x ++ "-" ++ y ++ ")"
  mul x y := "(" ++ x ++ "*" ++ y ++ ")"
  div x y := "(" ++ x ++ "/" ++ y ++ ")"
  mod x y := "(" ++ x ++ "%" ++ y ++ ")"
  neg x := "(-" ++ x ++ ")"
  pow x y := "(" ++ x ++ "^" ++ y ++ ")"
  factorial x := "(" ++ x ++ "!)"

/-- A negated power of a negated factorial. -/
theorem accept_printed_negations : ∃ f root, grammar.parse "-2 ^ -(1 + .5)!" = .ok f
    ∧ f.roots = [root] ∧ f.accept outline.semantics root = some "(-(2^(-((1+.5)!))))"
    ∧ evaluate outline "-2 ^ -(1 + .5)!" = .ok "(-(2^(-((1+.5)!))))" := by
  have digit : ∀ {c}, isDecimalDigit c = true → ∀ d ∈ [c], isDecimalDigit d = true :=
    fun h _ mem => List.mem_singleton.1 mem ▸ h
  let two : Numeral := ⟨"2", @IsNumeral.whole ['2'] (by decide) (digit (by decide))⟩
  let one : Numeral := ⟨"1", @IsNumeral.whole ['1'] (by decide) (digit (by decide))⟩
  let half : Numeral :=
    ⟨".5", @IsNumeral.point [] ['5'] (.inr (by decide)) nofun (digit (by decide))⟩
  let e : Expr := .negation (.binary .pow (.numeral two)
    (.negation (.factorial (.binary .add (.numeral one) (.numeral half)))))
  have spaced := @Spaced.cons .standard (signWord '-') _ [] _ (by decide) <|
    @Spaced.cons .standard ⟨number, "2"⟩ _ [] _ (by decide) <|
    @Spaced.cons .standard (signWord '^') _ [' '] _ (by decide) <|
    @Spaced.cons .standard (signWord '-') _ [' '] _ (by decide) <|
    @Spaced.cons .standard (signWord '(') _ [] _ (by decide) <|
    @Spaced.cons .standard ⟨number, "1"⟩ _ [] _ (by decide) <|
    @Spaced.cons .standard (signWord '+') _ [' '] _ (by decide) <|
    @Spaced.cons .standard ⟨number, ".5"⟩ _ [' '] _ (by decide) <|
    @Spaced.cons .standard (signWord ')') _ [] _ (by decide) <|
    @Spaced.cons .standard (signWord '!') _ [] _ (by decide) <| @Spaced.nil .standard [] (by decide)
  refine accept_printed outline e "-2 ^ -(1 + .5)!" ?_
  convert spaced using 1
  · rfl
  · rfl

end Earley.Calculator
