import Earley.Proofs.RuleText.Lines
import Earley.Proofs.RuleText.Writing

/-!
# Proofs/RuleText/Alternatives — one production and all of them

A rule can be read as the one production that it has or as a text of a single line.  Both ways read
the same name and the same alternatives, and what can still fail after that is only a regular
expression that the engine refuses (`ReadUnless`).  The first refusal in the order of the text is
the error.  Where there are several alternatives, the first way refuses them before it looks at any
expression.
-/

namespace Earley.RuleText

universe u v w

variable {E : Engine}

/-! ## Readings that a refusal stops -/

/-- **A reading that only a refusal stops**: it makes something fitting if there is none, and
otherwise ends with the fault of the refusal. -/
inductive ReadUnless {ρ : Type u} {ε : Type v} {α : Type w} (fault : ρ → ε) (Fits : α → Prop) :
    Option ρ → Except ε α → Prop
  | made {x : α} (fits : Fits x) : ReadUnless fault Fits none (.ok x)
  | failed (refusal : ρ) : ReadUnless fault Fits (some refusal) (.error (fault refusal))

namespace ReadUnless

variable {ρ : Type u} {ε ε' α β : Type} {fault : ρ → ε} {Fits : α → Prop} {refusal? : Option ρ}
  {outcome : Except ε α}

theorem eq_error {refusal : ρ} (h : ReadUnless fault Fits (some refusal) outcome) :
    outcome = .error (fault refusal) := by
  cases h
  rfl

/-- What was made is renamed. -/
theorem map {Fits' : β → Prop} (h : ReadUnless fault Fits refusal? outcome) (f : α → β)
    (fits : ∀ x, Fits x → Fits' (f x)) : ReadUnless fault Fits' refusal? (outcome.map f) := by
  cases h with
  | made made => exact .made (fits _ made)
  | failed refusal => exact .failed refusal

/-- The fault is renamed. -/
theorem mapError (h : ReadUnless fault Fits refusal? outcome) (f : ε → ε') :
    ReadUnless (f ∘ fault) Fits refusal? (outcome.mapError f) := by
  cases h with
  | made fits => exact .made fits
  | failed refusal => exact .failed refusal

/-- **Readings of all elements** make a list unless there is a refusal, and the first one stops
them. -/
theorem mapM {read : α → Except ε β} {first : α → Option ρ} {Fits : α → β → Prop}
    (h : ∀ x, ReadUnless fault (Fits x) (first x) (read x)) (xs : List α) :
    ReadUnless fault (List.Forall₂ Fits xs) (xs.findSome? first) (xs.mapM read) := by
  induction xs with
  | nil => exact .made .nil
  | cons x xs ih =>
    have head := h x
    rw [List.mapM_cons, List.findSome?_cons]
    generalize read x = made, first x = refusal? at head
    generalize xs.mapM read = others, xs.findSome? first = refusal'? at ih
    cases head with
    | failed refusal => exact .failed refusal
    | made fits =>
      cases ih with
      | failed refusal => exact .failed refusal
      | made further => exact .made (.cons fits further)

end ReadUnless

/-! ## Alternatives -/

/-- The refusal of the regular expression that an atom is. -/
def Atom.refusal? (E : Engine) : Atom → Option E.Refusal
  | regex source =>
    match Pattern.compile E source with
    | .ok _ => none
    | .error refusal => some refusal
  | _ => none

/-- The first refusal in an alternative. -/
def refusalIn? (E : Engine) (atoms : List Atom) : Option E.Refusal :=
  atoms.findSome? (Atom.refusal? E)

/-- **The production of an alternative**: it has the name of the rule and a symbol for each atom. -/
def IsAlternative (name : String) (atoms : List Atom) (p : Production (Pattern E)) : Prop :=
  p.name = name ∧ p.symbols.map atomOf = atoms

variable {text : String}

/-- An atom stands for a symbol that is written as this atom. -/
theorem Atom.readUnless_symbol (atom : Atom) :
    ReadUnless Fault.badRegex (fun symbol => atomOf symbol = atom) (atom.refusal? E)
      (atom.symbol E) := by
  cases atom with
  | name text => exact .made rfl
  | literal text => exact .made rfl
  | regex source =>
    rw [Atom.refusal?, Atom.symbol, Pattern.compile]
    cases compiled : Matcher.compile E source with
    | error refusal => exact .failed refusal
    | ok matcher => exact .made (congrArg Atom.regex (Matcher.source_of_compile compiled))

theorem readUnless_productionOf (name : String) (atoms : List Atom) :
    ReadUnless Fault.badRegex (IsAlternative name atoms) (refusalIn? E atoms)
      (productionOf E name atoms) := by
  have made : productionOf E name atoms
      = (atoms.mapM (Atom.symbol E)).map fun symbols => ⟨name, symbols⟩ := by
    rw [productionOf]
    cases atoms.mapM (Atom.symbol E) <;> rfl
  rw [made]
  refine (ReadUnless.mapM Atom.readUnless_symbol atoms).map _ fun symbols written => ⟨rfl, ?_⟩
  rw [← List.forall₂_eq_eq_eq, List.forall₂_map_left_iff]
  exact written.flip

/-! ## One line -/

/-- The productions of a single line are those of the rule on it. -/
theorem productions_of_single (single : '\n' ∉ text.toList)
    (rule : isRule (trim text.toList) = true) : productions E text
      = (ruleProductions E (String.ofList (trim text.toList))).mapError (⟨1, ·⟩) := by
  have rules : ruleLines text = [(trim text.toList, 1)] := by
    rw [ruleLines, lines_of_not_mem single]
    exact List.filter_cons_of_pos rule
  rw [productions_eq, rules, List.mapM_cons, List.mapM_nil, lineProductions]
  cases ruleProductions E (String.ofList (trim text.toList)) with
  | error error => rfl
  | ok ps => exact congrArg Except.ok (List.append_nil ps)

/-- **Both ways of reading a rule agree.**  On a single line that is neither blank nor a comment, a
rule with one alternative is read either way as the same production, or fails with the refusal of
the same expression, the first that is refused.  A rule with several alternatives is no single
production, whatever is in them; as a text it gives a production for each of them in their order,
unless an expression is refused, and the first one is the error.  A rule that cannot be read fails
either way with the same error. -/
theorem rule_read_either_way (E : Engine) (text : String) (single : '\n' ∉ text.toList)
    (rule : isRule (trim text.toList) = true) :
    match scanRule (String.ofList (trim text.toList)) with
    | .complete name [atoms] =>
      productions E text = (production E text).map ([·])
        ∧ ReadUnless (⟨1, .badRegex ·⟩) (IsAlternative name atoms) (refusalIn? E atoms)
            (production E text)
    | .complete name sequences =>
      2 ≤ sequences.length ∧ production E text = .error ⟨1, .severalAlternatives⟩
        ∧ ReadUnless (⟨1, .badRegex ·⟩) (List.Forall₂ (IsAlternative name) sequences)
            (sequences.findSome? (refusalIn? E)) (productions E text)
    | .incomplete =>
      production E text = .error ⟨1, .incomplete⟩ ∧ productions E text = .error ⟨1, .incomplete⟩
    | .stuck _ _ => ∃ pos expected,
      production E text = .error ⟨1, .notRead (.unexpected pos expected)⟩
        ∧ productions E text = .error ⟨1, .notRead (.unexpected pos expected)⟩ := by
  rw [productions_of_single single rule, production, ruleProductions]
  rcases readRule_cases E (String.ofList (trim text.toList)) with
    ⟨name, sequences, same, some, read⟩ | ⟨same, read⟩ | ⟨_, _, pos, expected, same, read⟩
  · rw [same, read]
    cases sequences with
    | nil => exact absurd rfl some
    | cons atoms others =>
      cases others with
      | nil =>
        refine ⟨?_, (readUnless_productionOf name atoms).mapError _⟩
        change ([atoms].mapM (productionOf E name)).mapError _
          = ((productionOf E name atoms).mapError _).map _
        rw [List.mapM_cons, List.mapM_nil]
        cases productionOf E name atoms <;> rfl
      | cons second others =>
        refine ⟨Nat.le_add_left 2 _, rfl, ?_⟩
        exact (ReadUnless.mapM (readUnless_productionOf name) _).mapError _
  · rw [same, read]
    exact ⟨rfl, rfl⟩
  · rw [same, read]
    exact ⟨pos, expected, rfl, rfl⟩

/-- A bad expression by itself, and one that stands behind another alternative. -/
theorem rule_read_either_way_open :
    production .standard "b -> /(/\r" = .error ⟨1, .badRegex "^(?:()"⟩
      ∧ productions .standard "b -> /(/\r" = .error ⟨1, .badRegex "^(?:()"⟩
      ∧ production .standard " b -> 'x' | /(/" = .error ⟨1, .severalAlternatives⟩
      ∧ productions .standard " b -> 'x' | /(/" = .error ⟨1, .badRegex "^(?:()"⟩ := by
  have alone := rule_read_either_way .standard "b -> /(/\r" (by decide) (by decide +kernel)
  have behind := rule_read_either_way .standard " b -> 'x' | /(/" (by decide) (by decide +kernel)
  have scan : scanRule (String.ofList (trim "b -> /(/\r".toList))
      = .complete "b" [[.regex "("]] := by
    cbv
  have scan' : scanRule (String.ofList (trim " b -> 'x' | /(/".toList))
      = .complete "b" [[.literal "x"], [.regex "("]] := by
    cbv
  rw [scan] at alone
  rw [scan'] at behind
  obtain ⟨same, read⟩ := alone
  obtain ⟨-, several, read'⟩ := behind
  have refused : refusalIn? .standard [.regex "("]
      = some (show Engine.standard.Refusal from "^(?:()") := by decide +kernel
  have refused' : [[.literal "x"], [.regex "("]].findSome? (refusalIn? .standard)
      = some (show Engine.standard.Refusal from "^(?:()") := by decide +kernel
  rw [refused] at read
  rw [refused'] at read'
  exact ⟨read.eq_error, by rw [same, read.eq_error]; rfl, several, read'.eq_error⟩

end Earley.RuleText
