import Earley.Proofs.Registry
import Earley.Proofs.RuleText.Agreement
import Earley.RuleText.Productions

/-!
# Proofs/RuleText/Lines — texts of rules are put together line by line

The lines of two texts with a line end between them are the lines of the one and then those of the
other (`lines_append`), and a line means the same wherever it stands.  So the productions of both
texts together are those of the first and then those of the second (`productions_append`), and if
there is an error it is the first one, with its line counted from the beginning of both.

A registry takes over the productions of a text only when all of them were read
(`Registry.addRules`).  Then it adds them one by one, and adding the productions of one text and
then those of another adds those of both (`Registry.addAll_append`).
-/

namespace Earley

universe u

namespace RuleText

/-! ## Lines -/

theorem lines_ne_nil (text : List Char) : lines text ≠ [] := by
  fun_cases lines text with
  | case1 => exact List.cons_ne_nil _ _
  | case2 rest => exact List.cons_ne_nil _ _
  | case3 c rest other none => exact List.cons_ne_nil _ _
  | case4 c rest other line others more => exact List.cons_ne_nil _ _

theorem lines_of_not_mem {line : List Char} (h : '\n' ∉ line) : lines line = [line] := by
  induction line with
  | nil => rfl
  | cons c line ih =>
    obtain ⟨other, further⟩ := not_or.1 (mt List.mem_cons.2 h)
    rw [lines, if_neg (Ne.symm other), ih further]

/-- **A line end parts the lines** before it from those behind it. -/
theorem lines_append (text more : List Char) :
    lines (text ++ '\n' :: more) = lines text ++ lines more := by
  induction text with
  | nil => rfl
  | cons c text ih =>
    rw [List.cons_append, lines, lines, ih]
    by_cases ends : c = '\n'
    · rw [if_pos ends, if_pos ends, List.cons_append]
    · rw [if_neg ends, if_neg ends]
      cases split : lines text with
      | nil => exact absurd split (lines_ne_nil text)
      | cons line others => rfl

/-- A text has one line more than line ends. -/
theorem length_lines (text : List Char) : (lines text).length = text.count '\n' + 1 := by
  induction text with
  | nil => rfl
  | cons c text ih =>
    rw [lines]
    by_cases ends : c = '\n'
    · rw [if_pos ends, List.length_cons, ih, ends, List.count_cons_self]
    · rw [if_neg ends, List.count_cons_of_ne ends, ← ih]
      cases split : lines text with
      | nil => exact absurd split (lines_ne_nil text)
      | cons line others => rfl

/-- **The rules of two texts** are those of the first and those of the second, with the numbers of
their lines counted on. -/
theorem ruleLines_append (a b : String) : ruleLines (a ++ "\n" ++ b)
    = ruleLines a ++ (ruleLines b).map (Prod.map id (· + (a.toList.count '\n' + 1))) := by
  have split : (a ++ "\n" ++ b).toList = a.toList ++ '\n' :: b.toList := by simp
  have rules : (fun entry : List Char × Nat => isRule entry.1)
      ∘ Prod.map id (· + (a.toList.count '\n' + 1)) = fun entry => isRule entry.1 := rfl
  rw [ruleLines, split, lines_append, List.map_append, List.zipIdx_append, List.filter_append,
    List.length_map, length_lines, Nat.add_comm 1, ← List.map_snd_add_zipIdx_eq_zipIdx,
    List.filter_map, rules]
  rfl

/-! ## Productions -/

variable {E : Engine}

/-- The error, so many lines further down. -/
def RuleError.below (count : Nat) (error : RuleError E) : RuleError E :=
  { error with line := error.line + count }

/-- The productions of the rule on a line. -/
def lineProductions (E : Engine) (entry : List Char × Nat) :
    Except (RuleError E) (List (Production (Pattern E))) :=
  (ruleProductions E (String.ofList entry.1)).mapError (⟨entry.2, ·⟩)

/-- The productions of a rule that the scanner completes are those of its alternatives. -/
theorem ruleProductions_of_complete {text name : String} {sequences : List (List Atom)}
    (h : scanRule text = .complete name sequences) :
    ruleProductions E text = sequences.mapM (productionOf E name) := by
  rw [ruleProductions, readRule_of_complete h]
  rfl

theorem productions_eq (text : String) :
    productions E text = ((ruleLines text).mapM (lineProductions E)).map List.flatten := by
  have read : productions E text
      = (ruleLines text).mapM (lineProductions E) >>= fun found => pure found.flatten := rfl
  rw [read]
  cases (ruleLines text).mapM (lineProductions E) <;> rfl

/-- Errors that are renamed one by one are renamed at the end. -/
theorem mapM_mapError {ε ε' α β : Type} (rename : ε → ε') (read : α → Except ε β) (xs : List α) :
    (xs.mapM fun x => (read x).mapError rename) = (xs.mapM read).mapError rename := by
  induction xs with
  | nil => rfl
  | cons x xs ih =>
    rw [List.mapM_cons, List.mapM_cons, ih]
    cases read x with
    | error error => rfl
    | ok y => cases xs.mapM read <;> rfl

/-- **The productions of two texts** with a line end between them. -/
theorem productions_append (a b : String) : productions E (a ++ "\n" ++ b)
    = (do
      let front ← productions E a
      let back ← (productions E b).mapError (RuleError.below (a.toList.count '\n' + 1))
      return front ++ back) := by
  have moved : lineProductions E ∘ Prod.map id (· + (a.toList.count '\n' + 1))
      = fun entry => (lineProductions E entry).mapError (.below (a.toList.count '\n' + 1)) := by
    funext ⟨line, number⟩
    simp only [Function.comp_apply, lineProductions, Prod.map_apply, id]
    cases ruleProductions E (String.ofList line) <;> rfl
  rw [productions_eq, productions_eq, productions_eq, ruleLines_append, List.mapM_append,
    List.mapM_map, moved, mapM_mapError]
  cases (ruleLines a).mapM (lineProductions E) with
  | error error => rfl
  | ok front =>
    cases (ruleLines b).mapM (lineProductions E) with
    | error error => rfl
    | ok back => exact congrArg Except.ok List.flatten_append

end RuleText

/-! ## Registries -/

namespace Registry

section AddAll

variable {κ : Type u} {r : Registry κ} {entry : String} {added : List (Production κ)}

theorem addAll_cons (r : Registry κ) (p : Production κ) (ps : List (Production κ)) :
    r.addAll (p :: ps) = (r.productions.size :: ((r.add p).2.addAll ps).1,
      ((r.add p).2.addAll ps).2) := rfl

/-- **The new ids** are those that follow, one after the other. -/
theorem ids_addAll (r : Registry κ) (ps : List (Production κ)) :
    (r.addAll ps).1 = List.range' r.productions.size ps.length := by
  induction ps generalizing r with
  | nil => rfl
  | cons p ps ih =>
    rw [addAll_cons, ih, List.length_cons, List.range'_succ]
    simp [add]

/-- **The productions E are appended** in their order. -/
theorem toList_addAll (r : Registry κ) (ps : List (Production κ)) :
    (r.addAll ps).2.productions.toList
      = r.productions.toList ++ (ps.zipIdx r.productions.size).map fun (p, id) => ⟨id, p⟩ := by
  induction ps generalizing r with
  | nil => simp [addAll]
  | cons p ps ih =>
    rw [addAll_cons, ih, List.zipIdx_cons, List.map_cons]
    simp [add]

/-- Productions that are added together are added one part after the other. -/
theorem addAll_append (r : Registry κ) (ps qs : List (Production κ)) : r.addAll (ps ++ qs)
    = ((r.addAll ps).1 ++ ((r.addAll ps).2.addAll qs).1, ((r.addAll ps).2.addAll qs).2) := by
  induction ps generalizing r with
  | nil => rfl
  | cons p ps ih =>
    rw [List.cons_append, addAll_cons, addAll_cons, ih]
    rfl

theorem Coherent.addAll (h : Coherent r entry added) (ps : List (Production κ)) :
    Coherent (r.addAll ps).2 entry (added ++ ps) := by
  induction ps generalizing r added with
  | nil => exact (List.append_nil added).symm ▸ h
  | cons p ps ih =>
    rw [List.append_cons]
    exact ih (h.add p)

/-- The grammar gets the same productions. -/
theorem grammar_addAll (r : Registry κ) (ps : List (Production κ)) :
    (r.addAll ps).2.grammar = r.grammar.addAll ps := by
  induction ps generalizing r with
  | nil => rfl
  | cons p ps ih =>
    have first : (r.add p).2.grammar = r.grammar.add p := by
      simp [add, grammar, Grammar.add]
    rw [addAll_cons, ih, first]
    rfl

end AddAll

/-! ### Texts of rules -/

variable {E : Engine} {r middle last : Registry (Pattern E)} {a b : String} {ids ids' : List ProdId}

theorem addRules_of_error {error : RuleText.RuleError E}
    (h : RuleText.productions E a = .error error) :
    r.addRules a = (.error error, r) := by
  rw [addRules, h]

theorem addRules_of_ok {ps : List (Production (Pattern E))}
    (h : RuleText.productions E a = .ok ps) :
    r.addRules a = (.ok (r.addAll ps).1, (r.addAll ps).2) := by
  rw [addRules, h]
  rfl

/-- Only a text that was read adds anything. -/
theorem exists_productions_of_addRules (h : r.addRules a = (.ok ids, last)) :
    ∃ ps, RuleText.productions E a = .ok ps ∧ r.addAll ps = (ids, last) := by
  cases read : RuleText.productions E a with
  | error error =>
    rw [addRules_of_error read] at h
    cases h
  | ok ps =>
    rw [addRules_of_ok read] at h
    obtain ⟨ids, last⟩ := Prod.mk.inj h
    exact ⟨ps, rfl, Prod.ext (Except.ok.inj ids) last⟩

/-- **Adding one text and then another** is adding both. -/
theorem addRules_append (h : r.addRules a = (.ok ids, middle))
    (h' : middle.addRules b = (.ok ids', last)) :
    r.addRules (a ++ "\n" ++ b) = (.ok (ids ++ ids'), last) := by
  obtain ⟨ps, read, added⟩ := exists_productions_of_addRules h
  obtain ⟨qs, read', added'⟩ := exists_productions_of_addRules h'
  have both : RuleText.productions E (a ++ "\n" ++ b) = .ok (ps ++ qs) := by
    rw [RuleText.productions_append, read, read']
    rfl
  rw [addRules_of_ok both, addAll_append, added, added']

/-- The grammar of a registry gets the rules that the registry gets. -/
theorem addRules_grammar (r : Registry (Pattern E)) (text : String) : r.grammar.addRules text
    = (r.addRules text).1.map fun _ => (r.addRules text).2.grammar := by
  rw [Grammar.addRules]
  cases read : RuleText.productions E text with
  | error error =>
    rw [addRules_of_error read]
    rfl
  | ok ps =>
    rw [addRules_of_ok read, grammar_addAll]
    rfl

end Registry

/-- **Texts of rules are put together line by line, and a text is added as a whole or not at all.**

The productions of two texts with a line end between them are those of the first and then those of
the second.  If one of the texts has an error, the error of the first text is that of both, and
otherwise the error of the second is, with its line counted on behind the lines of the first.

A text with an error leaves a registry as it is.  The productions of any other text are appended in
their order with the ids that follow; behind any calls of a fresh registry, every call is answered
then as all the productions say.  So adding one text and then another adds both. -/
theorem rules_line_by_line (E : Engine) :
    (∀ a b : String,
        (∀ error, RuleText.productions E a = .error error →
          RuleText.productions E (a ++ "\n" ++ b) = .error error)
        ∧ (∀ front line fault, RuleText.productions E a = .ok front →
          RuleText.productions E b = .error ⟨line, fault⟩ →
            RuleText.productions E (a ++ "\n" ++ b)
              = .error ⟨line + 1 + a.toList.count '\n', fault⟩)
        ∧ ∀ front back, RuleText.productions E a = .ok front → RuleText.productions E b = .ok back →
          RuleText.productions E (a ++ "\n" ++ b) = .ok (front ++ back))
      ∧ (∀ (r : Registry (Pattern E)) (text : String),
        (∀ error, RuleText.productions E text = .error error → r.addRules text = (.error error, r))
        ∧ (∀ ps, RuleText.productions E text = .ok ps → ∃ last,
          r.addRules text = (.ok (List.range' r.productions.size ps.length), last)
            ∧ last.productions.toList = r.productions.toList
              ++ (ps.zipIdx r.productions.size).map fun (p, id) => ⟨id, p⟩)
        ∧ r.grammar.addRules text
          = (r.addRules text).1.map fun _ => (r.addRules text).2.grammar)
      ∧ (∀ (entry text : String) (calls : List (Registry.Call (Pattern E))) ps,
        RuleText.productions E text = .ok ps → ∀ call,
          Registry.Answers entry (Registry.addedBy calls ++ ps) call
            ((((Registry.fresh entry).afterCalls calls).addRules text).2.reply call).answer)
      ∧ ∀ (r middle last : Registry (Pattern E)) (a b : String) (ids ids' : List ProdId),
        r.addRules a = (.ok ids, middle) → middle.addRules b = (.ok ids', last) →
          r.addRules (a ++ "\n" ++ b) = (.ok (ids ++ ids'), last) := by
  refine ⟨fun a b => ⟨fun error fails => ?_, fun front line fault read fails => ?_,
    fun front back read read' => ?_⟩, fun r text => ⟨fun error fails => ?_, fun ps read => ?_, ?_⟩,
    fun entry text calls ps read call => ?_, fun r middle last a b ids ids' => ?_⟩
  · rw [RuleText.productions_append, fails]
    rfl
  · rw [RuleText.productions_append, read, fails, Nat.add_right_comm]
    rfl
  · rw [RuleText.productions_append, read, read']
    rfl
  · exact Registry.addRules_of_error fails
  · exact ⟨_, r.ids_addAll ps ▸ Registry.addRules_of_ok read, r.toList_addAll ps⟩
  · exact r.addRules_grammar text
  · rw [Registry.addRules_of_ok read]
    have before := (Registry.Coherent.fresh entry).afterCalls calls
    exact (before.addAll ps).answers call
  · exact Registry.addRules_append

/-- A registry without rules. -/
abbrev noRules : Registry (Pattern .standard) := .fresh "B"

/-- Two productions before a comment: with a rule in front that is too short, and with a bad
expression or one more production behind them. -/
theorem rules_line_by_line_of_parts :
    RuleText.productions .standard ("B" ++ "\n" ++ "A -> 'x' |\r\n# none") = .error ⟨1, .incomplete⟩
      ∧ RuleText.productions .standard ("A -> 'x' |\r\n# none" ++ "\n" ++ "\nB -> A\nC -> /(/")
        = .error ⟨5, .badRegex "^(?:()"⟩
      ∧ RuleText.productions .standard ("A -> 'x' |\r\n# none" ++ "\n" ++ "B -> A")
        = .ok [⟨"A", [.terminal (.literal "x")]⟩, ⟨"A", []⟩, ⟨"B", [.nonterminal "A"]⟩]
      ∧ noRules.addRules "\nB -> A\nC -> /(/"
        = (.error ⟨3, .badRegex "^(?:()"⟩, noRules)
      ∧ ∃ middle last,
        noRules.addRules "A -> 'x' |\r\n# none" = (.ok [0, 1], middle)
          ∧ middle.addRules "B -> A" = (.ok [2], last)
          ∧ noRules.addRules ("A -> 'x' |\r\n# none" ++ "\n" ++ "B -> A")
            = (.ok [0, 1, 2], last)
          ∧ (last.reply (.production 2)).answer
            = .production (some ⟨2, ⟨"B", [.nonterminal "A"]⟩⟩) := by
  obtain ⟨texts, whole, answers, joined⟩ := rules_line_by_line .standard
  have scanA : RuleText.scanRule "A -> 'x' |" = .complete "A" [[.literal "x"], []] := by cbv
  have scanB : RuleText.scanRule "B -> A" = .complete "B" [[.name "A"]] := by cbv
  have scanC : RuleText.scanRule "C -> /(/" = .complete "C" [[.regex "("]] := by cbv
  have bad : Pattern.compile .standard "(" = .error "^(?:()" := by decide +kernel
  have short : RuleText.productions .standard "B" = .error ⟨1, .incomplete⟩ := by decide +kernel
  have first : RuleText.productions .standard "A -> 'x' |\r\n# none"
      = .ok [⟨"A", [.terminal (.literal "x")]⟩, ⟨"A", []⟩] := by
    have rules : RuleText.ruleLines "A -> 'x' |\r\n# none" = [("A -> 'x' |".toList, 1)] := by
      decide +kernel
    simp only [RuleText.productions_eq, rules, List.mapM_cons, List.mapM_nil,
      RuleText.lineProductions, String.ofList_toList, RuleText.ruleProductions_of_complete scanA]
    rfl
  have fails : RuleText.productions .standard "\nB -> A\nC -> /(/"
      = .error ⟨3, .badRegex "^(?:()"⟩ := by
    have rules : RuleText.ruleLines "\nB -> A\nC -> /(/"
        = [("B -> A".toList, 2), ("C -> /(/".toList, 3)] := by
      decide +kernel
    simp only [RuleText.productions_eq, rules, List.mapM_cons, List.mapM_nil,
      RuleText.lineProductions, String.ofList_toList, RuleText.ruleProductions_of_complete scanB,
      RuleText.ruleProductions_of_complete scanC, RuleText.productionOf, RuleText.Atom.symbol, bad]
    rfl
  have second : RuleText.productions .standard "B -> A" = .ok [⟨"B", [.nonterminal "A"]⟩] := by
    have rules : RuleText.ruleLines "B -> A" = [("B -> A".toList, 1)] := by decide +kernel
    simp only [RuleText.productions_eq, rules, List.mapM_cons, List.mapM_nil,
      RuleText.lineProductions, String.ofList_toList, RuleText.ruleProductions_of_complete scanB]
    rfl
  have both := (texts "A -> 'x' |\r\n# none" "B -> A").2.2 _ _ first second
  obtain ⟨middle, added, listed⟩ := (whole noRules _).2.1 _ first
  obtain ⟨last, added', -⟩ := (whole middle _).2.1 _ second
  have size : middle.productions.size = 2 := by
    rw [← Array.length_toList, listed]
    rfl
  rw [size] at added'
  have together := joined _ _ _ _ _ _ _ added added'
  have asked := (answers "B" _ [] _ both (.production 2)).unique (.production 2)
  rw [Registry.afterCalls, List.foldl_nil, together] at asked
  exact ⟨(texts _ _).1 _ short, (texts _ _).2.1 _ _ _ first fails, both, (whole _ _).1 _ fails,
    middle, last, added, added', together, asked⟩

end Earley
