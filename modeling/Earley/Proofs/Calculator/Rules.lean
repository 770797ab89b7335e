import Earley.Calculator
import Earley.Proofs.RuleText.Lines

/-!
# Proofs/Calculator/Rules — the rules of the calculator are its grammar

The grammar is written out as a list of productions, and its rules are read from texts.  Both come
to the same (`readGrammar_eq`): no rule has an error, and every rule gives the production that is
listed in its place.
-/

namespace Earley.Calculator

open RuleText

/-- A rule with one alternative that the scanner completes is read as the production of it. -/
theorem production_of_complete {E : Engine} {text name : String} {atoms : List Atom}
    (h : scanRule (String.ofList (trim text.toList)) = .complete name [atoms]) :
    production E text = (productionOf E name atoms).mapError (⟨1, ·⟩) := by
  rw [production, readRule_of_complete h]
  rfl

theorem productions_layerRules :
    RuleText.productions .standard layerRules = .ok (productions.take 6) := by
  have rules : ruleLines layerRules
      = [("expr   -> term".toList, 2), ("term   -> factor".toList, 3),
        ("factor -> power".toList, 4), ("power  -> ufact".toList, 5),
        ("ufact  -> group".toList, 6), ("group  -> /\\d+(\\.\\d*)?|\\.\\d+/".toList, 7)] := by
    decide +kernel
  have expr : scanRule "expr   -> term" = .complete "expr" [[.name "term"]] := by cbv
  have term : scanRule "term   -> factor" = .complete "term" [[.name "factor"]] := by cbv
  have factor : scanRule "factor -> power" = .complete "factor" [[.name "power"]] := by cbv
  have power : scanRule "power  -> ufact" = .complete "power" [[.name "ufact"]] := by cbv
  have ufact : scanRule "ufact  -> group" = .complete "ufact" [[.name "group"]] := by cbv
  have group : scanRule "group  -> /\\d+(\\.\\d*)?|\\.\\d+/"
      = .complete "group" [[.regex "\\d+(\\.\\d*)?|\\.\\d+"]] := by cbv
  simp only [productions_eq, rules, List.mapM_cons, List.mapM_nil, lineProductions,
    String.ofList_toList, ruleProductions_of_complete expr, ruleProductions_of_complete term,
    ruleProductions_of_complete factor, ruleProductions_of_complete power,
    ruleProductions_of_complete ufact, ruleProductions_of_complete group]
  rfl

/-- **Reading the rules gives the grammar.** -/
theorem readGrammar_eq : readGrammar = .ok grammar := by
  have add : scanRule (String.ofList (trim "expr   -> expr '+' term".toList))
      = .complete "expr" [[.name "expr", .literal "+", .name "term"]] := by cbv
  have sub : scanRule (String.ofList (trim "expr   -> expr '-' term".toList))
      = .complete "expr" [[.name "expr", .literal "-", .name "term"]] := by cbv
  have mul : scanRule (String.ofList (trim "term   -> term '*' factor".toList))
      = .complete "term" [[.name "term", .literal "*", .name "factor"]] := by cbv
  have div : scanRule (String.ofList (trim "term   -> term '/' factor".toList))
      = .complete "term" [[.name "term", .literal "/", .name "factor"]] := by cbv
  have mod : scanRule (String.ofList (trim "term   -> term '%' factor".toList))
      = .complete "term" [[.name "term", .literal "%", .name "factor"]] := by cbv
  have neg : scanRule (String.ofList (trim "factor -> '-' factor".toList))
      = .complete "factor" [[.literal "-", .name "factor"]] := by cbv
  have pow : scanRule (String.ofList (trim "power  -> ufact '^' factor".toList))
      = .complete "power" [[.name "ufact", .literal "^", .name "factor"]] := by cbv
  have factorial : scanRule (String.ofList (trim "ufact  -> ufact '!'".toList))
      = .complete "ufact" [[.name "ufact", .literal "!"]] := by cbv
  have parens : scanRule (String.ofList (trim "group  -> '(' expr ')'".toList))
      = .complete "group" [[.literal "(", .name "expr", .literal ")"]] := by cbv
  rw [readGrammar, Grammar.addRules, productions_layerRules, operatorRules]
  simp only [List.foldlM_cons, List.foldlM_nil, production_of_complete add,
    production_of_complete sub, production_of_complete mul, production_of_complete div,
    production_of_complete mod, production_of_complete neg, production_of_complete pow,
    production_of_complete factorial, production_of_complete parens]
  rfl

end Earley.Calculator
