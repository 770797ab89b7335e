import Earley.Proofs.Grammar.Extension
import Earley.Proofs.Noninterference

/-!
# Proofs/IdleRules — productions of names that the entry does not reach change no parse

Every item of a sound chart is justified, so that its name and the names that it awaits are reached.
About these an idle extension of the grammar says nothing new (`Grammar.Idle`): items imply what
they implied (`consequences_eq`), charts close and grow as before, and the spans of a chart, which
are its complete items, meet the same goals.  What is left of the extension in a forest is the
grammar that it carries.
-/

namespace Earley

universe u v

variable {κ : Type u} {σ : Type v} {g larger : Grammar κ} {stands : Nat → κ → Prop}

namespace Grammar.Idle

variable (h : g.Idle larger)

include h

/-! ## Closed sets -/

section Closed

variable {earlier : Array ItemSet} {current set : ItemSet} {item : Item} {pos : Nat}

theorem itemCount_le (pos : Nat) : g.itemCount pos ≤ larger.itemCount pos := by
  obtain ⟨more, same⟩ := h.begins
  refine Nat.mul_le_mul_left _ ?_
  rw [← same, List.map_append]
  exact (Nat.le_add_right _ _).trans_eq List.sum_append.symm

theorem next?_eq (known : item.production < g.productions.size) :
    item.next? larger = item.next? g := by
  rw [Item.next?, Item.next?, h.symbols_eq known]

/-- **A justified item implies what it implied.** -/
theorem consequences_eq (before : JustifiedSets g stands earlier)
    (here : ∀ item ∈ current.toList, item.Justified g stands earlier.size)
    (mem : item ∈ current.toList) :
    consequences larger earlier current item = consequences g earlier current item := by
  have justified := here item mem
  rw [consequences, consequences, h.next?_eq justified.production_lt]
  cases awaits : item.next? g with
  | none =>
    have known : ∀ waiting ∈ (earlier.getD item.origin current).toList,
        waiting.production < g.productions.size := by
      intro waiting there
      rcases Nat.lt_or_eq_of_le justified.origin_le with bound | same
      · exact (before.of_lt bound _ there).production_lt
      · simp only [Array.getD, same, Nat.lt_irrefl, dite_false] at there
        exact (here _ there).production_lt
    simp only [Array.toList_filter, h.name_eq justified.production_lt]
    refine congrArg _ (List.filter_congr fun waiting there => ?_)
    rw [Item.awaitedName?, Item.awaitedName?, h.next?_eq (known waiting there)]
  | some symbol =>
    cases symbol with
    | terminal kind => rfl
    | nonterminal name =>
      have reached := (justified.reaches awaits).reaches
      simp only [h.productionsOf_eq reached, h.isNullable_eq reached]

/-- **A set of justified items closes as before.** -/
theorem closure_eq (before : JustifiedSets g stands earlier) (nodup : set.toList.Nodup)
    (here : ∀ item ∈ set.toList, item.Justified g stands earlier.size) :
    closure larger earlier set = closure g earlier set := by
  have walk : closeFrom larger earlier (larger.itemCount earlier.size) 0 set
      = closeFrom g earlier (larger.itemCount earlier.size) 0 set := by
    refine closeFrom_congr
      (P := fun set => ∀ item ∈ set.toList, item.Justified g stands earlier.size)
      (fun current item mem all => h.consequences_eq before all mem) ?_ here
    intro current item mem all new memNew
    rcases ItemSet.mem_insertAll.1 memNew with old | implied
    · exact all new old
    · exact (mem_consequences.1 implied).justified before all mem
  have enough : (closure g earlier set).toList.length ≤ g.itemCount earlier.size :=
    length_le_itemCount (nodup_closeFrom nodup) fun item mem =>
      (justified_closure before here item mem).inRange
  rw [closure, walk]
  exact closeFrom_of_le (by rwa [Nat.zero_add]) (h.itemCount_le _)

end Closed

/-! ## Charts -/

theorem start_eq : Chart.start larger = Chart.start g := by
  have before : JustifiedSets g (Chart.start g).Reads #[] := Chart.justifiedSets_nil
  have closed := h.closure_eq before ItemSet.nodup_ofList Chart.justified_entry
  rw [Chart.start, Chart.start, h.entry_eq, h.productionsOf_eq .entry, closed]

section Step

variable {chart : Chart κ} (sound : chart.Sound g)

include sound

omit h in
theorem lt_of_mem_frontier {item : Item} (mem : item ∈ chart.frontier.toList) :
    item.production < g.productions.size := by
  rw [Chart.toList_frontier sound.size_sets] at mem
  exact (sound.justified _ item mem).production_lt

variable [DecidableEq κ]

theorem expected_eq : chart.frontier.expected larger = chart.frontier.expected g := by
  rw [ItemSet.expected, ItemSet.expected]
  refine congrArg _ (List.filterMap_congr fun item mem => ?_)
  rw [Item.awaitedKind?, Item.awaitedKind?, h.next?_eq (lt_of_mem_frontier sound mem)]

theorem scanned_eq (kinds : List κ) :
    chart.frontier.scanned larger kinds = chart.frontier.scanned g kinds := by
  rw [ItemSet.scanned, ItemSet.scanned]
  refine congrArg (fun items => ItemSet.ofList (items.map Item.advance))
    (List.filter_congr fun item mem => ?_)
  rw [Item.awaitedKind?, Item.awaitedKind?, h.next?_eq (lt_of_mem_frontier sound mem)]

/-- **A scanned token is read as before.** -/
theorem step_eq (equals : String → κ → Bool) (scan : Scan κ) :
    chart.step larger equals scan = chart.step g equals scan := by
  have push : ∀ kinds, chart.push larger scan.token kinds (chart.frontier.scanned g kinds)
      = chart.push g scan.token kinds (chart.frontier.scanned g kinds) := by
    intro kinds
    have before : JustifiedSets g (chart.push g scan.token kinds
        (chart.frontier.scanned g kinds)).Reads chart.sets :=
      Chart.JustifiedSets.push sound.justified
    have nodup : (chart.frontier.scanned g kinds).toList.Nodup := ItemSet.nodup_ofList
    rw [Chart.push, Chart.push, h.closure_eq before nodup sound.justified_scanned]
  simp only [Chart.step, h.expected_eq sound, h.scanned_eq sound, push]

/-- **Runs are as before**, with the same questions and answers. -/
theorem run_eq (tokenizer : Tokenizer κ σ) (equals : String → κ → Bool) (state : σ) :
    recognizeFrom larger tokenizer equals chart state = recognizeFrom g tokenizer equals chart state
      ∧ exchangesFrom larger tokenizer equals chart state
        = exchangesFrom g tokenizer equals chart state := by
  fun_induction recognizeFrom g tokenizer equals chart state with
  | case1 chart state error next answer =>
    rw [recognizeFrom_eq, exchangesFrom_eq, h.expected_eq sound, answer,
      exchangesFrom_of_failure answer]
    exact ⟨rfl, rfl⟩
  | case2 chart state next answer =>
    rw [recognizeFrom_eq, exchangesFrom_eq, h.expected_eq sound, answer,
      exchangesFrom_of_end answer]
    exact ⟨rfl, rfl⟩
  | case3 chart state scan next answer error step =>
    have step' := (h.step_eq sound equals scan).trans step
    rw [recognizeFrom_eq, exchangesFrom_eq, h.expected_eq sound, answer,
      exchangesFrom_of_error answer step]
    simp only [step', and_self]
  | case4 chart state scan next answer longer step _ ih =>
    have step' := (h.step_eq sound equals scan).trans step
    have further : longer.Sound g := by
      obtain ⟨-, -, rfl⟩ := Chart.step_eq_ok step
      exact sound.push
    rw [recognizeFrom_eq, exchangesFrom_eq, h.expected_eq sound, answer,
      exchangesFrom_of_step answer step]
    simp only [step', ih further, and_self]

end Step

/-! ## Forests -/

section Forest

variable {chart : Chart κ} (sound : chart.Sound g)

include sound

/-- The complete items of a chart are its spans. -/
theorem ofSets_eq : SpanIndex.ofSets larger chart.sets = SpanIndex.ofSets g chart.sets := by
  have complete : ∀ stop, (chart.itemsAt stop).filter (Item.isComplete larger)
      = (chart.itemsAt stop).filter (Item.isComplete g) := by
    refine fun stop => List.filter_congr fun item mem => ?_
    have known := (sound.justified stop item mem).production_lt
    rw [Item.isComplete, Item.isComplete, h.symbols_eq known]
  simp only [SpanIndex.ofSets_eq, complete]

omit h in
theorem lt_of_mem_startingAt {start : Nat} {span : Span}
    (listed : span ∈ (SpanIndex.ofSets g chart.sets).startingAt start) :
    span.production < g.productions.size := by
  obtain ⟨-, -, item, mem, -, -, same⟩ := mem_startingAt_ofSets.1 listed
  exact same ▸ (sound.justified _ item mem).production_lt

/-- **Goals are met by the spans that met them**, the goals of new names by none. -/
theorem meeting_eq : (Weave.ofChart larger chart).meeting = (Weave.ofChart g chart).meeting := by
  funext goal
  change (SpanIndex.ofSets larger chart.sets).meeting larger goal
    = (SpanIndex.ofSets g chart.sets).meeting g goal
  rw [h.ofSets_eq sound, SpanIndex.meeting, SpanIndex.meeting]
  refine List.filter_congr fun span listed => ?_
  exact decide_eq_decide.2 (h.mem_productionsOf_iff (lt_of_mem_startingAt sound listed))

theorem children_eq [DecidableEq κ] :
    (Weave.ofChart larger chart).children = (Weave.ofChart g chart).children := by
  funext pos symbol
  cases symbol with
  | terminal kind => rfl
  | nonterminal name => rw [Weave.children, Weave.children, h.meeting_eq sound]

theorem symbols_of_mem_meeting {goal : Goal} {span : Span}
    (meets : span ∈ (Weave.ofChart g chart).meeting goal) :
    (Weave.ofChart larger chart).grammar.symbols span.production
      = (Weave.ofChart g chart).grammar.symbols span.production :=
  h.symbols_eq (lt_of_mem_startingAt sound (Weave.mem_meeting_iff.1 meets).1)

theorem goals_eq : (SpanIndex.ofSets g chart.sets).goals larger
    = (SpanIndex.ofSets g chart.sets).goals g := by
  rw [SpanIndex.goals, SpanIndex.goals]
  refine List.flatMap_congr fun start _ => ?_
  refine congrArg (fun names : List String => names.eraseDups.map (Goal.mk · start))
    (List.map_congr_left fun span listed => ?_)
  exact h.name_eq (lt_of_mem_startingAt sound listed)

variable [DecidableEq κ]

theorem arenaSpans_eq :
    (Weave.ofChart larger chart).arenaSpans = (Weave.ofChart g chart).arenaSpans := by
  have subgoals : (Weave.ofChart larger chart).subgoals = (Weave.ofChart g chart).subgoals := by
    funext goal
    rw [Weave.subgoals, Weave.subgoals, h.meeting_eq sound]
    refine List.flatMap_congr fun span meets => ?_
    rw [Weave.goalsWithin_congr (h.children_eq sound), h.symbols_of_mem_meeting sound meets]
  rw [Weave.arenaSpans, Weave.arenaSpans, Weave.goalsFound, Weave.goalsFound, subgoals,
    h.meeting_eq sound]
  simp only [Weave.ofChart, h.ofSets_eq sound, h.goals_eq sound, h.entry_eq]

/-- **The spans that become nodes have the branches that they had.** -/
theorem nodes_eq (numbering : Numbering) :
    (Weave.ofChart larger chart).nodes numbering (Weave.ofChart g chart).arenaSpans
      = (Weave.ofChart g chart).nodes numbering (Weave.ofChart g chart).arenaSpans := by
  have branches : ∀ span ∈ (Weave.ofChart g chart).arenaSpans,
      (Weave.ofChart larger chart).branches span = (Weave.ofChart g chart).branches span := by
    intro span mem
    obtain ⟨goal, -, meets⟩ := List.mem_flatMap.1 mem
    rw [Weave.branches, Weave.branches, Weave.lay_congr (h.children_eq sound),
      h.symbols_of_mem_meeting sound meets]
  simp only [Weave.nodes, List.map_toArray]
  refine congrArg _ (List.map_congr_left fun span mem => ?_)
  rw [branches span mem]

/-- **The forest is as before**, but for the grammar that it carries. -/
theorem forest_eq :
    Forest.ofChart larger chart = { Forest.ofChart g chart with grammar := larger } := by
  have numbering : (Weave.ofChart larger chart).numbering = (Weave.ofChart g chart).numbering := by
    funext spans
    simp only [Weave.numbering, Weave.ofChart, h.ofSets_eq sound]
  have candidates : (Weave.ofChart larger chart).candidates
      = (Weave.ofChart g chart).candidates := by
    funext numbering
    rw [Weave.candidates, Weave.candidates, h.meeting_eq sound]
    simp only [Weave.ofChart, h.entry_eq]
  simp only [Forest.ofChart, h.arenaSpans_eq sound, numbering, h.nodes_eq sound, candidates]

end Forest

end Grammar.Idle

/-- **Rules that the entry does not reach are idle.**  One more production of a name that the entry
does not reach leaves recognition as it was, with all its items in their order, its outcome and its
questions to the tokenizer; and a parse gives the same forest with the larger grammar in it.  The
symbols of the production do not matter, even if they make names nullable. -/
theorem unreached_idle [DecidableEq κ] (g : Grammar κ) (p : Production κ)
    (unreached : ¬ g.Reaches p.name) (tokenizer : Tokenizer κ σ) (equals : String → κ → Bool)
    (state : σ) :
    recognize (g.add p) tokenizer equals state = recognize g tokenizer equals state
      ∧ exchanges (g.add p) tokenizer equals state = exchanges g tokenizer equals state
      ∧ parse (g.add p) tokenizer equals state
        = (parse g tokenizer equals state).map fun f => { f with grammar := g.add p } := by
  have idle := Grammar.Idle.add unreached
  obtain ⟨run, asked⟩ := idle.run_eq Chart.sound_start tokenizer equals state
  have same : recognize (g.add p) tokenizer equals state = recognize g tokenizer equals state := by
    rw [recognize, recognize, idle.start_eq, run]
  refine ⟨same, by rw [exchanges, exchanges, idle.start_eq, asked], ?_⟩
  rw [parse, parse, same, Run.forest, Run.forest]
  cases (recognize g tokenizer equals state).error? with
  | some error => rfl
  | none => exact congrArg Except.ok (idle.forest_eq Chart.sound_recognize)

/-- One letter, and a name that nothing leads to. -/
def oneLetterAside : Grammar String :=
  .ofList "S" [⟨"S", [.terminal "a"]⟩, ⟨"Y", [.nonterminal "X"]⟩]

/-- A rule may make names nullable that no parse comes to. -/
theorem unreached_idle_oneLetterAside :
    ¬ oneLetterAside.Reaches "X" ∧ (oneLetterAside.add ⟨"X", []⟩).isNullable "Y" = true
      ∧ ∃ f, parse oneLetterAside (.ofList String) (· == ·) [⟨"a", "a", 0, 1⟩] = .ok f
        ∧ parse (oneLetterAside.add ⟨"X", []⟩) (.ofList String) (· == ·) [⟨"a", "a", 0, 1⟩]
          = .ok { f with grammar := oneLetterAside.add ⟨"X", []⟩ } := by
  have reached : ∀ name, oneLetterAside.Reaches name → name = "S" := by
    intro name reaches
    induction reaches with
    | entry => rfl
    | @step name next id _ rule mem same =>
      have only : ∀ id ∈ oneLetterAside.productionsOf "S",
          oneLetterAside.symbols id = [.terminal "a"] := by decide
      rw [only id (same ▸ rule)] at mem
      exact nomatch List.mem_singleton.1 mem
  have unreached : ¬ oneLetterAside.Reaches "X" := fun reaches =>
    absurd (reached "X" reaches) (by decide)
  have ruleY : 1 ∈ (oneLetterAside.add ⟨"X", []⟩).productionsOf "Y" := by decide
  have ruleX : 2 ∈ (oneLetterAside.add ⟨"X", []⟩).productionsOf "X" := by decide
  have empty : DerivesEmpty (oneLetterAside.add ⟨"X", []⟩) [.nonterminal "Y"] :=
    .cons ruleY (.cons ruleX .nil .nil) .nil
  have finished : (recognize oneLetterAside (.ofList String) (· == ·)
      [⟨"a", "a", 0, 1⟩]).error? = none := by decide +kernel
  have ok := parse_eq_ok_iff.2 ⟨finished, rfl⟩
  obtain ⟨-, -, same⟩ := unreached_idle oneLetterAside ⟨"X", []⟩ unreached (.ofList String)
    (· == ·) [⟨"a", "a", 0, 1⟩]
  rw [ok] at same
  exact ⟨unreached, Grammar.isNullable_iff.2 empty, _, ok, same⟩

end Earley
