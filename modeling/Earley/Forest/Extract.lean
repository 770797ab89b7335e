import Earley.Forest.Thread
import Earley.Forest.Viable

/-!
# Forest/Extract — the forest of a chart

The goals that the entry leads to are found depth first, a goal before the goals its own branches
ask for.  Every span that meets one of them is a node; nodes are numbered in the order of their
goals, and for one goal by end and production.  The numbering thus depends on the spans alone and
not on the order in which the chart was filled.

What has no finite derivation is dropped in the end, together with the branches through it.
-/

namespace Earley

universe u v

/-- The goals found from those on the stack, each before its own subgoals.  A goal that is not
pending was found before or has no spans. -/
def discover (subgoals : Goal → List Goal) : List Goal → List Goal → List Goal
  | _, [] => []
  | pending, goal :: stack =>
    if fresh : goal ∈ pending then
      have := List.length_pos_of_mem fresh
      have := List.length_erase_of_mem fresh
      goal :: discover subgoals (pending.erase goal) (subgoals goal ++ stack)
    else discover subgoals pending stack
termination_by pending stack => (pending.length, stack.length)

variable {κ : Type u} [DecidableEq κ]

namespace Weave

/-- The goals that the entry leads to, in the order of their discovery. -/
def goalsFound (weave : Weave κ) : List Goal :=
  discover weave.subgoals (weave.index.goals weave.grammar) [⟨weave.grammar.entry, 0⟩]

/-- The spans that become nodes, in the order of their numbers. -/
def arenaSpans (weave : Weave κ) : List Span :=
  weave.goalsFound.flatMap weave.meeting

end Weave

/-! ## Numbers -/

/-- The branches in which all nodes have a number, with these numbers. -/
def renumber {ν : Type} (number? : ν → Option NodeId) (branches : List (List (Child ν))) :
    List Branch :=
  branches.filterMap fun branch => branch.mapM (Child.mapOption number?)

/-- Spans with their numbers, listed by the position where they begin. -/
structure Numbering where
  starts : Array (List (Span × NodeId))

/-- Numbers spans in their order; they begin below `size`. -/
def Numbering.ofSpans (size : Nat) (spans : List Span) : Numbering :=
  let numbered := spans.zipIdx
  ⟨(Array.range size).map fun start => numbered.filter fun (span, _) => span.start = start⟩

/-- The number of a span. -/
def Numbering.number? (numbering : Numbering) (span : Span) : Option NodeId :=
  (numbering.starts.getD span.start []).lookup span

namespace Weave

/-- The numbers of spans that become nodes. -/
def numbering (weave : Weave κ) (spans : List Span) : Numbering :=
  .ofSpans weave.index.starts.size spans

/-- The nodes of spans, with all threads as branches. -/
def nodes (weave : Weave κ) (numbering : Numbering) (spans : List Span) : Array Node :=
  spans.toArray.map fun span => {
    production := span.production
    start := span.start
    stop := span.stop
    branches := renumber numbering.number? (weave.branches span) }

/-- The nodes of the entry at the beginning of the input. -/
def candidates (weave : Weave κ) (numbering : Numbering) : List NodeId :=
  (weave.meeting ⟨weave.grammar.entry, 0⟩).filterMap numbering.number?

end Weave

/-! ## Dropping what is not viable -/

/-- The marked places, counted from `next`. -/
def ranksFrom (next : Nat) : List Bool → List (Option Nat)
  | [] => []
  | true :: rest => some next :: ranksFrom (next + 1) rest
  | false :: rest => none :: ranksFrom next rest

/-- The new numbers of the marked nodes. -/
def ranks (marked : Array Bool) : Array (Option NodeId) := (ranksFrom 0 marked.toList).toArray

/-- The marked nodes with their new numbers. -/
def pruneNodes (marked : Array Bool) (nodes : Array Node) : Array Node :=
  let ranks := ranks marked
  (nodes.zip marked).filterMap fun (node, kept) =>
    if kept then
      some { node with branches := renumber (fun id => ranks.getD id none) node.branches }
    else none

/-- **The forest of a chart**: its roots are the kept nodes of the entry over all tokens. -/
def Forest.ofChart (g : Grammar κ) (chart : Chart κ) : Forest κ :=
  let weave := Weave.ofChart g chart
  let spans := weave.arenaSpans
  let numbering := weave.numbering spans
  let created := weave.nodes numbering spans
  let marked := Arena.viable (created.map Node.branches)
  let ranks := ranks marked
  let nodes := pruneNodes marked created
  { grammar := g
    tokens := chart.tokens
    nodes := nodes
    roots := ((weave.candidates numbering).filterMap fun id => ranks.getD id none).filter fun id =>
      nodes[id]?.any fun node => node.stop = chart.tokens.size }

/-- The forest of a finished run, or the error that stopped it. -/
def Run.forest {σ : Type v} (g : Grammar κ) (run : Run κ σ) : Except (ParseError κ) (Forest κ) :=
  match run.error? with
  | some error => .error error
  | none => .ok (.ofChart g run.chart)

/-- **Parsing** the whole input of a tokenizer. -/
def parse {σ : Type v} (g : Grammar κ) (tokenizer : Tokenizer κ σ) (equals : String → κ → Bool)
    (state : σ) : Except (ParseError κ) (Forest κ) :=
  (recognize g tokenizer equals state).forest g

end Earley
