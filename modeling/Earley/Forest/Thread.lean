import Earley.Forest.Spans

/-!
# Forest/Thread — the ways to lay the symbols of a production over its span

A thread through a span is a child for each symbol of its production, each child beginning where the
one before ends, the last one ending with the span.  `branches` finds all of them symbol by symbol:
it keeps the beginnings of threads with the positions that they have come to, and puts every child
that fits behind each of them.  `goalsWithin` lists the goals that are asked for on the way.
-/

namespace Earley

universe u

variable {κ : Type u} [DecidableEq κ]

/-- Where a child ends. -/
def Child.stop : Child Span → Nat
  | .token index => index + 1
  | .node span => span.stop

/-- What the branches of a forest are made from: the spans, and the kinds each token was read as. -/
structure Weave (κ : Type u) where
  grammar : Grammar κ
  index : SpanIndex
  accepted : Array (List κ)

namespace Weave

/-- The weave of a chart. -/
def ofChart (g : Grammar κ) (chart : Chart κ) : Weave κ where
  grammar := g
  index := .ofSets g chart.sets
  accepted := chart.accepted

/-- The spans that meet a goal. -/
def meeting (weave : Weave κ) (goal : Goal) : List Span := weave.index.meeting weave.grammar goal

/-- The children that may stand for `symbol` from `pos` on. -/
def children (weave : Weave κ) (pos : Nat) : Symbol κ → List (Child Span)
  | .terminal kind => if kind ∈ weave.accepted.getD pos [] then [.token pos] else []
  | .nonterminal name => (weave.meeting ⟨name, pos⟩).map .node

/-- Those children that end no later than `stop`. -/
def childrenUpTo (weave : Weave κ) (stop pos : Nat) (symbol : Symbol κ) : List (Child Span) :=
  (weave.children pos symbol).filter fun child => child.stop ≤ stop

/-- The goals that the threads of `symbols` ask for: those of the first symbol at all positions
reached before it, then those of the second, and so on. -/
def goalsWithin (weave : Weave κ) (stop : Nat) : List (Symbol κ) → List Nat → List Goal
  | [], _ => []
  | symbol :: rest, positions =>
    let reached := positions.flatMap fun pos =>
      (weave.childrenUpTo stop pos symbol).map Child.stop
    (symbol.name?.toList.flatMap fun name => positions.map (⟨name, ·⟩))
      ++ goalsWithin weave stop rest reached

/-- The beginnings of threads with one more child, for `symbol`, each with the position that it has
come to.  The children of the last symbol end at `stop`, the others no later. -/
def extend (weave : Weave κ) (stop : Nat) (last : Bool) (symbol : Symbol κ)
    (begun : List (Nat × List (Child Span))) : List (Nat × List (Child Span)) :=
  begun.flatMap fun (pos, row) =>
    let fitting := (weave.children pos symbol).filter fun child =>
      if last then child.stop = stop else child.stop ≤ stop
    fitting.map fun child => (child.stop, row ++ [child])

/-- Lays `symbols` behind the beginnings of threads, as long as there are any. -/
def lay (weave : Weave κ) (stop : Nat) :
    List (Symbol κ) → List (Nat × List (Child Span)) → List (Nat × List (Child Span))
  | [], begun => begun
  | symbol :: rest, begun =>
    let extended := weave.extend stop rest.isEmpty symbol begun
    if extended.isEmpty then [] else lay weave stop rest extended

/-- **The branches of a span**, over spans: the threads of its production. -/
def branches (weave : Weave κ) (span : Span) : List (List (Child Span)) :=
  let rows := weave.lay span.stop (weave.grammar.symbols span.production) [(span.start, [])]
  (rows.filter fun (pos, _) => pos = span.stop).map Prod.snd

/-- The goals asked for by the spans that meet a goal. -/
def subgoals (weave : Weave κ) (goal : Goal) : List Goal :=
  (weave.meeting goal).flatMap fun span =>
    weave.goalsWithin span.stop (weave.grammar.symbols span.production) [span.start]

end Weave

end Earley
