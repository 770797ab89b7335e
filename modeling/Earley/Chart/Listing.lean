import Earley.Chart.Recognize

/-!
# Chart/Listing — the course of a recognition as lines of text

For every token there is a line with the number of items that advanced over it.  Where the input was
read to its end, the sets of the chart follow, item by item, and a line with the totals.
-/

namespace Earley

universe u v

variable {κ : Type u} {σ : Type v} [Terminal κ]

namespace Chart

/-- The line for token `index`: the items that advanced over it are those of the next set with a
terminal before the dot. -/
def scanLine (g : Grammar κ) (chart : Chart κ) (index : Nat) (token : Token κ) : String :=
  let advanced := (chart.sets.getD (index + 1) {}).toList.countP (Item.isScanned g)
  "scan " ++ Text.quoted token.text ++ " at " ++ toString index ++ ": " ++ toString advanced
    ++ " items advance"

/-- A line for every token. -/
def scanLines (g : Grammar κ) (chart : Chart κ) : List String :=
  chart.tokens.toList.zipIdx.map fun (token, index) => chart.scanLine g index token

/-- The number of items in all sets. -/
def itemCount (chart : Chart κ) : Nat :=
  (chart.sets.toList.map fun set => set.items.size).foldr (· + ·) 0

/-- Every set under its heading, and the totals. -/
def setLines (g : Grammar κ) (chart : Chart κ) : List String :=
  (chart.sets.toList.zipIdx.flatMap fun (set, index) =>
    ("=== ItemSet " ++ toString index ++ " ===") :: set.toList.map (Item.text g))
  ++ ["recognized " ++ toString chart.tokens.size ++ " tokens, " ++ toString chart.itemCount
    ++ " items"]

end Chart

/-- **The lines of a recognition.** -/
def Run.lines (g : Grammar κ) (run : Run κ σ) : List String :=
  run.chart.scanLines g ++ if run.error?.isNone then run.chart.setLines g else []

end Earley
