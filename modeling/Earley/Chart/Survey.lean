import Earley.Chart.Closure
import Earley.Token

/-!
# Chart/Survey — the expected kinds of a set with their places, and the flags of an answer

One walk along a set of items collects the kinds behind their dots, each at its first place, and
notes for every item that awaits a kind where this kind stands.  The answer of a tokenizer then sets
flags of some of the kinds, and an item advances if the flag at its place is set.
-/

namespace Earley

universe u

variable {κ : Type u}

/-- **Whether a token is read as the kind at a place** of the expected ones. -/
def Scan.flags (equals : String → κ → Bool) (scan : Scan κ) (expected : List κ) : List Bool :=
  match scan.matched with
  | some places =>
    places.foldl (fun flags place => flags.set place true) (.replicate expected.length false)
  | none => expected.map (equals scan.token.text)

/-- The expected kinds of some items and the items that await one, with its place. -/
structure Survey (κ : Type u) where
  expected : List κ := []
  awaiting : List (Item × Nat) := []

/-- The advances of the items whose places have a flag that is set. -/
def Survey.advances (survey : Survey κ) (flags : List Bool) : ItemSet :=
  .ofList ((survey.awaiting.filter fun entry => flags[entry.2]? = some true).map
    fun entry => entry.1.advance)

variable [DecidableEq κ]

/-- Takes note of one more item: its kind is looked up, or else added behind the others. -/
def Survey.note (g : Grammar κ) (survey : Survey κ) (item : Item) : Survey κ :=
  match item.awaitedKind? g with
  | none => survey
  | some kind =>
    if kind ∈ survey.expected then
      { survey with awaiting := survey.awaiting ++ [(item, survey.expected.idxOf kind)] }
    else ⟨survey.expected ++ [kind], survey.awaiting ++ [(item, survey.expected.length)]⟩

/-- The survey of a whole set, item by item. -/
def ItemSet.survey (g : Grammar κ) (set : ItemSet) : Survey κ :=
  set.toList.foldl (Survey.note g) {}

end Earley
