import Earley.Chart.Closure
import Earley.Token

/-!
# Chart/Recognize — the chart of an input, one set of items per position

Recognition starts with the productions of the entry and reads token after token.  At each position
the kinds behind the dots of its items are the expected ones; the items that await a kind which the
token is read as advance into the next set.  The chart remembers the tokens and the kinds that each
was read as.
-/

namespace Earley

universe u v

variable {κ : Type u} {σ : Type v}

/-- Sets of items, the tokens read between them and the kinds these were read as.  There is one set
more than tokens. -/
structure Chart (κ : Type u) where
  sets : Array ItemSet
  tokens : Array (Token κ) := #[]
  accepted : Array (List κ) := #[]

namespace Chart

/-- The chart before the first token. -/
def start (g : Grammar κ) : Chart κ where
  sets := #[closure g #[] (.ofList ((g.productionsOf g.entry).map (Item.predict 0)))]

/-- The items at the last position. -/
def frontier (chart : Chart κ) : ItemSet := chart.sets.back?.getD {}

/-- The chart after one more token, with `next` as the items that advance over it. -/
def push (g : Grammar κ) (chart : Chart κ) (token : Token κ) (kinds : List κ) (next : ItemSet) :
    Chart κ where
  sets := chart.sets.push (closure g chart.sets next)
  tokens := chart.tokens.push token
  accepted := chart.accepted.push kinds

end Chart

section Step

variable [DecidableEq κ]

/-- The kinds behind the dots of a set, each at its first place. -/
def ItemSet.expected (g : Grammar κ) (set : ItemSet) : List κ :=
  (set.toList.filterMap (Item.awaitedKind? g)).eraseDups

/-- The advances of the items that await one of the given kinds. -/
def ItemSet.scanned (g : Grammar κ) (set : ItemSet) (kinds : List κ) : ItemSet :=
  .ofList ((set.toList.filter fun item =>
    (item.awaitedKind? g).any fun kind => kind ∈ kinds).map Item.advance)

/-- **One step of recognition**: the chart after a scanned token, or why it cannot be read. -/
def Chart.step (g : Grammar κ) (equals : String → κ → Bool) (chart : Chart κ) (scan : Scan κ) :
    Except (ParseError κ) (Chart κ) :=
  let expected := chart.frontier.expected g
  let kinds := scan.selected equals expected
  let next := chart.frontier.scanned g kinds
  if scan.token.text.isEmpty then .error (.emptyToken scan.token.start)
  else if next.items.isEmpty then .error (.unexpected scan.token.start expected)
  else .ok (chart.push g scan.token kinds next)

/-- How far recognition came: the chart of the tokens that were read, the error that stopped it, if
one did, and the state in which it leaves the tokenizer. -/
structure Run (κ : Type u) (σ : Type v) where
  chart : Chart κ
  error? : Option (ParseError κ)
  state : σ

/-- Reads tokens until the tokenizer has none left or an error stops it. -/
def recognizeFrom (g : Grammar κ) (tokenizer : Tokenizer κ σ) (equals : String → κ → Bool)
    (chart : Chart κ) (state : σ) : Run κ σ :=
  match h : tokenizer.scan state (chart.frontier.expected g) with
  | (.error error, next) => ⟨chart, some error, next⟩
  | (.ok none, next) => ⟨chart, none, next⟩
  | (.ok (some scan), next) =>
    match chart.step g equals scan with
    | .error error => ⟨chart, some error, next⟩
    | .ok longer =>
      have := tokenizer.remaining_lt h
      recognizeFrom g tokenizer equals longer next
termination_by tokenizer.remaining state

/-- **Recognition** of the whole input of a tokenizer. -/
def recognize (g : Grammar κ) (tokenizer : Tokenizer κ σ) (equals : String → κ → Bool)
    (state : σ) : Run κ σ :=
  recognizeFrom g tokenizer equals (.start g) state

end Step

end Earley
