import Earley.Proofs.Chart.Closure
import Earley.Proofs.Grammar.Nullable

/-!
# Proofs/Chart/Justified — closed sets hold justified items and are closed indeed

An item at a position is justified when its name may begin at its origin and the symbols before its
dot derive the tokens from there up to the position.  What justified items imply is justified
(`Consequence.justified`).

`closure_completed` is where the order of the walk could do harm: a completion over no tokens sees
only the items that await its name by then.  But it is justified, so its name derives the empty
text, and every item that awaits it, early or late, advances when it is met itself.
-/

namespace Earley

universe u

variable {κ : Type u} {g : Grammar κ} {stands : Nat → κ → Prop}

/-! ## Justified items -/

/-- **What an item at `pos` stands for**: its name may begin at its origin, and the symbols before
its dot derive the tokens from there to `pos`. -/
structure Item.Justified (g : Grammar κ) (stands : Nat → κ → Prop) (pos : Nat) (item : Item) :
    Prop where
  production_lt : item.production < g.productions.size
  dot_le : item.dot ≤ (g.symbols item.production).length
  reachable : LeftReachable g stands (g.name item.production) item.origin
  read : Derives g stands ((g.symbols item.production).take item.dot) item.origin pos

namespace Item.Justified

variable {pos mid : Nat} {item : Item}

theorem origin_le (h : item.Justified g stands pos) : item.origin ≤ pos := h.read.le

theorem inRange (h : item.Justified g stands pos) : item.InRange g pos :=
  ⟨h.production_lt, h.dot_le, h.origin_le⟩

theorem rule (h : item.Justified g stands pos) :
    item.production ∈ g.productionsOf (g.name item.production) :=
  Grammar.mem_productionsOf_name h.production_lt

theorem mono {stands' : Nat → κ → Prop} (h : item.Justified g stands pos)
    (imp : ∀ index kind, stands index kind → stands' index kind) :
    item.Justified g stands' pos :=
  ⟨h.production_lt, h.dot_le, h.reachable.mono imp, h.read.mono imp⟩

theorem predict {name : String} {id : ProdId} (reachable : LeftReachable g stands name pos)
    (rule : id ∈ g.productionsOf name) : (Item.predict pos id).Justified g stands pos where
  production_lt := (Grammar.mem_productionsOf.1 rule).1
  dot_le := Nat.zero_le _
  reachable := by
    obtain ⟨-, rfl⟩ := Grammar.mem_productionsOf.1 rule
    exact reachable
  read := .nil pos

/-- A name that is awaited may begin. -/
theorem reaches {name : String} (h : item.Justified g stands pos)
    (awaits : item.next? g = some (.nonterminal name)) : LeftReachable g stands name pos :=
  .step h.reachable h.rule (Item.symbols_eq awaits) h.read

theorem advance {symbol : Symbol κ} (h : item.Justified g stands mid)
    (awaits : item.next? g = some symbol) (derives : Derives g stands [symbol] mid pos) :
    item.advance.Justified g stands pos where
  production_lt := h.production_lt
  dot_le := Item.dot_lt awaits
  reachable := h.reachable
  read := by
    have read := h.read.append derives
    rwa [← Item.take_advance awaits] at read

/-- **A complete item derives its name.** -/
theorem derives_name (h : item.Justified g stands pos) (complete : item.next? g = none) :
    Derives g stands [.nonterminal (g.name item.production)] item.origin pos := by
  have read := h.read
  rw [List.take_of_length_le (Item.next?_eq_none.1 complete)] at read
  exact .singleton_nonterminal h.rule read

end Item.Justified

/-! ## Closed sets -/

section Closed

variable {earlier : Array ItemSet} {current set : ItemSet} {item new waiting : Item}

/-- The items of every set are justified at the place of the set. -/
def JustifiedSets (g : Grammar κ) (stands : Nat → κ → Prop) (sets : Array ItemSet) : Prop :=
  ∀ pos, ∀ item ∈ (sets.getD pos {}).toList, item.Justified g stands pos

theorem JustifiedSets.of_lt {pos : Nat} (h : JustifiedSets g stands earlier)
    (bound : pos < earlier.size) :
    ∀ item ∈ (earlier.getD pos current).toList, item.Justified g stands pos := by
  have here := h pos
  simp only [Array.getD, bound, dite_true] at here ⊢
  exact here

/-- **What justified items imply is justified.** -/
theorem Consequence.justified (before : JustifiedSets g stands earlier)
    (here : ∀ item ∈ current.toList, item.Justified g stands earlier.size)
    (mem : item ∈ current.toList) (h : Consequence g earlier current item new) :
    new.Justified g stands earlier.size := by
  cases h with
  | predicted awaits rule => exact .predict ((here item mem).reaches awaits) rule
  | skipped awaits empty =>
    exact (here item mem).advance awaits ((Grammar.isNullable_iff.1 empty).derives _)
  | completed complete there awaits =>
    have derives := (here item mem).derives_name complete
    rcases Nat.lt_or_eq_of_le (here item mem).origin_le with bound | same
    · exact (before.of_lt bound _ there).advance awaits derives
    · rw [same] at there derives
      simp only [Array.getD, Nat.lt_irrefl, dite_false] at there
      exact (here _ there).advance awaits derives

theorem justified_closure (before : JustifiedSets g stands earlier)
    (here : ∀ item ∈ set.toList, item.Justified g stands earlier.size) :
    ∀ item ∈ (closure g earlier set).toList, item.Justified g stands earlier.size :=
  closeFrom_forall (fun _ all _ mem _ h => h.justified before all mem) here

section Fixpoint

variable (before : JustifiedSets g stands earlier) (nodup : set.toList.Nodup)
  (here : ∀ item ∈ set.toList, item.Justified g stands earlier.size)

include before nodup here

/-- The closure of justified items answers each of its items. -/
theorem answered_closure_of_justified (mem : item ∈ (closure g earlier set).toList) :
    Answered g earlier (closure g earlier set) item :=
  answered_closure nodup (fun other h => (justified_closure before here other h).inRange) item mem

/-- **A closed set is closed under prediction.** -/
theorem closure_predicted {name : String} {id : ProdId}
    (mem : item ∈ (closure g earlier set).toList) (awaits : item.next? g = some (.nonterminal name))
    (rule : id ∈ g.productionsOf name) :
    Item.predict earlier.size id ∈ (closure g earlier set).toList := by
  obtain ⟨_, _, implied⟩ := answered_closure_of_justified before nodup here mem
  exact implied _ (.predicted awaits rule)

/-- **A closed set is closed under the reading of nothing.** -/
theorem closure_skipped {name : String} (mem : item ∈ (closure g earlier set).toList)
    (awaits : item.next? g = some (.nonterminal name)) (empty : g.isNullable name = true) :
    item.advance ∈ (closure g earlier set).toList := by
  obtain ⟨_, _, implied⟩ := answered_closure_of_justified before nodup here mem
  exact implied _ (.skipped awaits empty)

/-- **A closed set is closed under completion**, also where the items that await the name are its
own and came later. -/
theorem closure_completed (mem : item ∈ (closure g earlier set).toList)
    (complete : item.next? g = none)
    (there : waiting ∈ (earlier.getD item.origin (closure g earlier set)).toList)
    (awaits : waiting.next? g = some (.nonterminal (g.name item.production))) :
    waiting.advance ∈ (closure g earlier set).toList := by
  have justified := justified_closure before here item mem
  rcases Nat.lt_or_eq_of_le justified.origin_le with bound | same
  · obtain ⟨seen, _, implied⟩ := answered_closure_of_justified before nodup here mem
    refine implied _ (.completed complete ?_ awaits)
    simp only [Array.getD, bound, dite_true] at there ⊢
    exact there
  · have derives := justified.derives_name complete
    rw [same] at there derives
    simp only [Array.getD, Nat.lt_irrefl, dite_false] at there
    exact closure_skipped before nodup here there awaits
      (Grammar.isNullable_iff.2 (derives_self_iff.1 derives))

end Fixpoint

end Closed

end Earley
