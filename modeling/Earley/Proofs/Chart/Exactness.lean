import Earley.Proofs.Chart.Invariant

/-!
# Proofs/Chart/Exactness — the items of a chart are the justified ones

Soundness is an invariant of the run.  For completeness a saturated chart follows any derivation: an
item in front of symbols that derive a stretch of the tokens is found, advanced over them, at the
end of the stretch (`Saturated.advance_mem`), and where a name may begin all its productions are
predicted (`Saturated.predict_mem`).  Both say nothing about how tokens are read but that the chart
scans them.
-/

namespace Earley

universe u v

variable {κ : Type u} {g : Grammar κ} {stands : Nat → κ → Prop}

namespace Chart

variable {chart : Chart κ} {pos stop : Nat}

/-- The items of the chart advance over every token that may be read as what they await. -/
def Scans (g : Grammar κ) (stands : Nat → κ → Prop) (chart : Chart κ) : Prop :=
  ∀ pos, ∀ item ∈ chart.itemsAt pos, ∀ kind, item.next? g = some (.terminal kind) →
    stands pos kind → item.advance ∈ chart.itemsAt (pos + 1)

/-- **A saturated chart follows every derivation.** -/
theorem Saturated.advance_mem (h : chart.Saturated g) (scans : chart.Scans g stands)
    {symbols rest : List (Symbol κ)} (derives : Derives g stands symbols pos stop) {item : Item}
    (mem : item ∈ chart.itemsAt pos)
    (ahead : (g.symbols item.production).drop item.dot = symbols ++ rest) :
    ⟨item.production, item.dot + symbols.length, item.origin⟩ ∈ chart.itemsAt stop := by
  induction derives generalizing item rest with
  | nil => exact mem
  | terminal stand _ ih =>
    have advanced := scans _ item mem _ (Item.next?_of_drop ahead) stand
    have := ih advanced (Item.drop_advance ahead)
    rwa [List.length_cons, Nat.add_comm _ 1, ← Nat.add_assoc]
  | @nonterminal name id rest' pos mid stop rule head _ ihHead ihTail =>
    have next := Item.next?_of_drop ahead
    have predicted := h.predicted _ item mem name next id rule
    have whole : (g.symbols (Item.predict pos id).production).drop (Item.predict pos id).dot
        = g.symbols id ++ [] := by simp [Item.predict]
    have complete := ihHead predicted whole
    obtain ⟨-, named⟩ := Grammar.mem_productionsOf.1 rule
    have advanced := h.completed _ _ complete
      (Item.next?_eq_none.2 (by simp [Item.predict])) item mem (by simpa [Item.predict, named])
    have := ihTail advanced (Item.drop_advance ahead)
    rwa [List.length_cons, Nat.add_comm _ 1, ← Nat.add_assoc]

/-- **Where a name may begin, its productions are predicted.** -/
theorem Saturated.predict_mem (h : chart.Saturated g) (scans : chart.Scans g stands)
    {name : String} (reachable : LeftReachable g stands name pos) {id : ProdId}
    (rule : id ∈ g.productionsOf name) : Item.predict pos id ∈ chart.itemsAt pos := by
  induction reachable generalizing id with
  | entry => exact h.begun id rule
  | @step name next above before after origin pos _ aboveRule split read ih =>
    have ahead : (g.symbols (Item.predict origin above).production).drop
        (Item.predict origin above).dot = before ++ .nonterminal next :: after := by
      simp [Item.predict, split]
    have here := h.advance_mem scans read (ih aboveRule) ahead
    refine h.predicted pos _ here next ?_ id rule
    simpa [Item.predict] using Item.next?_of_split split

/-- **A saturated chart holds every justified item.** -/
theorem Saturated.mem_of_justified (h : chart.Saturated g) (scans : chart.Scans g stands)
    {item : Item} (justified : item.Justified g stands pos) : item ∈ chart.itemsAt pos := by
  have predicted := h.predict_mem scans justified.reachable justified.rule
  have ahead : (g.symbols (Item.predict item.origin item.production).production).drop
      (Item.predict item.origin item.production).dot
        = (g.symbols item.production).take item.dot
          ++ (g.symbols item.production).drop item.dot := by
    simp [Item.predict]
  have advanced := h.advance_mem scans justified.read predicted ahead
  simpa [Item.predict, justified.dot_le] using advanced

theorem mem_itemsAt_iff (sound : chart.Sound g) (saturated : chart.Saturated g) {item : Item} :
    item ∈ chart.itemsAt pos ↔ item.Justified g chart.Reads pos :=
  ⟨sound.justified pos item, saturated.mem_of_justified saturated.scanned⟩

end Chart

/-- **Chart exactness.**  At the end of every run there is one set of items more than tokens were
read, and an item is in the set of a position exactly if it is a production of the grammar with a
dot in it, its name may begin at its origin, and the symbols before its dot derive the tokens from
the origin up to the position. -/
theorem mem_itemsAt_recognize_iff [DecidableEq κ] {σ : Type v} (g : Grammar κ)
    (tokenizer : Tokenizer κ σ) (equals : String → κ → Bool) (state : σ) :
    let chart := (recognize g tokenizer equals state).chart
    chart.sets.size = chart.tokens.size + 1 ∧ ∀ pos item,
      item ∈ chart.itemsAt pos ↔
        item.production < g.productions.size
          ∧ item.dot ≤ (g.symbols item.production).length
          ∧ item.origin ≤ pos
          ∧ LeftReachable g chart.Reads (g.name item.production) item.origin
          ∧ Derives g chart.Reads ((g.symbols item.production).take item.dot) item.origin pos := by
  intro chart
  have sound : chart.Sound g := Chart.sound_recognize
  refine ⟨sound.size_sets, fun pos item => ?_⟩
  rw [Chart.mem_itemsAt_iff sound Chart.saturated_recognize]
  constructor
  · intro h
    exact ⟨h.production_lt, h.dot_le, h.origin_le, h.reachable, h.read⟩
  · rintro ⟨production_lt, dot_le, -, reachable, read⟩
    exact ⟨production_lt, dot_le, reachable, read⟩

end Earley
