import Earley.Proofs.Chart.ItemSet
import Mathlib.Algebra.BigOperators.Ring.List
import Mathlib.Algebra.Ring.Nat
import Mathlib.Data.List.Perm.Subperm

/-!
# Proofs/Chart/Closure — every item of a closed set has been met

`closeFrom` walks along a list that grows under it.  What it keeps from step to step is said once
(`closeFrom_forall`), and so is what it leaves behind: the consequences of every item it has met, as
they were at that time (`Answered`).  It meets all items, because a set without repetition has no
more items than `Grammar.itemCount` allows steps (`length_le_itemCount`).
-/

namespace Earley

universe u

variable {κ : Type u} {g : Grammar κ} {earlier : Array ItemSet} {current set : ItemSet}
  {item : Item} {steps index pos : Nat}

/-! ## The number of items -/

/-- An item that fits the grammar and begins no later than `pos`. -/
structure Item.InRange (g : Grammar κ) (pos : Nat) (item : Item) : Prop where
  production_lt : item.production < g.productions.size
  dot_le : item.dot ≤ (g.symbols item.production).length
  origin_le : item.origin ≤ pos

/-- All items that fit the grammar and begin no later than `pos`. -/
def Grammar.allItems (g : Grammar κ) (pos : Nat) : List Item :=
  (List.range g.productions.size).flatMap fun id =>
    (List.range ((g.symbols id).length + 1)).flatMap fun dot =>
      (List.range (pos + 1)).map fun origin => ⟨id, dot, origin⟩

theorem Item.InRange.mem_allItems (h : item.InRange g pos) : item ∈ g.allItems pos := by
  simp only [Grammar.allItems, List.mem_flatMap, List.mem_map, List.mem_range]
  exact ⟨item.production, h.production_lt, item.dot, Nat.lt_succ_of_le h.dot_le, item.origin,
    Nat.lt_succ_of_le h.origin_le, rfl⟩

theorem Grammar.map_symbols_range (g : Grammar κ) (f : List (Symbol κ) → Nat) :
    (List.range g.productions.size).map (fun id => f (g.symbols id))
      = g.productions.toList.map fun p => f p.symbols := by
  refine List.ext_getElem (by simp) fun id h h' => ?_
  have bound : id < g.productions.size := by simpa using h
  simp [Grammar.symbols, bound]

theorem Grammar.length_allItems (g : Grammar κ) (pos : Nat) :
    (g.allItems pos).length = g.itemCount pos := by
  simp only [allItems, List.length_flatMap, List.length_map, List.length_range, List.map_const',
    List.sum_replicate_nat]
  rw [g.map_symbols_range fun symbols => (symbols.length + 1) * (pos + 1), itemCount,
    Nat.mul_comm]
  exact List.sum_map_mul_right _ _ _

/-- **A list of different items is no longer than `itemCount`.** -/
theorem length_le_itemCount {items : List Item} (nodup : items.Nodup)
    (range : ∀ item ∈ items, item.InRange g pos) : items.length ≤ g.itemCount pos := by
  rw [← g.length_allItems pos]
  exact (nodup.subperm fun item mem => (range item mem).mem_allItems).length_le

/-- **A set fits its place**: its items are in range there, and it lists none twice. -/
structure ItemSet.Fits (g : Grammar κ) (pos : Nat) (set : ItemSet) : Prop where
  nodup : set.toList.Nodup
  inRange : ∀ item ∈ set.toList, item.InRange g pos

/-- Every set fits its place. -/
def FittingSets (g : Grammar κ) (sets : Array ItemSet) : Prop :=
  ∀ pos, (sets.getD pos {}).Fits g pos

theorem ItemSet.fits_empty : ({} : ItemSet).Fits g pos :=
  ⟨List.nodup_nil, fun _ mem => absurd mem List.not_mem_nil⟩

theorem ItemSet.Fits.length_le (h : set.Fits g pos) : set.toList.length ≤ g.itemCount pos :=
  length_le_itemCount h.nodup h.inRange

/-! ## What the walk keeps -/

theorem closeFrom_of_getElem?_eq_none (h : current.toList[index]? = none) :
    closeFrom g earlier steps index current = current := by
  cases steps with
  | zero => rfl
  | succ steps =>
    have h' : current.items[index]? = none := by simpa [ItemSet.toList] using h
    simp [closeFrom, h']

theorem closeFrom_of_getElem?_eq_some (h : current.toList[index]? = some item) :
    closeFrom g earlier (steps + 1) index current
      = closeFrom g earlier steps (index + 1)
          (current.insertAll (consequences g earlier current item)) := by
  have h' : current.items[index]? = some item := by simpa [ItemSet.toList] using h
  simp [closeFrom, h']

/-- **A property of sets that the consequences of an item keep** is kept by the whole walk. -/
theorem closeFrom_induction {P : ItemSet → Prop}
    (step : ∀ current item, item ∈ ItemSet.toList current → P current →
      P (current.insertAll (consequences g earlier current item)))
    (start : P current) : P (closeFrom g earlier steps index current) := by
  induction steps generalizing index current with
  | zero => exact start
  | succ steps ih =>
    cases h : current.toList[index]? with
    | none => rwa [closeFrom_of_getElem?_eq_none h]
    | some item =>
      rw [closeFrom_of_getElem?_eq_some h]
      exact ih (step current item (List.mem_of_getElem? h) start)

theorem prefix_closeFrom :
    current.toList.IsPrefix (closeFrom g earlier steps index current).toList :=
  closeFrom_induction (P := fun set => current.toList.IsPrefix set.toList)
    (fun _ _ _ h => h.trans ItemSet.prefix_insertAll) List.prefix_rfl

theorem nodup_closeFrom (h : current.toList.Nodup) :
    (closeFrom g earlier steps index current).toList.Nodup :=
  closeFrom_induction (P := fun set => set.toList.Nodup) (fun _ _ _ h => ItemSet.nodup_insertAll h)
    h

/-- **What holds of the items of a set and of all that they imply** holds of the closed set. -/
theorem closeFrom_forall {P : Item → Prop}
    (keep : ∀ current : ItemSet, (∀ item ∈ current.toList, P item) → ∀ item ∈ current.toList,
      ∀ new, Consequence g earlier current item new → P new)
    (start : ∀ item ∈ current.toList, P item) :
    ∀ item ∈ (closeFrom g earlier steps index current).toList, P item := by
  refine closeFrom_induction (P := fun set => ∀ item ∈ set.toList, P item) ?_ start
  intro current item mem all new memNew
  rcases ItemSet.mem_insertAll.1 memNew with old | implied
  · exact all new old
  · exact keep current all item mem new (mem_consequences.1 implied)

/-- **Where consequences agree, walks do**, as far as a property of sets that the consequences keep
says that they agree. -/
theorem closeFrom_congr {g' : Grammar κ} {P : ItemSet → Prop}
    (same : ∀ current item, item ∈ ItemSet.toList current → P current →
      consequences g' earlier current item = consequences g earlier current item)
    (step : ∀ current item, item ∈ ItemSet.toList current → P current →
      P (current.insertAll (consequences g earlier current item)))
    (start : P current) :
    closeFrom g' earlier steps index current = closeFrom g earlier steps index current := by
  induction steps generalizing index current with
  | zero => rfl
  | succ steps ih =>
    cases h : current.toList[index]? with
    | none => rw [closeFrom_of_getElem?_eq_none h, closeFrom_of_getElem?_eq_none h]
    | some item =>
      have mem := List.mem_of_getElem? h
      rw [closeFrom_of_getElem?_eq_some h, closeFrom_of_getElem?_eq_some h,
        same current item mem start]
      exact ih (step current item mem start)

/-- **Further steps change nothing** where there are as many as items. -/
theorem closeFrom_of_le {more : Nat}
    (enough : (closeFrom g earlier steps index current).toList.length ≤ index + steps)
    (le : steps ≤ more) :
    closeFrom g earlier more index current = closeFrom g earlier steps index current := by
  induction steps generalizing index current more with
  | zero => exact closeFrom_of_getElem?_eq_none (List.getElem?_eq_none_iff.2 enough)
  | succ steps ih =>
    obtain ⟨more, rfl⟩ : ∃ further, more = further + 1 := ⟨more - 1, by omega⟩
    cases h : current.toList[index]? with
    | none => rw [closeFrom_of_getElem?_eq_none h, closeFrom_of_getElem?_eq_none h]
    | some item =>
      rw [closeFrom_of_getElem?_eq_some h] at enough ⊢
      rw [closeFrom_of_getElem?_eq_some h]
      exact ih (by omega) (Nat.le_of_succ_le_succ le)

/-! ## What the walk has done -/

/-- An item whose consequences, as they were when it was met, are in the set. -/
def Answered (g : Grammar κ) (earlier : Array ItemSet) (set : ItemSet) (item : Item) : Prop :=
  ∃ seen : ItemSet, (∀ other ∈ seen.toList, other ∈ set.toList)
    ∧ ∀ new, Consequence g earlier seen item new → new ∈ set.toList

theorem Answered.mono {more : ItemSet} (h : Answered g earlier set item)
    (sub : ∀ other ∈ set.toList, other ∈ more.toList) : Answered g earlier more item := by
  obtain ⟨seen, there, implied⟩ := h
  exact ⟨seen, fun other mem => sub other (there other mem),
    fun new h => sub new (implied new h)⟩

theorem answered_insertAll :
    Answered g earlier (current.insertAll (consequences g earlier current item)) item :=
  ⟨current, fun _ mem => ItemSet.mem_insertAll.2 (.inl mem),
    fun _ h => ItemSet.mem_insertAll.2 (.inr (mem_consequences.2 h))⟩

/-- **The walk answers every item**, if the set it ends with is not larger than its steps allow. -/
theorem answered_closeFrom
    (done : ∀ i < index, ∀ item, current.toList[i]? = some item → Answered g earlier current item)
    (enough : (closeFrom g earlier steps index current).toList.length ≤ index + steps) :
    ∀ item ∈ (closeFrom g earlier steps index current).toList,
      Answered g earlier (closeFrom g earlier steps index current) item := by
  induction steps generalizing index current with
  | zero =>
    intro item mem
    obtain ⟨i, hi, rfl⟩ := List.getElem_of_mem mem
    exact done i (Nat.lt_of_lt_of_le hi enough) _ (List.getElem?_eq_getElem hi)
  | succ steps ih =>
    cases h : current.toList[index]? with
    | none =>
      rw [closeFrom_of_getElem?_eq_none h]
      intro item mem
      obtain ⟨i, hi, rfl⟩ := List.getElem_of_mem mem
      have := List.getElem?_eq_none_iff.1 h
      exact done i (by omega) _ (List.getElem?_eq_getElem hi)
    | some item =>
      rw [closeFrom_of_getElem?_eq_some h] at enough ⊢
      refine ih (fun i hi other atIndex => ?_) (by omega)
      have bound : i < current.toList.length :=
        Nat.lt_of_lt_of_le hi (List.getElem?_eq_some_iff.1 h).1
      have here : current.toList[i]? = some other := by
        rw [← atIndex, List.prefix_iff_getElem?.1 ItemSet.prefix_insertAll i bound,
          List.getElem?_eq_getElem bound]
      rcases Nat.lt_or_eq_of_le (Nat.le_of_lt_succ hi) with before | rfl
      · exact (done i before other here).mono fun _ mem => ItemSet.mem_insertAll.2 (.inl mem)
      · obtain rfl : item = other := Option.some.inj (h.symm.trans here)
        exact answered_insertAll

/-- **The closure of a set of items in range answers each of its items.** -/
theorem answered_closure (nodup : set.toList.Nodup)
    (range : ∀ item ∈ (closure g earlier set).toList, item.InRange g earlier.size) :
    ∀ item ∈ (closure g earlier set).toList, Answered g earlier (closure g earlier set) item := by
  refine answered_closeFrom (fun i hi => absurd hi (Nat.not_lt_zero i)) ?_
  rw [Nat.zero_add]
  exact length_le_itemCount (nodup_closeFrom nodup) range

end Earley
