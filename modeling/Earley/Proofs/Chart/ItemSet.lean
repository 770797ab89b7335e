import Earley.Chart.Recognize
import Mathlib.Data.List.Basic
import Mathlib.Data.List.Nodup

/-!
# Proofs/Chart/ItemSet — what is in a set of items, and what an item awaits

A set is seen through the list of its items, in their order.  Insertion keeps that list as a prefix,
adds what is inserted and nothing else, and never lists an item twice.
-/

namespace Earley

universe u

variable {κ : Type u}

/-! ## Insertion -/

namespace ItemSet

variable {set : ItemSet} {item other : Item} {items : List Item}

theorem toList_insert : (set.insert item).toList
    = if item ∈ set.toList then set.toList else set.toList ++ [item] := by
  simp only [toList, insert, Array.mem_toList_iff]
  split <;> simp

theorem insertAll_cons : set.insertAll (item :: items) = (set.insert item).insertAll items := rfl

@[simp] theorem toList_empty : ({} : ItemSet).toList = [] := rfl

@[simp] theorem mem_insert :
    other ∈ (set.insert item).toList ↔ other ∈ set.toList ∨ other = item := by
  rw [toList_insert]
  split
  · rename_i mem
    exact ⟨.inl, fun h => h.elim id fun same => same ▸ mem⟩
  · simp

@[simp] theorem mem_insertAll : other ∈ (set.insertAll items).toList
    ↔ other ∈ set.toList ∨ other ∈ items := by
  induction items generalizing set with
  | nil => simp [insertAll]
  | cons item items ih => rw [insertAll_cons, ih, mem_insert, List.mem_cons, or_assoc]

@[simp] theorem mem_ofList : other ∈ (ofList items).toList ↔ other ∈ items := by
  simp [ofList]

theorem prefix_insert : set.toList.IsPrefix (set.insert item).toList := by
  rw [toList_insert]
  split
  · exact List.prefix_rfl
  · exact List.prefix_append _ _

/-- **Insertion keeps the items that are there in their places.** -/
theorem prefix_insertAll : set.toList.IsPrefix (set.insertAll items).toList := by
  induction items generalizing set with
  | nil => exact List.prefix_rfl
  | cons item items ih => exact prefix_insert.trans ih

theorem nodup_insert (h : set.toList.Nodup) : (set.insert item).toList.Nodup := by
  rw [toList_insert]
  split
  · exact h
  · rename_i fresh
    exact List.nodup_append.2 ⟨h, List.nodup_singleton item, fun a ha b hb same =>
      fresh (List.mem_singleton.1 hb ▸ same ▸ ha)⟩

theorem nodup_insertAll (h : set.toList.Nodup) : (set.insertAll items).toList.Nodup := by
  induction items generalizing set with
  | nil => exact h
  | cons item items ih => exact ih (nodup_insert h)

theorem nodup_ofList : (ofList items).toList.Nodup := nodup_insertAll List.nodup_nil

end ItemSet

/-! ## The symbol behind the dot -/

namespace Item

variable {g : Grammar κ} {item : Item}

theorem awaitedName?_eq_some {name : String} :
    item.awaitedName? g = some name ↔ item.next? g = some (.nonterminal name) := by
  cases h : item.next? g with
  | none => simp [awaitedName?, h]
  | some symbol => cases symbol <;> simp [awaitedName?, h, Symbol.name?]

theorem awaitedKind?_eq_some {kind : κ} :
    item.awaitedKind? g = some kind ↔ item.next? g = some (.terminal kind) := by
  cases h : item.next? g with
  | none => simp [awaitedKind?, h]
  | some symbol => cases symbol <;> simp [awaitedKind?, h, Symbol.kind?]

/-- **The symbol behind the dot splits the production.** -/
theorem symbols_eq {symbol : Symbol κ} (h : item.next? g = some symbol) :
    g.symbols item.production = (g.symbols item.production).take item.dot
      ++ symbol :: (g.symbols item.production).drop (item.dot + 1) := by
  obtain ⟨bound, rfl⟩ := List.getElem?_eq_some_iff.1 h
  rw [← List.drop_eq_getElem_cons bound, List.take_append_drop]

theorem take_advance {symbol : Symbol κ} (h : item.next? g = some symbol) :
    (g.symbols item.production).take item.advance.dot
      = (g.symbols item.production).take item.dot ++ [symbol] := by
  change (g.symbols item.production).take (item.dot + 1) = _
  rw [List.take_add_one, show (g.symbols item.production)[item.dot]? = some symbol from h,
    Option.toList_some]

theorem dot_lt {symbol : Symbol κ} (h : item.next? g = some symbol) :
    item.dot < (g.symbols item.production).length :=
  (List.getElem?_eq_some_iff.1 h).1

theorem next?_eq_none : item.next? g = none ↔ (g.symbols item.production).length ≤ item.dot :=
  List.getElem?_eq_none_iff

/-- The first symbol behind the dot. -/
theorem next?_of_drop {symbol : Symbol κ} {rest : List (Symbol κ)}
    (ahead : (g.symbols item.production).drop item.dot = symbol :: rest) :
    item.next? g = some symbol := by
  rw [next?, ← List.head?_drop, ahead, List.head?_cons]

/-- The symbols behind the first one. -/
theorem drop_advance {symbol : Symbol κ} {rest : List (Symbol κ)}
    (ahead : (g.symbols item.production).drop item.dot = symbol :: rest) :
    (g.symbols item.advance.production).drop item.advance.dot = rest := by
  change (g.symbols item.production).drop (item.dot + 1) = rest
  rw [← List.tail_drop, ahead, List.tail_cons]

theorem next?_of_split {id : ProdId} {before after : List (Symbol κ)} {symbol : Symbol κ}
    {origin : Nat} (split : g.symbols id = before ++ symbol :: after) :
    next? g ⟨id, before.length, origin⟩ = some symbol := by
  simp [next?, split]

end Item

/-! ## What one item implies -/

/-- **The three ways in which an item implies another** at its position. -/
inductive Consequence (g : Grammar κ) (earlier : Array ItemSet) (current : ItemSet) (item : Item) :
    Item → Prop
  | predicted {name : String} {id : ProdId} (awaits : item.next? g = some (.nonterminal name))
      (rule : id ∈ g.productionsOf name) :
      Consequence g earlier current item (.predict earlier.size id)
  | skipped {name : String} (awaits : item.next? g = some (.nonterminal name))
      (empty : g.isNullable name = true) : Consequence g earlier current item item.advance
  | completed {waiting : Item} (complete : item.next? g = none)
      (there : waiting ∈ (earlier.getD item.origin current).toList)
      (awaits : waiting.next? g = some (.nonterminal (g.name item.production))) :
      Consequence g earlier current item waiting.advance

theorem mem_consequences {g : Grammar κ} {earlier : Array ItemSet} {current : ItemSet}
    {item new : Item} :
    new ∈ consequences g earlier current item ↔ Consequence g earlier current item new := by
  unfold consequences
  constructor
  · intro mem
    split at mem
    · rename_i complete
      simp only [List.mem_map, Array.mem_toList_iff, Array.mem_filter, beq_iff_eq] at mem
      obtain ⟨waiting, ⟨there, awaits⟩, rfl⟩ := mem
      exact .completed complete (Array.mem_toList_iff.2 there) (Item.awaitedName?_eq_some.1 awaits)
    · rename_i name awaits
      rcases List.mem_append.1 mem with mem | mem
      · obtain ⟨id, rule, rfl⟩ := List.mem_map.1 mem
        exact .predicted awaits rule
      · split at mem
        · rename_i empty
          obtain rfl := List.mem_singleton.1 mem
          exact .skipped awaits empty
        · exact absurd mem List.not_mem_nil
    · exact absurd mem List.not_mem_nil
  · intro h
    cases h with
    | predicted awaits rule =>
      simp only [awaits]
      exact List.mem_append_left _ (List.mem_map.2 ⟨_, rule, rfl⟩)
    | skipped awaits empty =>
      simp [awaits, empty]
    | completed complete there awaits =>
      simp only [complete, List.mem_map, Array.mem_toList_iff, Array.mem_filter, beq_iff_eq]
      exact ⟨_, ⟨Array.mem_toList_iff.1 there, Item.awaitedName?_eq_some.2 awaits⟩, rfl⟩

/-! ## Expected kinds and the items that advance over a token -/

theorem nodup_eraseDups {α : Type u} [BEq α] [LawfulBEq α] : ∀ xs : List α, xs.eraseDups.Nodup
  | [] => List.nodup_nil
  | x :: xs => by
    rw [List.eraseDups_cons, List.nodup_cons]
    refine ⟨fun mem => ?_, nodup_eraseDups _⟩
    simpa using List.mem_eraseDups.1 mem
termination_by xs => xs.length
decreasing_by exact Nat.lt_succ_of_le (List.length_filter_le _ _)

namespace ItemSet

variable [DecidableEq κ] {g : Grammar κ} {set : ItemSet}

theorem mem_expected {kind : κ} :
    kind ∈ set.expected g ↔ ∃ item ∈ set.toList, item.next? g = some (.terminal kind) := by
  simp [expected, List.mem_eraseDups, Item.awaitedKind?_eq_some]

/-- A kind is expected once, however many items await it. -/
theorem nodup_expected : (set.expected g).Nodup := nodup_eraseDups _

theorem mem_scanned {kinds : List κ} {new : Item} : new ∈ (set.scanned g kinds).toList
    ↔ ∃ item ∈ set.toList, ∃ kind ∈ kinds, item.next? g = some (.terminal kind)
        ∧ item.advance = new := by
  simp only [scanned, mem_ofList, List.mem_map, List.mem_filter, Option.any_eq_true,
    decide_eq_true_eq, Item.awaitedKind?_eq_some]
  constructor
  · rintro ⟨item, ⟨mem, kind, awaits, chosen⟩, rfl⟩
    exact ⟨item, mem, kind, chosen, awaits, rfl⟩
  · rintro ⟨item, mem, kind, chosen, awaits, rfl⟩
    exact ⟨item, ⟨mem, kind, awaits, chosen⟩, rfl⟩

/-- No item advances exactly if none of the expected kinds was chosen. -/
theorem isEmpty_scanned_iff {kinds : List κ} (chosen : kinds ⊆ set.expected g) :
    (set.scanned g kinds).items.isEmpty = true ↔ kinds = [] := by
  rw [Array.isEmpty_iff, ← Array.toList_eq_nil_iff, List.eq_nil_iff_forall_not_mem,
    List.eq_nil_iff_forall_not_mem]
  constructor
  · intro idle kind mem
    obtain ⟨item, memItem, awaits⟩ := mem_expected.1 (chosen mem)
    exact idle item.advance (mem_scanned.2 ⟨item, memItem, kind, mem, awaits, rfl⟩)
  · intro unmatched new mem
    obtain ⟨_, -, kind, memKind, -⟩ := mem_scanned.1 mem
    exact unmatched kind memKind

end ItemSet

end Earley
