import Earley.Proofs.Grammar.Nullable

/-!
# Proofs/Grammar/Extension — productions of names that the entry does not reach

A grammar reaches a name if the entry leads to it through the symbols of productions.  An extension
is idle if it appends productions of other names only (`Grammar.Idle`).  It changes neither the
productions of a name that is reached nor whether such a name derives the empty text
(`Grammar.Idle.isNullable_eq`), although other names may become nullable by it.
-/

namespace Earley

universe u

variable {κ : Type u} {g larger : Grammar κ} {name : String} {id : ProdId}

namespace Grammar

/-- **The names that the entry reaches** through the symbols of productions. -/
inductive Reaches (g : Grammar κ) : String → Prop
  | entry : Reaches g g.entry
  | step {name next : String} {id : ProdId} (above : Reaches g name)
      (rule : id ∈ g.productionsOf name) (mem : .nonterminal next ∈ g.symbols id) : Reaches g next

/-- **More productions at the end, none of them of a name that is reached.** -/
structure Idle (g larger : Grammar κ) : Prop where
  entry_eq : larger.entry = g.entry
  begins : g.productions.toList.IsPrefix larger.productions.toList
  lt_of_reaches : ∀ id < larger.productions.size, g.Reaches (larger.name id) →
    id < g.productions.size

namespace Idle

/-- Another production of a name that is not reached. -/
theorem add {p : Production κ} (unreached : ¬ g.Reaches p.name) : g.Idle (g.add p) where
  entry_eq := rfl
  begins := ⟨[p], Array.toList_push.symm⟩
  lt_of_reaches := by
    intro id bound reaches
    rw [Grammar.add, Array.size_push] at bound
    refine Nat.lt_of_le_of_ne (Nat.le_of_lt_succ bound) ?_
    rintro rfl
    exact unreached (by simpa [Grammar.add, Grammar.name] using reaches)

variable (h : g.Idle larger)

include h

theorem size_le : g.productions.size ≤ larger.productions.size := by
  simpa using h.begins.length_le

theorem getElem?_eq (known : id < g.productions.size) :
    larger.productions[id]? = g.productions[id]? := by
  have same := List.prefix_iff_getElem?.1 h.begins id (by simpa using known)
  simpa [known] using same

theorem name_eq (known : id < g.productions.size) : larger.name id = g.name id := by
  rw [Grammar.name, Grammar.name, h.getElem?_eq known]

theorem symbols_eq (known : id < g.productions.size) : larger.symbols id = g.symbols id := by
  rw [Grammar.symbols, Grammar.symbols, h.getElem?_eq known]

/-- A known production has the same name as before. -/
theorem mem_productionsOf_iff (known : id < g.productions.size) :
    id ∈ larger.productionsOf name ↔ id ∈ g.productionsOf name := by
  rw [mem_productionsOf, mem_productionsOf, h.name_eq known]
  exact and_congr_left' (iff_of_true (known.trans_le h.size_le) known)

/-- **A name that is reached has the productions that it had.** -/
theorem productionsOf_eq (reached : g.Reaches name) :
    larger.productionsOf name = g.productionsOf name := by
  obtain ⟨more, size⟩ := Nat.exists_eq_add_of_le h.size_le
  have fresh : ((List.range more).map (g.productions.size + ·)).filter
      (fun id => larger.name id = name) = [] := by
    refine List.filter_eq_nil_iff.2 fun id mem named => ?_
    obtain ⟨offset, below, rfl⟩ := List.mem_map.1 mem
    rw [decide_eq_true_eq] at named
    have bound := h.lt_of_reaches (g.productions.size + offset)
      (by rw [size]; exact Nat.add_lt_add_left (List.mem_range.1 below) _) (named ▸ reached)
    omega
  rw [Grammar.productionsOf, Grammar.productionsOf, size, List.range_add, List.filter_append, fresh,
    List.append_nil]
  exact List.filter_congr fun id mem => by rw [h.name_eq (List.mem_range.1 mem)]

/-- **Symbols with names that are reached derive the empty text as before.** -/
theorem derivesEmpty_iff {symbols : List (Symbol κ)}
    (reached : ∀ name, .nonterminal name ∈ symbols → g.Reaches name) :
    DerivesEmpty larger symbols ↔ DerivesEmpty g symbols := by
  constructor
  · intro empty
    induction empty with
    | nil => exact .nil
    | cons rule _ _ head tail =>
      have above := reached _ List.mem_cons_self
      rw [h.productionsOf_eq above] at rule
      rw [h.symbols_eq (mem_productionsOf.1 rule).1] at head
      exact .cons rule (head fun _ mem => .step above rule mem)
        (tail fun name mem => reached name (List.mem_cons_of_mem _ mem))
  · intro empty
    induction empty with
    | nil => exact .nil
    | cons rule _ _ head tail =>
      have above := reached _ List.mem_cons_self
      refine .cons (h.productionsOf_eq above ▸ rule) ?_
        (tail fun name mem => reached name (List.mem_cons_of_mem _ mem))
      rw [h.symbols_eq (mem_productionsOf.1 rule).1]
      exact head fun _ mem => .step above rule mem

/-- **A name that is reached is nullable if it was.** -/
theorem isNullable_eq (reached : g.Reaches name) : larger.isNullable name = g.isNullable name := by
  rw [Bool.eq_iff_iff, isNullable_iff, isNullable_iff]
  refine h.derivesEmpty_iff fun other mem => ?_
  obtain rfl := Symbol.nonterminal.inj (List.mem_singleton.1 mem)
  exact reached

end Idle

end Grammar

/-- A name that may begin somewhere is reached. -/
theorem LeftReachable.reaches {stands : Nat → κ → Prop} {pos : Nat}
    (h : LeftReachable g stands name pos) : g.Reaches name := by
  induction h with
  | entry => exact .entry
  | step _ rule split _ ih =>
    exact .step ih rule (split ▸ List.mem_append_right _ List.mem_cons_self)

end Earley
