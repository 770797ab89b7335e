import Earley.Proofs.Grammar.Derivation
import Mathlib.Data.List.Sort

/-!
# Proofs/Grammar/Nullable — the rounds find exactly the productions that derive the empty text

`DerivesEmpty` says that a list of symbols derives the empty text, by a finite derivation.  Every
round moves productions from the pending ones to those found, and what it finds derives the empty
text (`EmptySearch.Sound.round`).  The last round finds nothing, so that no pending production is
left to find (`not_given_of_mem_pending`); being closed in this way is all that a derivation needs.
-/

namespace Earley

universe u

variable {κ : Type u}

/-- **The symbols derive the empty text.** -/
inductive DerivesEmpty (g : Grammar κ) : List (Symbol κ) → Prop
  | nil : DerivesEmpty g []
  | cons {name : String} {id : ProdId} {rest : List (Symbol κ)} (rule : id ∈ g.productionsOf name)
      (head : DerivesEmpty g (g.symbols id)) (tail : DerivesEmpty g rest) :
      DerivesEmpty g (.nonterminal name :: rest)

/-- A nonterminal for whose name a production was found. -/
def Symbol.HasFound (g : Grammar κ) (found : List ProdId) (symbol : Symbol κ) : Prop :=
  ∃ name, symbol = .nonterminal name ∧ ∃ id ∈ found, id ∈ g.productionsOf name

theorem Symbol.HasFound.mono {g : Grammar κ} {found more : List ProdId} {symbol : Symbol κ}
    (sub : found ⊆ more) (h : symbol.HasFound g found) : symbol.HasFound g more := by
  obtain ⟨name, rfl, id, mem, rule⟩ := h
  exact ⟨name, rfl, id, sub mem, rule⟩

/-- **A production is found by those found before it**: it has only symbols with one of them. -/
theorem any_emptyGiven_iff {g : Grammar κ} {found : List ProdId} {id : ProdId} :
    g.productions[id]?.any (emptyGiven g.productions found) = true
      ↔ id < g.productions.size ∧ ∀ symbol ∈ g.symbols id, symbol.HasFound g found := by
  have named : ∀ name, (found.any fun id => g.productions[id]?.any fun q => q.name = name) = true
      ↔ ∃ id ∈ found, id ∈ g.productionsOf name := by
    intro name
    simp only [List.any_eq_true, Grammar.mem_productionsOf, Grammar.name]
    refine exists_congr fun other => and_congr_right fun _ => ?_
    by_cases bound : other < g.productions.size
    · simp [bound]
    · simp [bound]
  by_cases bound : id < g.productions.size
  · simp only [bound, true_and, Array.getElem?_eq_getElem bound, Option.any_some, emptyGiven,
      List.all_eq_true, Grammar.symbols, Option.map_some, Option.getD_some]
    refine forall₂_congr fun symbol _ => ?_
    cases symbol with
    | terminal kind => simp [Symbol.HasFound]
    | nonterminal name => simp [Symbol.HasFound, named]
  · simp [bound]

theorem DerivesEmpty.of_forall {g : Grammar κ} {symbols : List (Symbol κ)} {found : List ProdId}
    (sound : ∀ id ∈ found, DerivesEmpty g (g.symbols id))
    (h : ∀ symbol ∈ symbols, symbol.HasFound g found) : DerivesEmpty g symbols := by
  induction symbols with
  | nil => exact .nil
  | cons symbol rest ih =>
    obtain ⟨name, rfl, id, mem, rule⟩ := h symbol List.mem_cons_self
    exact .cons rule (sound id mem) (ih fun s hs => h s (List.mem_cons_of_mem _ hs))

/-! ## One round -/

section Round

variable {productions : Array (Production κ)} {found pending : List ProdId} {id : ProdId}

/-- A round loses no production and takes none twice. -/
theorem perm_emptyRound : ((emptyRound productions found pending).found
    ++ (emptyRound productions found pending).pending).Perm (found ++ pending) := by
  fun_induction emptyRound productions found pending with
  | case1 => exact .refl _
  | case2 found id pending _ ih => exact ih.trans List.perm_middle.symm
  | case3 found id pending _ search ih =>
    exact List.perm_middle.trans ((ih.cons id).trans List.perm_middle.symm)

theorem length_pending_emptyRound_le :
    (emptyRound productions found pending).pending.length ≤ pending.length := by
  fun_induction emptyRound productions found pending with
  | case1 => exact Nat.le_refl _
  | case2 found id pending _ ih => exact Nat.le_succ_of_le ih
  | case3 found id pending _ search ih => exact Nat.succ_le_succ ih

/-- **A round that finds nothing has nothing to find.** -/
theorem not_given_of_idle
    (idle : pending.length ≤ (emptyRound productions found pending).pending.length)
    (mem : id ∈ pending) : ¬ productions[id]?.any (emptyGiven productions found) = true := by
  fun_induction emptyRound productions found pending with
  | case1 => exact absurd mem List.not_mem_nil
  | case2 found first pending _ _ =>
    exact absurd idle (Nat.not_le.2 (Nat.lt_succ_of_le length_pending_emptyRound_le))
  | case3 found first pending other search ih =>
    rcases List.mem_cons.1 mem with rfl | mem
    · exact other
    · exact ih (Nat.le_of_succ_le_succ idle) mem

/-- What a round finds derives the empty text. -/
theorem derivesEmpty_emptyRound {g : Grammar κ}
    (sound : ∀ id ∈ found, DerivesEmpty g (g.symbols id)) :
    ∀ id ∈ (emptyRound g.productions found pending).found, DerivesEmpty g (g.symbols id) := by
  fun_induction emptyRound g.productions found pending with
  | case1 => exact sound
  | case2 found first pending given ih =>
    refine ih fun id mem => ?_
    rcases List.mem_cons.1 mem with rfl | mem
    · exact .of_forall sound (any_emptyGiven_iff.1 given).2
    · exact sound id mem
  | case3 found first pending _ search ih => exact ih sound

end Round

/-! ## All rounds -/

/-- **The state of a search**: every production is found or pending, and those found derive the
empty text. -/
structure EmptySearch.Sound (g : Grammar κ) (search : EmptySearch) : Prop where
  perm : (search.found ++ search.pending).Perm (List.range g.productions.size)
  derives : ∀ id ∈ search.found, DerivesEmpty g (g.symbols id)

section Rounds

variable {g : Grammar κ} {search : EmptySearch} {id : ProdId}

theorem EmptySearch.Sound.round (h : search.Sound g) :
    (emptyRound g.productions search.found search.pending).Sound g where
  perm := perm_emptyRound.trans h.perm
  derives := derivesEmpty_emptyRound h.derives

theorem EmptySearch.Sound.rounds (h : search.Sound g) :
    (emptyRounds g.productions search).1.Sound g := by
  fun_induction emptyRounds g.productions search with
  | case1 search _ _ _ ih => exact ih h.round
  | case2 => exact h

/-- **When the rounds end, nothing is left to find.** -/
theorem not_given_of_mem_pending (mem : id ∈ (emptyRounds g.productions search).1.pending) :
    ¬ g.productions[id]?.any
      (emptyGiven g.productions (emptyRounds g.productions search).1.found) = true := by
  fun_induction emptyRounds g.productions search with
  | case1 search _ _ _ ih => exact ih mem
  | case2 search _ idle => exact not_given_of_idle (Nat.not_lt.1 idle) mem

/-- **Every round but the last finds a production.** -/
theorem rounds_le : (emptyRounds g.productions search).2 ≤ search.pending.length + 1 := by
  fun_induction emptyRounds g.productions search with
  | case1 search next found rest ih => exact Nat.succ_le_succ (Nat.le_trans ih found)
  | case2 search _ _ => exact Nat.succ_le_succ (Nat.zero_le _)

end Rounds

variable {g : Grammar κ}

theorem sound_emptySearch : (emptySearch g.productions).1.Sound g :=
  EmptySearch.Sound.rounds ⟨.refl _, fun _ mem => absurd mem List.not_mem_nil⟩

theorem lt_of_mem_found {id : ProdId} (mem : id ∈ (emptySearch g.productions).1.found) :
    id < g.productions.size :=
  List.mem_range.1 (sound_emptySearch.perm.mem_iff.1 (List.mem_append_left _ mem))

/-- What is found is closed: a production is found as soon as its symbols are. -/
theorem mem_found_of_hasFound {id : ProdId} (bound : id < g.productions.size)
    (h : ∀ symbol ∈ g.symbols id, symbol.HasFound g (emptySearch g.productions).1.found) :
    id ∈ (emptySearch g.productions).1.found := by
  have either := sound_emptySearch.perm.mem_iff.2 (List.mem_range.2 bound)
  refine (List.mem_append.1 either).resolve_right fun pending => ?_
  exact not_given_of_mem_pending pending (any_emptyGiven_iff.2 ⟨bound, h⟩)

namespace DerivesEmpty

variable {symbols : List (Symbol κ)}

/-- What derives the empty text is found, for its productions are. -/
theorem hasFound (h : DerivesEmpty g symbols) :
    ∀ symbol ∈ symbols, symbol.HasFound g (emptySearch g.productions).1.found := by
  induction h with
  | nil => exact fun symbol mem => absurd mem List.not_mem_nil
  | cons rule _ _ head tail =>
    intro symbol mem
    rcases List.mem_cons.1 mem with rfl | mem
    · exact ⟨_, rfl, _, mem_found_of_hasFound (Grammar.mem_productionsOf.1 rule).1 head, rule⟩
    · exact tail symbol mem

theorem exists_rule {name : String} (h : DerivesEmpty g [.nonterminal name]) :
    ∃ id ∈ g.productionsOf name, DerivesEmpty g (g.symbols id) := by
  cases h with
  | cons rule head _ => exact ⟨_, rule, head⟩

end DerivesEmpty

/-! ## Exactness -/

namespace Grammar

/-- **The productions kept as nullable are those that derive the empty text.** -/
theorem mem_nullable {id : ProdId} :
    id ∈ g.nullable ↔ id < g.productions.size ∧ DerivesEmpty g (g.symbols id) := by
  rw [g.nullable_eq, emptyProductions, List.mem_mergeSort]
  constructor
  · exact fun mem => ⟨lt_of_mem_found mem, sound_emptySearch.derives id mem⟩
  · exact fun ⟨bound, empty⟩ => mem_found_of_hasFound bound empty.hasFound

/-- They are sorted, and none was found twice. -/
theorem pairwise_nullable : g.nullable.Pairwise (· < ·) := by
  have nodup : (emptySearch g.productions).1.found.Nodup :=
    (sound_emptySearch.perm.nodup_iff.2 List.nodup_range).of_append_left
  rw [g.nullable_eq, emptyProductions]
  refine (List.sortedLE_mergeSort.sortedLT_of_nodup ?_).pairwise
  exact (List.mergeSort_perm _ _).nodup_iff.2 nodup

/-- **A name is nullable exactly if it derives the empty text.** -/
theorem isNullable_iff {name : String} :
    g.isNullable name = true ↔ DerivesEmpty g [.nonterminal name] := by
  simp only [isNullable, List.any_eq_true, decide_eq_true_eq]
  constructor
  · rintro ⟨id, mem, named⟩
    obtain ⟨bound, empty⟩ := mem_nullable.1 mem
    exact .cons (mem_productionsOf.2 ⟨bound, named⟩) empty .nil
  · intro h
    obtain ⟨id, rule, empty⟩ := h.exists_rule
    obtain ⟨bound, named⟩ := mem_productionsOf.1 rule
    exact ⟨id, mem_nullable.2 ⟨bound, empty⟩, named⟩

theorem mem_nullableOf {name : String} {id : ProdId} :
    id ∈ g.nullableOf name ↔ id ∈ g.productionsOf name ∧ DerivesEmpty g (g.symbols id) := by
  rw [nullableOf, List.mem_filter, mem_nullable, mem_productionsOf, decide_eq_true_eq]
  exact and_right_comm

theorem isNullable_eq {name : String} : g.isNullable name = !(g.nullableOf name).isEmpty := by
  rw [Bool.eq_iff_iff]
  simp [isNullable, nullableOf]

end Grammar

/-- **Exact nullability.**  The search for the productions that derive the empty text ends within
one round more than there are productions.  Of every name the grammar keeps those of its productions
whose symbols derive the empty text, in strictly ascending order, and it calls the name nullable
exactly if the name derives the empty text. -/
theorem nullability_exact (g : Grammar κ) :
    (emptySearch g.productions).2 ≤ g.productions.size + 1
      ∧ ∀ name,
        (∀ id, id ∈ g.nullableOf name
          ↔ id ∈ g.productionsOf name ∧ DerivesEmpty g (g.symbols id))
        ∧ (g.nullableOf name).Pairwise (· < ·)
        ∧ (g.isNullable name = true ↔ DerivesEmpty g [.nonterminal name]) := by
  refine ⟨?_, fun name => ⟨fun id => Grammar.mem_nullableOf, ?_, Grammar.isNullable_iff⟩⟩
  · have bound : (emptySearch g.productions).2 ≤ (List.range g.productions.size).length + 1 :=
      rounds_le
    rwa [List.length_range] at bound
  · exact Grammar.pairwise_nullable.filter _

/-- The bound is reached where the productions are in the wrong order. -/
example : (emptySearch #[(⟨"A", [.nonterminal "B"]⟩ : Production String), ⟨"B", []⟩]).2 = 3 := by
  decide +kernel

/-! ## Empty stretches -/

section Stretch

variable {g : Grammar κ} {stands : Nat → κ → Prop} {symbols : List (Symbol κ)}

theorem DerivesEmpty.derives (h : DerivesEmpty g symbols) (pos : Nat) :
    Derives g stands symbols pos pos := by
  induction h with
  | nil => exact .nil pos
  | cons rule _ _ head tail => exact .nonterminal rule head tail

theorem Derives.derivesEmpty {pos stop : Nat} (h : Derives g stands symbols pos stop)
    (empty : stop ≤ pos) : DerivesEmpty g symbols := by
  induction h with
  | nil => exact .nil
  | terminal _ tail _ =>
    have := tail.le
    omega
  | nonterminal rule head tail ihHead ihTail =>
    have := head.le
    have := tail.le
    exact .cons rule (ihHead (by omega)) (ihTail (by omega))

/-- **Over no tokens, to derive is to derive the empty text.** -/
theorem derives_self_iff {pos : Nat} :
    Derives g stands symbols pos pos ↔ DerivesEmpty g symbols :=
  ⟨fun h => h.derivesEmpty (Nat.le_refl pos), fun h => h.derives pos⟩

end Stretch

end Earley
