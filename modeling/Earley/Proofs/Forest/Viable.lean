import Earley.Forest.Viable
import Mathlib.Data.List.Basic

/-!
# Proofs/Forest/Viable — marking finds the least set of viable nodes

`Arena.Viable` is the least property that a node has as soon as all nodes of one of its branches
have it.  Marking is right because of one invariant: a node that could be marked and is not, is
still to be looked at (`Marking.pending`).  When nothing is left to look at, the marks are closed,
and what is closed holds the least set.
-/

namespace Earley

namespace Arena

variable {arena : Arena} {marked : Array Bool} {users : Array (List NodeId)}
  {id child user : NodeId} {branch : Branch}

/-- **A node with a finite derivation.** -/
inductive Viable (arena : Arena) : NodeId → Prop
  | intro {id : NodeId} {branch : Branch} (mem : branch ∈ arena.getD id [])
      (below : ∀ child ∈ branch.nodes, Viable arena child) : Viable arena id

theorem lt_size_of_mem (h : branch ∈ arena.getD id []) : id < arena.size := by
  by_contra beyond
  simp [Array.getD, beyond] at h

theorem derivable_iff : arena.derivable marked id = true ↔
    ∃ branch ∈ arena.getD id [], ∀ child ∈ branch.nodes, marked.getD child false = true := by
  simp only [derivable, List.any_eq_true, List.all_eq_true]

theorem getD_set (bound : id < marked.size) (other : NodeId) :
    (marked.set id true).getD other false
      = if other = id then true else marked.getD other false := by
  by_cases same : other = id
  · simp [same, Array.getD, bound]
  · by_cases inside : other < marked.size
    · simp [same, Array.getD, inside, Ne.symm same]
    · simp [same, Array.getD, inside]

/-! ## Who uses a node -/

theorem mem_uses_iff : (child, user) ∈ arena.uses
    ↔ ∃ branch ∈ arena.getD user [], child ∈ branch.nodes := by
  simp only [uses, List.mem_flatMap, Prod.exists, List.mem_zipIdx_iff_getElem?,
    Array.getElem?_toList, List.mem_map, Prod.mk.injEq]
  constructor
  · rintro ⟨branches, user, atUser, branch, mem, child, memChild, rfl, rfl⟩
    refine ⟨branch, ?_, memChild⟩
    simpa [Array.getD_eq_getD_getElem?, atUser] using mem
  · rintro ⟨branch, mem, memChild⟩
    have bound := lt_size_of_mem mem
    refine ⟨arena[user], user, Array.getElem?_eq_getElem bound, branch, ?_, child, memChild, rfl,
      rfl⟩
    simpa [Array.getD, bound] using mem

theorem getD_modify (id : NodeId) : (users.modify child (user :: ·)).getD id []
    = if id = child ∧ id < users.size then user :: users.getD id [] else users.getD id [] := by
  by_cases inside : id < users.size
  · simp only [Array.getD, Array.size_modify, inside, dite_true, Array.getInternal_eq_getElem,
      Array.getElem_modify, and_true, eq_comm]
  · simp [Array.getD, inside]

/-- Uses are sorted by the nodes that are used. -/
theorem mem_foldl_modify_iff {uses : List (NodeId × NodeId)} :
    user ∈ (uses.foldl (fun users (child, user) => users.modify child (user :: ·)) users).getD
        child []
      ↔ (child, user) ∈ uses ∧ child < users.size ∨ user ∈ users.getD child [] := by
  induction uses generalizing users with
  | nil => simp
  | cons use uses ih =>
    obtain ⟨used, by'⟩ := use
    rw [List.foldl_cons, ih, getD_modify, Array.size_modify, List.mem_cons, Prod.mk.injEq]
    split
    · rename_i here
      obtain ⟨rfl, bound⟩ := here
      simp only [bound, true_and, and_true, List.mem_cons]
      rw [or_left_comm, or_assoc]
    · rename_i elsewhere
      constructor
      · rintro (⟨mem, bound⟩ | mem)
        · exact .inl ⟨.inr mem, bound⟩
        · exact .inr mem
      · rintro (⟨⟨rfl, -⟩ | mem, bound⟩ | mem)
        · exact absurd ⟨rfl, bound⟩ elsewhere
        · exact .inl ⟨mem, bound⟩
        · exact .inr mem

/-- **Every node knows its users**, and no others. -/
theorem mem_users_iff : user ∈ arena.users.getD child []
    ↔ (∃ branch ∈ arena.getD user [], child ∈ branch.nodes) ∧ child < arena.size := by
  rw [users, mem_foldl_modify_iff, mem_uses_iff, Array.size_replicate]
  simp [Array.getD]

/-! ## Marking -/

/-- **The invariant of marking**: marks are right, and a node that could be marked and is not is
still to be looked at. -/
structure Marking (arena : Arena) (marked : Array Bool) (pending : List NodeId) : Prop where
  size_eq : marked.size = arena.size
  sound : ∀ id, marked.getD id false = true → arena.Viable id
  pending : ∀ id, marked.getD id false = false → arena.derivable marked id = true → id ∈ pending

theorem Viable.of_derivable (sound : ∀ id, marked.getD id false = true → arena.Viable id)
    (h : arena.derivable marked id = true) : arena.Viable id := by
  obtain ⟨branch, mem, below⟩ := derivable_iff.1 h
  exact .intro mem fun child memChild => sound child (below child memChild)

/-- A new mark makes only users of the marked node derivable. -/
theorem derivable_set (bound : id < marked.size)
    (h : arena.derivable (marked.set id true) user = true)
    (before : ¬ arena.derivable marked user = true) :
    ∃ branch ∈ arena.getD user [], id ∈ branch.nodes := by
  obtain ⟨branch, mem, below⟩ := derivable_iff.1 h
  refine ⟨branch, mem, ?_⟩
  by_contra unused
  refine before (derivable_iff.2 ⟨branch, mem, fun child memChild => ?_⟩)
  have different : child ≠ id := fun same => unused (same ▸ memChild)
  have here := below child memChild
  rwa [getD_set bound, if_neg different] at here

/-- **A mark keeps the invariant**, with the users of the marked node to be looked at again. -/
theorem Marking.set {pending : List NodeId} (h : Marking arena marked (id :: pending))
    (bound : id < marked.size) (derivable : arena.derivable marked id = true) :
    Marking arena (marked.set id true)
      (((arena.users.getD id []).filter fun user => !marked.getD user false) ++ pending) where
  size_eq := by rw [Array.size_set, h.size_eq]
  sound := by
    intro other isMarked
    rw [getD_set bound] at isMarked
    split at isMarked
    · rename_i same
      exact same ▸ .of_derivable h.sound derivable
    · exact h.sound other isMarked
  pending := by
    intro other unmarked now
    rw [getD_set bound] at unmarked
    split at unmarked
    · exact absurd unmarked (by decide)
    · rename_i different
      by_cases before : arena.derivable marked other = true
      · have waiting := h.pending other unmarked before
        exact List.mem_append_right _ ((List.mem_cons.1 waiting).resolve_left different)
      · obtain ⟨branch, mem, used⟩ := derivable_set bound now before
        have user : other ∈ arena.users.getD id [] :=
          mem_users_iff.2 ⟨⟨branch, mem, used⟩, h.size_eq ▸ bound⟩
        exact List.mem_append_left _ (List.mem_filter.2 ⟨user, by simp [unmarked]⟩)

/-- A node that needs no mark is looked at in vain. -/
theorem Marking.skip {pending : List NodeId} (h : Marking arena marked (id :: pending))
    (done : marked.getD id false = false → ¬ arena.derivable marked id = true) :
    Marking arena marked pending where
  size_eq := h.size_eq
  sound := h.sound
  pending := fun other unmarked derivable =>
    (List.mem_cons.1 (h.pending other unmarked derivable)).resolve_left fun same =>
      done (same ▸ unmarked) (same ▸ derivable)

/-- **Marking ends with nothing to look at.** -/
theorem Marking.mark {pending : List NodeId} (h : Marking arena marked pending) :
    Marking arena (arena.mark arena.users marked pending) [] := by
  fun_induction Arena.mark arena arena.users marked pending with
  | case1 => exact h
  | case2 marked id pending bound unmarked derivable _ _ ih => exact ih (h.set bound derivable)
  | case3 marked id pending bound unmarked idle ih => exact ih (h.skip fun _ => idle)
  | case4 marked id pending bound isMarked ih =>
    refine ih (h.skip fun unmarked => absurd ?_ isMarked)
    simpa [Array.getD, bound] using unmarked
  | case5 marked id pending beyond ih =>
    refine ih (h.skip fun _ derivable => beyond ?_)
    obtain ⟨branch, mem, -⟩ := derivable_iff.1 derivable
    exact h.size_eq ▸ lt_size_of_mem mem

/-- Marking may begin with all nodes to be looked at, in any order. -/
theorem marking_start {order : List NodeId} (all : ∀ id < arena.size, id ∈ order) :
    Marking arena (Array.replicate arena.size false) order where
  size_eq := Array.size_replicate
  sound := by
    intro id isMarked
    simp [Array.getD] at isMarked
  pending := by
    intro id _ derivable
    obtain ⟨branch, mem, -⟩ := derivable_iff.1 derivable
    exact all id (lt_size_of_mem mem)

/-- **With nothing to look at the marked nodes are the viable ones.** -/
theorem Marking.getD_iff (h : Marking arena marked []) :
    marked.getD id false = true ↔ arena.Viable id := by
  refine ⟨h.sound id, fun viable => ?_⟩
  induction viable with
  | @intro id branch mem _ ih =>
    by_contra unmarked
    exact absurd (h.pending id (by simpa using unmarked) (derivable_iff.2 ⟨branch, mem, ih⟩))
      List.not_mem_nil

theorem marking_viable : Marking arena arena.viable [] :=
  (marking_start fun id bound => by simpa using bound).mark

theorem size_viable : arena.viable.size = arena.size := marking_viable.size_eq

/-- **A node is marked exactly if it has a finite derivation.** -/
theorem getD_viable_iff : arena.viable.getD id false = true ↔ arena.Viable id :=
  marking_viable.getD_iff

/-- The marks at the end are known by the nodes that they mark. -/
theorem Marking.eq_viable (h : Marking arena marked []) : marked = arena.viable := by
  refine Array.ext (h.size_eq.trans size_viable.symm) fun id bound bound' => ?_
  have same : marked.getD id false = arena.viable.getD id false :=
    Bool.eq_iff_iff.2 (h.getD_iff.trans getD_viable_iff.symm)
  simpa [Array.getD, bound, bound'] using same

end Arena

end Earley
