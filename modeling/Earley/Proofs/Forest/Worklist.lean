import Earley.Proofs.Forest.Viable
import Mathlib.Algebra.BigOperators.Group.Finset.Piecewise
import Mathlib.Order.Bounds.Defs

/-!
# Proofs/Forest/Worklist — marking ends, and its order does not matter

Marking looks at one node after the other, and a node that gets its mark is followed by its users.
Every node is marked once, so that no node causes more looks than it has users
(`Arena.exists_looks`).  What is marked in the end is known by the invariant of marking alone, and
so it is the same from every order of the nodes to be looked at: the least set that has a node as
soon as it has all nodes of one of its branches.
-/

namespace Earley

namespace Arena

variable {arena : Arena} {marked : Array Bool} {users : Array (List NodeId)}
  {id child user : NodeId}

/-! ## Looks -/

/-- **Marking, look by look**: the marks so far and the nodes to be looked at lead to marks at the
end, after a number of looks.  Every node that is looked at is a node of the arena: one that is
marked already, one that cannot be marked yet, or one that gets its mark, behind which its users are
to be looked at. -/
inductive Looks (arena : Arena) : Array Bool → List NodeId → Array Bool → Nat → Prop
  | done (marked : Array Bool) : Looks arena marked [] marked 0
  | known {marked final : Array Bool} {id : NodeId} {pending : List NodeId} {looks : Nat}
      (isMarked : marked[id]? = some true) (rest : Looks arena marked pending final looks) :
      Looks arena marked (id :: pending) final (looks + 1)
  | idle {marked final : Array Bool} {id : NodeId} {pending : List NodeId} {looks : Nat}
      (unmarked : marked[id]? = some false) (idle : ¬ arena.derivable marked id = true)
      (rest : Looks arena marked pending final looks) :
      Looks arena marked (id :: pending) final (looks + 1)
  | mark {marked final : Array Bool} {id : NodeId} {pending : List NodeId} {looks : Nat}
      (unmarked : marked[id]? = some false) (derivable : arena.derivable marked id = true)
      (rest : Looks arena (marked.setIfInBounds id true)
        (((arena.users.getD id []).filter fun user => !marked.getD user false) ++ pending)
        final looks) :
      Looks arena marked (id :: pending) final (looks + 1)

/-- The unmarked nodes. -/
def unmarked (marked : Array Bool) : Finset NodeId :=
  (Finset.range marked.size).filter fun id => marked.getD id false = false

/-- The looks that the unmarked nodes can still cause: one for each of their users. -/
def owed (arena : Arena) (marked : Array Bool) : Nat :=
  ∑ id ∈ unmarked marked, (arena.users.getD id []).length

theorem mem_unmarked : id ∈ unmarked marked ↔ marked[id]? = some false := by
  by_cases bound : id < marked.size <;> simp [unmarked, Array.getD, bound]

theorem unmarked_set (bound : id < marked.size) :
    unmarked (marked.set id true) = (unmarked marked).erase id := by
  ext other
  simp only [unmarked, Finset.mem_erase, Finset.mem_filter, Finset.mem_range, Array.size_set,
    getD_set bound]
  split
  · rename_i same
    simp [same]
  · rename_i different
    simp [different]

/-- **A mark is paid for** by the users of its node. -/
theorem owed_set (unmarked : marked[id]? = some false) (bound : id < marked.size) :
    (arena.users.getD id []).length + owed arena (marked.set id true) = owed arena marked := by
  rw [owed, owed, unmarked_set bound]
  exact Finset.add_sum_erase _ (fun id => (arena.users.getD id []).length) (mem_unmarked.2 unmarked)

/-- **Marking comes to its end** after no more looks than there are nodes to be looked at and users
of unmarked nodes. -/
theorem exists_looks {pending : List NodeId} (sizes : marked.size = arena.size)
    (inside : ∀ id ∈ pending, id < arena.size)
    (users : ∀ id, ∀ user ∈ arena.users.getD id [], user < arena.size) :
    ∃ looks ≤ pending.length + owed arena marked,
      Looks arena marked pending (arena.mark arena.users marked pending) looks := by
  fun_induction Arena.mark arena arena.users marked pending with
  | case1 marked => exact ⟨0, Nat.zero_le _, .done marked⟩
  | case2 marked id pending bound unmarked derivable _ again ih =>
    have place : marked[id]? = some false := by rw [Array.getElem?_eq_getElem bound, unmarked]
    have fewer : again.length ≤ (arena.users.getD id []).length := List.length_filter_le _ _
    have paid : (arena.users.getD id []).length + owed arena (marked.set id true)
        = owed arena marked := owed_set place bound
    obtain ⟨looks, le, rest⟩ := ih (by rw [Array.size_set, sizes]) (fun other mem => by
      rcases List.mem_append.1 mem with mem | mem
      · exact users id other (List.mem_of_mem_filter mem)
      · exact inside other (List.mem_cons_of_mem id mem))
    refine ⟨looks + 1, ?_, .mark place derivable ?_⟩
    · rw [List.length_append] at le
      rw [List.length_cons]
      omega
    · rwa [Array.setIfInBounds_def, dif_pos bound]
  | case3 marked id pending bound unmarked idle ih =>
    obtain ⟨looks, le, rest⟩ := ih sizes fun other mem => inside other (List.mem_cons_of_mem id mem)
    refine ⟨looks + 1, ?_, .idle ?_ idle rest⟩
    · rw [List.length_cons]
      omega
    · rw [Array.getElem?_eq_getElem bound, unmarked]
  | case4 marked id pending bound isMarked ih =>
    obtain ⟨looks, le, rest⟩ := ih sizes fun other mem => inside other (List.mem_cons_of_mem id mem)
    refine ⟨looks + 1, ?_, .known ?_ rest⟩
    · rw [List.length_cons]
      omega
    · rw [Array.getElem?_eq_getElem bound, Bool.eq_true_of_not_eq_false isMarked]
  | case5 marked id pending beyond ih =>
    exact absurd (sizes ▸ inside id List.mem_cons_self) beyond

/-! ## Counting users -/

/-- Whoever uses a node is a node. -/
theorem lt_of_mem_users (mem : user ∈ arena.users.getD child []) : user < arena.size := by
  obtain ⟨⟨branch, memBranch, -⟩, -⟩ := mem_users_iff.1 mem
  exact lt_size_of_mem memBranch

/-- **Every use makes one user.** -/
theorem sum_length_foldl_modify {uses : List (NodeId × NodeId)}
    (inside : ∀ use ∈ uses, use.1 < users.size) :
    ∑ id ∈ Finset.range users.size,
        ((uses.foldl (fun users (child, user) => users.modify child (user :: ·)) users).getD id
          []).length
      = ∑ id ∈ Finset.range users.size, (users.getD id []).length + uses.length := by
  induction uses generalizing users with
  | nil => rfl
  | cons use uses ih =>
    obtain ⟨bound, inside⟩ := List.forall_mem_cons.1 inside
    have one : ∑ id ∈ Finset.range users.size,
        ((users.modify use.1 (use.2 :: ·)).getD id []).length
          = ∑ id ∈ Finset.range users.size, (users.getD id []).length + 1 := by
      have step : ∀ id ∈ Finset.range users.size,
          ((users.modify use.1 (use.2 :: ·)).getD id []).length
            = (users.getD id []).length + if id = use.1 then 1 else 0 := by
        intro id mem
        rw [getD_modify]
        split <;> simp_all
      rw [Finset.sum_congr rfl step, Finset.sum_add_distrib, Finset.sum_ite_eq',
        if_pos (Finset.mem_range.2 bound)]
    have rest := @ih (users.modify use.1 (use.2 :: ·)) (by simpa using inside)
    rw [Array.size_modify, one] at rest
    rw [List.foldl_cons, rest, List.length_cons]
    omega

/-- At the beginning every use is still to cause a look. -/
theorem owed_replicate (inside : ∀ id, ∀ branch ∈ arena.getD id [], ∀ child ∈ branch.nodes,
    child < arena.size) : owed arena (Array.replicate arena.size false) = arena.uses.length := by
  have all : unmarked (Array.replicate arena.size false) = Finset.range arena.size := by
    ext id
    simp [mem_unmarked, Array.getElem?_replicate]
  have bounds : ∀ use ∈ arena.uses,
      use.1 < (Array.replicate arena.size ([] : List NodeId)).size := by
    intro use mem
    obtain ⟨branch, memBranch, used⟩ := mem_uses_iff.1 mem
    rw [Array.size_replicate]
    exact inside use.2 branch memBranch use.1 used
  have sum := sum_length_foldl_modify bounds
  rw [Array.size_replicate] at sum
  rw [owed, all, users, sum]
  simp [Array.getD]

/-! ## The least fixpoint -/

/-- **The viable nodes are the least set** that has every node with a branch of which it has all
nodes. -/
theorem isLeast_viable : IsLeast {nodes : Set NodeId | ∀ id,
    (∃ branch ∈ arena.getD id [], ∀ child ∈ branch.nodes, child ∈ nodes) → id ∈ nodes}
      {id | arena.Viable id} := by
  refine ⟨fun id ⟨branch, mem, below⟩ => .intro mem below, fun nodes closed id viable => ?_⟩
  induction viable with
  | intro mem _ ih => exact closed _ ⟨_, mem, ih⟩

/-- **Viability is the least fixpoint**, however the worklist is ordered.  In an arena with the
children of all nodes inside, marking comes to its end from every order of the nodes to be looked
at, after no more looks than there are nodes and children in all branches.  The marks at the end are
the same for all orders, and the marked nodes are the least set that has a node as soon as it has
all nodes of one of its branches. -/
theorem marking_exact {order : List NodeId} (inside : ∀ id, ∀ branch ∈ arena.getD id [],
      ∀ child ∈ branch.nodes, child < arena.size)
    (perm : order.Perm (List.range arena.size)) :
    (∃ looks ≤ arena.size + arena.uses.length,
        arena.Looks (Array.replicate arena.size false) order arena.viable looks)
      ∧ arena.mark arena.users (Array.replicate arena.size false) order = arena.viable
      ∧ arena.viable.size = arena.size
      ∧ (∀ id, arena.viable[id]? = some true ↔ arena.Viable id)
      ∧ IsLeast {nodes : Set NodeId | ∀ id,
          (∃ branch ∈ arena.getD id [], ∀ child ∈ branch.nodes, child ∈ nodes) → id ∈ nodes}
            {id | arena.viable[id]? = some true} := by
  have listed : ∀ id, id ∈ order ↔ id < arena.size := fun id => perm.mem_iff.trans List.mem_range
  have same : arena.mark arena.users (Array.replicate arena.size false) order = arena.viable :=
    (marking_start fun id => (listed id).2).mark.eq_viable
  have marks : ∀ id, arena.viable[id]? = some true ↔ arena.Viable id := by
    intro id
    rw [← getD_viable_iff]
    by_cases bound : id < arena.viable.size <;> simp [Array.getD, bound]
  refine ⟨?_, same, size_viable, marks, ?_⟩
  · have users : ∀ id, ∀ user ∈ arena.users.getD id [], user < arena.size :=
      fun _ _ => lt_of_mem_users
    obtain ⟨looks, le, run⟩ :=
      exists_looks Array.size_replicate (fun id => (listed id).1) users
    rw [owed_replicate inside, perm.length_eq, List.length_range] at le
    exact ⟨looks, le, same ▸ run⟩
  · simp only [marks]
    exact isLeast_viable

/-- Two nodes that use each other, one of them twice; a node that uses itself only; a node without
branches; a node with an empty branch. -/
def tangled : Arena :=
  #[[[.node 1, .token 0, .node 1]], [[.node 0], [.token 0]], [[.node 2, .node 4]], [], [[]]]

/-- **A cycle does no harm where there is a way out of it.** -/
theorem marking_exact_tangled :
    tangled.mark tangled.users (Array.replicate 5 false) [3, 0, 2, 4, 1] = tangled.viable
      ∧ (∃ looks ≤ 10,
          tangled.Looks (Array.replicate 5 false) [3, 0, 2, 4, 1] tangled.viable looks)
      ∧ tangled.viable[0]? = some true ∧ ¬ tangled.viable[2]? = some true := by
  have inside : ∀ id, ∀ branch ∈ tangled.getD id [], ∀ child ∈ branch.nodes,
      child < tangled.size := by
    have nodes : ∀ id < 5, ∀ branch ∈ tangled.getD id [], ∀ child ∈ branch.nodes, child < 5 := by
      decide
    exact fun id branch mem => nodes id (lt_size_of_mem mem) branch mem
  have perm : [3, 0, 2, 4, 1].Perm (List.range tangled.size) := by decide
  obtain ⟨looks, same, -, marks, -, least⟩ := marking_exact inside perm
  refine ⟨same, looks, (marks 0).2 ?_, fun marked => ?_⟩
  · have one : tangled.Viable 1 :=
      .intro (show [.token 0] ∈ tangled.getD 1 [] by decide) (List.forall_mem_nil _)
    exact .intro (show [.node 1, .token 0, .node 1] ∈ tangled.getD 0 [] by decide)
      (by simpa [Branch.nodes, Child.node?] using one)
  · have others : ∀ id, (∃ branch ∈ tangled.getD id [], ∀ child ∈ branch.nodes, child ≠ 2) →
        id ≠ 2 := by
      rintro _ ⟨branch, mem, below⟩ rfl
      obtain rfl : branch = [.node 2, .node 4] := by simpa [tangled, Array.getD] using mem
      exact below 2 (by decide) rfl
    exact least others marked rfl

end Arena

end Earley
