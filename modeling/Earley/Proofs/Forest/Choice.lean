import Earley.Proofs.Forest.Numbering
import Earley.Proofs.Forest.Picks
import Mathlib.Data.Set.Card

/-!
# Proofs/Forest/Choice — what a choice asks and what it records

A choice does the tasks of a stack, so that a node may be marked while those below it are resolved.
Entering the nodes of a list does one of two things (`chooseFrom_enter`): it visits them depth
first, asks the chooser once at each node that was not met before, records its answers, and leaves
no mark behind; or it comes to a node below them at which no branch is picked, and the choice fails.
-/

namespace Earley

universe u

variable {κ : Type u}

namespace Resolution

variable {r marked : Resolution} {id : NodeId}

/-- A recorded branch is the only record of its node. -/
theorem branch?_eq_some_iff {index : Nat} :
    r.branch? id = some index ↔ (id, some index) ∈ r.picks := by
  rw [branch?, Option.join_eq_some_iff]
  exact lookup_eq_some_iff_mem r.nodup

/-- The branch of a node is recorded in the place of its mark. -/
theorem picks_settle {before below : List (NodeId × Option Nat)}
    (picks : marked.picks = before ++ (id, none) :: below) (index : Nat) :
    (marked.settle id index).picks = before ++ (id, some index) :: below := by
  have others : ∀ pick ∈ before ++ below, pick.1 ≠ id := by
    have nodup := marked.nodup
    rw [picks, List.map_append, List.map_cons, List.nodup_middle, ← List.map_append] at nodup
    intro pick mem same
    exact (List.nodup_cons.1 nodup).1 (List.mem_map.2 ⟨pick, mem, same⟩)
  have kept : ∀ picks ⊆ before ++ below,
      picks.map (fun pick => if pick.1 = id then (id, some index) else pick) = picks := by
    intro picks subset
    rw [List.map_congr_left fun pick mem => if_neg (others pick (subset mem)), List.map_id']
  change marked.picks.map (fun pick => if pick.1 = id then (id, some index) else pick) = _
  rw [picks, List.map_append, List.map_cons, kept _ (List.subset_append_left _ _),
    kept _ (List.subset_append_right _ _), if_pos rfl]

end Resolution

namespace Forest

variable {f : Forest κ} {chooser : Chooser κ} {r : Resolution} {id : NodeId} {branch : Branch}
  {stack : List Task}

/-! ## One task -/

theorem chooseFrom_again (met : id ∈ r.nodes) :
    f.chooseFrom chooser r (.enter id :: stack) = f.chooseFrom chooser r stack := by
  rw [chooseFrom, dif_pos met]

/-- At a node that is met first the chooser is asked, and its branch is entered. -/
theorem chooseFrom_first (stack : List Task) (fresh : id ∉ r.nodes)
    (pick : f.picked? (f.answers chooser) id = some branch) :
    ∃ index, f.answers chooser id = some index
      ∧ f.chooseFrom chooser r (.enter id :: stack)
        = (f.chooseFrom chooser (r.mark id fresh)
            (branch.nodes.map .enter ++ .leave id index :: stack)).after id (some index) := by
  obtain ⟨node, index, place, answer, atIndex⟩ := picked?_eq_some_iff.1 pick
  obtain ⟨bound, rfl⟩ := Array.getElem?_eq_some_iff.1 place
  refine ⟨index, answer, ?_⟩
  have called : chooser f f.nodes[id] = some index := by simpa [answers, place] using answer
  rw [chooseFrom, dif_neg fresh, dif_pos bound]
  simp only [called, Option.bind_some, atIndex, Option.map_some]

/-- Where no branch is picked, the choice fails. -/
theorem chooseFrom_refused (fresh : id ∉ r.nodes)
    (refused : f.picked? (f.answers chooser) id = none) :
    (f.chooseFrom chooser r (.enter id :: stack)).resolution? = none := by
  rw [chooseFrom, dif_neg fresh]
  by_cases bound : id < f.nodes.size
  · have none : ((chooser f f.nodes[id]).bind fun index =>
        f.nodes[id].branches[index]?.map fun branch => (index, branch)) = none := by
      simpa [picked?, answers, bound] using refused
    rw [dif_pos bound]
    simp only [none]
    rfl
  · rw [dif_neg bound]
    rfl

/-! ## Entering nodes -/

/-- Calls of the chooser at nodes. -/
def callsAt (f : Forest κ) (chooser : Chooser κ) (order : List NodeId) :
    List (NodeId × Option Nat) :=
  order.map fun id => (id, f.answers chooser id)

/-- **The nodes of a list were entered**: those in `order` were visited first, and the branch of
each is recorded. -/
structure Entered (f : Forest κ) (chooser : Chooser κ) (r : Resolution) (ids order : List NodeId)
    (done : Resolution) : Prop where
  visits : f.FirstVisits (f.answers chooser) r.nodes ids order
  picks : done.picks = r.picks ++ f.callsAt chooser order

namespace Entered

variable {ids order below later : List NodeId} {done inner : Resolution} {index : Nat}

theorem nodes_eq (h : f.Entered chooser r ids order done) : done.nodes = r.nodes ++ order := by
  rw [Resolution.nodes, h.picks, List.map_append, callsAt, List.map_map]
  exact congrArg (r.nodes ++ ·) (List.map_id order)

/-- A node is entered when the nodes of its branch are, its own branch is recorded, and then the
nodes behind it are entered. -/
theorem first (fresh : id ∉ r.nodes) (pick : f.picked? (f.answers chooser) id = some branch)
    (answer : f.answers chooser id = some index)
    (inside : f.Entered chooser (r.mark id fresh) branch.nodes below inner)
    (rest : f.Entered chooser (inner.settle id index) ids later done) :
    f.Entered chooser r (id :: ids) (id :: below ++ later) done := by
  have marked : inner.picks = r.picks ++ (id, none) :: f.callsAt chooser below := by
    rw [inside.picks, Resolution.mark, List.append_assoc]
    rfl
  have nodes : (inner.settle id index).nodes = r.nodes ++ id :: below := by
    rw [Resolution.nodes_settle, inside.nodes_eq, Resolution.nodes_mark, List.append_assoc]
    rfl
  refine ⟨.first fresh pick ?_ ?_, ?_⟩
  · rw [← Resolution.nodes_mark r fresh]
    exact inside.visits
  · rw [← nodes]
    exact rest.visits
  · rw [rest.picks, Resolution.picks_settle marked, ← answer]
    simp [callsAt]

end Entered

/-- **Entering nodes** visits them depth first, or fails at a node below them without a picked
branch.  The induction is on the nodes without a mark, and inside it on the list. -/
theorem chooseFrom_enter (f : Forest κ) (chooser : Chooser κ) (r : Resolution)
    (ids : List NodeId) (stack : List Task) :
    (∃ order done, f.Entered chooser r ids order done
        ∧ f.chooseFrom chooser r (ids.map .enter ++ stack)
          = ⟨f.callsAt chooser order ++ (f.chooseFrom chooser done stack).calls,
              (f.chooseFrom chooser done stack).result⟩)
      ∨ (∃ id ∈ ids, ∃ below, f.Reaches (f.answers chooser) id below
          ∧ f.picked? (f.answers chooser) below = none)
        ∧ (f.chooseFrom chooser r (ids.map .enter ++ stack)).resolution? = none := by
  induction size : offPath f.nodes.size r.nodes using Nat.strongRecOn generalizing r ids stack with
  | ind _ outer =>
    induction ids with
    | nil => exact .inl ⟨[], r, ⟨.nil, by simp [callsAt]⟩, rfl⟩
    | cons id ids inner =>
      rw [List.map_cons, List.cons_append]
      by_cases met : id ∈ r.nodes
      · rw [chooseFrom_again met]
        rcases inner with ⟨order, done, ⟨visits, picks⟩, same⟩ | ⟨⟨other, mem, lost⟩, fails⟩
        · exact .inl ⟨order, done, ⟨.again met visits, picks⟩, same⟩
        · exact .inr ⟨⟨other, List.mem_cons_of_mem id mem, lost⟩, fails⟩
      · cases pick : f.picked? (f.answers chooser) id with
        | none =>
          exact .inr ⟨⟨id, List.mem_cons_self, id, .refl, pick⟩, chooseFrom_refused met pick⟩
        | some branch =>
          obtain ⟨index, answer, first⟩ := chooseFrom_first (ids.map .enter ++ stack) met pick
          have bound := lt_size_of_picked pick
          rw [first]
          rcases outer _ (size ▸ offPath_mark_lt bound met) (r.mark id met) branch.nodes
              (.leave id index :: (ids.map .enter ++ stack)) rfl with
            ⟨below, marked, inside, same⟩ | ⟨⟨child, mem, lost, reaches, none⟩, fails⟩
          · have fewer : offPath f.nodes.size (marked.settle id index).nodes
                < offPath f.nodes.size r.nodes := by
              rw [Resolution.nodes_settle, inside.nodes_eq, Resolution.nodes_mark]
              exact offPath_lt bound met (by simp) (by simp)
            rw [same, chooseFrom]
            rcases outer _ (size ▸ fewer) (marked.settle id index) ids stack rfl with
              ⟨later, done, rest, same'⟩ | ⟨⟨other, mem, lost⟩, fails⟩
            · refine .inl ⟨_, done, .first met pick answer inside rest, ?_⟩
              rw [same']
              simp [callsAt, Choice.after, answer]
            · exact .inr ⟨⟨other, List.mem_cons_of_mem id mem, lost⟩, fails⟩
          · refine .inr ⟨⟨id, List.mem_cons_self, lost, ?_, none⟩, fails⟩
            exact .head ⟨branch, pick, Branch.mem_nodes.1 mem⟩ reaches

/-! ## Whole choices -/

/-- **A choice that was reached**: the nodes were visited depth first, the chooser was asked at each
of them, and its answers are recorded. -/
structure Chosen (f : Forest κ) (chooser : Chooser κ) (root : NodeId)
    (calls : List (NodeId × Option Nat)) (r : Resolution) : Prop where
  visits : f.FirstVisits (f.answers chooser) [] [root] r.nodes
  picks : r.picks = f.callsAt chooser r.nodes
  calls_eq : calls = r.picks

/-- **A choice is reached or fails**, the latter at a node without a picked branch. -/
theorem choose_cases (f : Forest κ) (chooser : Chooser κ) (root : NodeId) :
    (∃ r, f.Chosen chooser root (f.choose chooser root).calls r
        ∧ (f.choose chooser root).resolution? = some r)
      ∨ (∃ below, f.Reaches (f.answers chooser) root below
          ∧ f.picked? (f.answers chooser) below = none)
        ∧ (f.choose chooser root).resolution? = none := by
  rcases f.chooseFrom_enter chooser {} [root] [] with
    ⟨order, r, entered, same⟩ | ⟨⟨id, mem, lost⟩, fails⟩
  · have nodes : r.nodes = order := entered.nodes_eq
    have picks : r.picks = f.callsAt chooser order := entered.picks
    have chosen : f.choose chooser root = ⟨f.callsAt chooser order, .ok r⟩ := by
      rw [choose, show [Task.enter root] = [root].map .enter ++ [] from rfl, same, chooseFrom,
        List.append_nil]
    rw [chosen]
    exact .inl ⟨r, ⟨nodes ▸ entered.visits, nodes ▸ picks, picks.symm⟩, rfl⟩
  · obtain rfl := List.mem_singleton.1 mem
    exact .inr ⟨lost, fails⟩

namespace Chosen

variable {root : NodeId} {calls : List (NodeId × Option Nat)}

/-- The recorded nodes are those that the picks lead to. -/
theorem mem_nodes_iff (h : f.Chosen chooser root calls r) :
    id ∈ r.nodes ↔ f.Reaches (f.answers chooser) root id :=
  h.visits.mem_iff

/-- A branch is picked at every recorded node. -/
theorem exists_picked (h : f.Chosen chooser root calls r) (mem : id ∈ r.nodes) :
    ∃ branch, f.picked? (f.answers chooser) id = some branch := by
  obtain ⟨branch, pick, -⟩ := h.visits.exists_picked id mem
  exact ⟨branch, pick⟩

/-- What is recorded of a node is the answer of the chooser. -/
theorem branch?_eq (h : f.Chosen chooser root calls r) (mem : id ∈ r.nodes) :
    r.branch? id = f.answers chooser id := by
  obtain ⟨branch, pick⟩ := h.exists_picked mem
  obtain ⟨-, index, -, answer, -⟩ := picked?_eq_some_iff.1 pick
  rw [answer, Resolution.branch?_eq_some_iff, h.picks]
  exact List.mem_map.2 ⟨id, mem, by rw [answer]⟩

end Chosen

/-- In a closed forest only the node that a choice is made for may be missing. -/
theorem Closed.exists_refused_iff (closed : f.Closed) {root : NodeId} :
    (∃ id, f.Reaches (f.answers chooser) root id
        ∧ (f.nodes[id]? = none ∨ ∃ node, f.nodes[id]? = some node ∧ f.Declines chooser node))
      ↔ f.nodes.size ≤ root ∨ ∃ id node, f.Reaches (f.answers chooser) root id
          ∧ f.nodes[id]? = some node ∧ f.Declines chooser node := by
  constructor
  · rintro ⟨id, reaches, missing | ⟨node, place, declines⟩⟩
    · rw [Array.getElem?_eq_none_iff] at missing
      rcases reaches.cases_tail with rfl | ⟨above, -, leads⟩
      · exact .inl missing
      · exact absurd (closed.lt_size leads) (Nat.not_lt.2 missing)
    · exact .inr ⟨id, node, reaches, place, declines⟩
  · rintro (missing | ⟨id, node, reaches, place, declines⟩)
    · exact ⟨root, .refl, .inl (Array.getElem?_eq_none_iff.2 missing)⟩
    · exact ⟨id, reaches, .inr ⟨node, place, declines⟩⟩

end Forest

open Forest in
/-- **Exact resolution.**  A choice fails exactly if the picks lead to a node that is missing or
declined; in a closed forest, if the given node is missing or the picks lead to one that is
declined.  Otherwise the resolution records the nodes that the picks lead to, each once and with the
branch that its chooser answered, no node being left with a mark only; and the choosers were asked
at these nodes, once at each, depth first and from left to right. -/
theorem choose_exact (f : Forest κ) (chooser : Chooser κ) (root : NodeId) :
    let picks := f.answers chooser
    let choice := f.choose chooser root
    (choice.resolution? = none ↔ ∃ id, f.Reaches picks root id
        ∧ (f.nodes[id]? = none ∨ ∃ node, f.nodes[id]? = some node ∧ f.Declines chooser node))
      ∧ (f.Closed → (choice.resolution? = none ↔ f.nodes.size ≤ root
          ∨ ∃ id node, f.Reaches picks root id ∧ f.nodes[id]? = some node
              ∧ f.Declines chooser node))
      ∧ ∀ r, choice.resolution? = some r →
          (∀ id, id ∈ r.nodes ↔ f.Reaches picks root id)
            ∧ (∀ id mark, (id, mark) ∈ r.picks → ∃ node index, f.nodes[id]? = some node
                ∧ chooser f node = some index ∧ index < node.branches.length
                ∧ mark = some index ∧ r.branch? id = some index)
            ∧ r.size = {id | f.Reaches picks root id}.ncard
            ∧ f.FirstVisits picks [] [root] (choice.calls.map Prod.fst)
            ∧ (choice.calls.map Prod.fst).Nodup
            ∧ ∀ id, id ∈ choice.calls.map Prod.fst ↔ id ∈ r.nodes := by
  intro picks choice
  have fails : choice.resolution? = none ↔ ∃ id, f.Reaches picks root id
      ∧ (f.nodes[id]? = none ∨ ∃ node, f.nodes[id]? = some node ∧ f.Declines chooser node) := by
    simp only [← picked?_answers_eq_none_iff]
    rcases f.choose_cases chooser root with ⟨r, chosen, reached⟩ | ⟨lost, fails⟩
    · refine iff_of_false (by rw [reached]; simp) ?_
      rintro ⟨id, reaches, none⟩
      obtain ⟨branch, pick⟩ := chosen.exists_picked (chosen.mem_nodes_iff.2 reaches)
      exact absurd (none.symm.trans pick) (Option.some_ne_none branch).symm
    · exact iff_of_true fails lost
  refine ⟨fails, fun closed => fails.trans closed.exists_refused_iff, fun r reached => ?_⟩
  rcases f.choose_cases chooser root with ⟨r', chosen, reached'⟩ | ⟨-, fails⟩
  · obtain rfl := Option.some.inj (reached'.symm.trans reached)
    have nodup : r'.nodes.Nodup := chosen.visits.nodup List.nodup_nil
    have calls : choice.calls.map Prod.fst = r'.nodes := congrArg _ chosen.calls_eq
    refine ⟨fun id => chosen.mem_nodes_iff, fun id mark mem => ?_, ?_, ?_, ?_, ?_⟩
    · have memNodes : id ∈ r'.nodes := List.mem_map_of_mem (f := Prod.fst) mem
      obtain ⟨branch, pick⟩ := chosen.exists_picked memNodes
      obtain ⟨node, index, place, answer, atIndex⟩ := picked?_answers_eq_some_iff.1 pick
      have answer' : f.answers chooser id = some index := by rw [answers, place]; exact answer
      have recorded : r'.branch? id = some index := (chosen.branch?_eq memNodes).trans answer'
      refine ⟨node, index, place, answer, (List.getElem?_eq_some_iff.1 atIndex).1, ?_, recorded⟩
      have mem' := Resolution.branch?_eq_some_iff.1 recorded
      exact Option.some.inj (((lookup_eq_some_iff_mem r'.nodup).2 mem).symm.trans
        ((lookup_eq_some_iff_mem r'.nodup).2 mem'))
    · have same : {id | f.Reaches picks root id} = (r'.nodes.toFinset : Set NodeId) := by
        ext id
        rw [List.coe_toFinset]
        exact chosen.mem_nodes_iff.symm
      rw [same, Set.ncard_coe_finset, List.toFinset_card_of_nodup nodup, Resolution.nodes,
        List.length_map, Resolution.size]
    · rw [calls]
      exact chosen.visits
    · rw [calls]
      exact nodup
    · rw [calls]
      exact fun id => Iff.rfl
  · exact absurd (fails.symm.trans reached) (Option.some_ne_none r).symm

end Earley
