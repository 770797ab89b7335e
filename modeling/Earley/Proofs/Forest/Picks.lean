import Earley.Forest.Resolution
import Mathlib.Logic.Relation

/-!
# Proofs/Forest/Picks — following one branch from every node

Picks name a branch, by its number, for nodes of a forest: the answers of a chooser are picks
(`Forest.answers`), and so are the branches that a resolution records (`Resolution.branch?`).  To
follow them is to go from a node to the nodes of its picked branch (`Forest.Leads`).

`Forest.FirstVisits` lists the nodes that are met in this way depth first and from left to right,
each when it is met first.  From one node on, these are the nodes that the picks lead to
(`FirstVisits.mem_iff`), cycles or not.
-/

namespace Earley

universe u

/-- A number of a branch for some nodes. -/
abbrev Picks := NodeId → Option Nat

theorem Branch.mem_nodes {branch : Branch} {id : NodeId} :
    id ∈ branch.nodes ↔ .node id ∈ branch := by
  rw [Branch.nodes, List.mem_filterMap]
  constructor
  · rintro ⟨child | child, mem, same⟩
    · exact nomatch same
    · obtain rfl := Option.some.inj same
      exact mem
  · exact fun mem => ⟨_, mem, rfl⟩

namespace Forest

variable {κ : Type u}

/-- The answers of a chooser at the nodes of a forest. -/
def answers (f : Forest κ) (chooser : Chooser κ) : Picks := fun id => f.nodes[id]?.bind (chooser f)

/-- The branch picked at a node: there is one if the node is in the forest and has a branch of the
picked number. -/
def picked? (f : Forest κ) (picks : Picks) (id : NodeId) : Option Branch :=
  f.nodes[id]?.bind fun node => (picks id).bind fun index => node.branches[index]?

/-- **The picks lead** from a node to the nodes of its picked branch. -/
def Leads (f : Forest κ) (picks : Picks) (id below : NodeId) : Prop :=
  ∃ branch, f.picked? picks id = some branch ∧ .node below ∈ branch

/-- The nodes that the picks lead to in any number of steps, the first one included. -/
abbrev Reaches (f : Forest κ) (picks : Picks) : NodeId → NodeId → Prop :=
  Relation.ReflTransGen (f.Leads picks)

variable {f : Forest κ} {picks : Picks} {id : NodeId} {branch : Branch}

theorem picked?_eq_some_iff : f.picked? picks id = some branch ↔ ∃ node index,
    f.nodes[id]? = some node ∧ picks id = some index ∧ node.branches[index]? = some branch := by
  simp only [picked?, Option.bind_eq_some_iff]
  constructor
  · rintro ⟨node, place, index, pick, atIndex⟩
    exact ⟨node, index, place, pick, atIndex⟩
  · rintro ⟨node, index, place, pick, atIndex⟩
    exact ⟨node, place, index, pick, atIndex⟩

/-- **A chooser declines** a node if it answers with none of its branches. -/
def Declines (f : Forest κ) (chooser : Chooser κ) (node : Node) : Prop :=
  ∀ index, chooser f node = some index → node.branches.length ≤ index

/-- No branch is picked by a chooser at what is no node and at a node that it declines. -/
theorem picked?_answers_eq_none_iff {chooser : Chooser κ} :
    f.picked? (f.answers chooser) id = none
      ↔ f.nodes[id]? = none ∨ ∃ node, f.nodes[id]? = some node ∧ f.Declines chooser node := by
  cases place : f.nodes[id]? with
  | none => simp [picked?, place]
  | some node => simp [picked?, answers, place, Declines]

/-- What is picked by a chooser. -/
theorem picked?_answers_eq_some_iff {chooser : Chooser κ} :
    f.picked? (f.answers chooser) id = some branch ↔ ∃ node index, f.nodes[id]? = some node
      ∧ chooser f node = some index ∧ node.branches[index]? = some branch := by
  rw [picked?_eq_some_iff]
  refine exists₂_congr fun node index => and_congr_right fun place => ?_
  rw [answers, place, Option.bind_some]

/-- **The nodes of all branches are in the forest.** -/
def Closed (f : Forest κ) : Prop :=
  ∀ (id : NodeId) (node : Node), f.nodes[id]? = some node → ∀ branch ∈ node.branches,
    ∀ below, .node below ∈ branch → below < f.nodes.size

/-- In a closed forest the picks lead to nodes of the forest. -/
theorem Closed.lt_size (closed : f.Closed) {below : NodeId} (leads : f.Leads picks id below) :
    below < f.nodes.size := by
  obtain ⟨branch, pick, mem⟩ := leads
  obtain ⟨node, index, place, -, atIndex⟩ := picked?_eq_some_iff.1 pick
  exact closed id node place branch (List.mem_of_getElem? atIndex) below mem

theorem lt_size_of_picked (pick : f.picked? picks id = some branch) : id < f.nodes.size := by
  obtain ⟨_, _, place, -⟩ := picked?_eq_some_iff.1 pick
  exact (Array.getElem?_eq_some_iff.1 place).1

/-- **Depth first, from left to right**: from the nodes of a list, one after the other, the nodes
met that are not among `seen`, each before those below it. -/
inductive FirstVisits (f : Forest κ) (picks : Picks) :
    List NodeId → List NodeId → List NodeId → Prop
  | nil {seen : List NodeId} : FirstVisits f picks seen [] []
  | again {seen ids order : List NodeId} {id : NodeId} (met : id ∈ seen)
      (rest : FirstVisits f picks seen ids order) : FirstVisits f picks seen (id :: ids) order
  | first {seen ids below later : List NodeId} {id : NodeId} {branch : Branch} (fresh : id ∉ seen)
      (pick : f.picked? picks id = some branch)
      (inside : FirstVisits f picks (seen ++ [id]) branch.nodes below)
      (rest : FirstVisits f picks (seen ++ id :: below) ids later) :
      FirstVisits f picks seen (id :: ids) (id :: below ++ later)

namespace FirstVisits

variable {seen ids order : List NodeId}

/-- No node is visited that was seen before, and none twice. -/
theorem nodup (h : f.FirstVisits picks seen ids order) (nodup : seen.Nodup) :
    (seen ++ order).Nodup := by
  induction h with
  | nil => simpa using nodup
  | again _ _ ih => exact ih nodup
  | @first seen _ below _ id _ fresh _ _ _ ihInside ihRest =>
    have marked : (seen ++ [id]).Nodup :=
      List.nodup_append.2 ⟨nodup, by simp, fun a mem b memId same =>
        fresh (List.mem_singleton.1 memId ▸ same ▸ mem)⟩
    have inside : (seen ++ id :: below).Nodup := by simpa using ihInside marked
    simpa using ihRest inside

/-- The picks lead to every node that is visited. -/
theorem exists_reaches (h : f.FirstVisits picks seen ids order) :
    ∀ x ∈ order, ∃ id ∈ ids, f.Reaches picks id x := by
  induction h with
  | nil => exact fun _ mem => absurd mem List.not_mem_nil
  | again _ _ ih =>
    intro x mem
    obtain ⟨id, memIds, reaches⟩ := ih x mem
    exact ⟨id, List.mem_cons_of_mem _ memIds, reaches⟩
  | @first _ _ below later id branch _ pick _ _ ihInside ihRest =>
    intro x mem
    rcases List.mem_append.1 mem with mem | mem
    · refine ⟨id, List.mem_cons_self, ?_⟩
      rcases List.mem_cons.1 mem with rfl | mem
      · exact .refl
      · obtain ⟨child, memChild, reaches⟩ := ihInside x mem
        exact .head ⟨branch, pick, Branch.mem_nodes.1 memChild⟩ reaches
    · obtain ⟨other, memIds, reaches⟩ := ihRest x mem
      exact ⟨other, List.mem_cons_of_mem _ memIds, reaches⟩

/-- The nodes of the list are visited unless they were seen. -/
theorem mem_of_mem (h : f.FirstVisits picks seen ids order) : ∀ id ∈ ids, id ∈ seen ++ order := by
  induction h with
  | nil => exact fun _ mem => absurd mem List.not_mem_nil
  | again met _ ih =>
    intro id mem
    rcases List.mem_cons.1 mem with rfl | mem
    · exact List.mem_append_left _ met
    · exact ih id mem
  | first _ _ _ _ _ ihRest =>
    intro id mem
    rcases List.mem_cons.1 mem with rfl | mem
    · simp
    · simpa using ihRest id mem

/-- **A visited node has a picked branch**, and its nodes are visited or were seen. -/
theorem exists_picked (h : f.FirstVisits picks seen ids order) : ∀ x ∈ order, ∃ branch,
    f.picked? picks x = some branch ∧ ∀ child ∈ branch.nodes, child ∈ seen ++ order := by
  induction h with
  | nil => exact fun _ mem => absurd mem List.not_mem_nil
  | again _ _ ih => exact ih
  | @first seen _ below later id branch _ pick inside _ ihInside ihRest =>
    intro x mem
    have whole : seen ++ (id :: below ++ later) = (seen ++ [id] ++ below) ++ later := by simp
    rw [whole]
    rcases List.mem_append.1 mem with mem | mem
    · rcases List.mem_cons.1 mem with rfl | mem
      · exact ⟨branch, pick, fun child memChild =>
          List.mem_append_left later (inside.mem_of_mem child memChild)⟩
      · obtain ⟨branch', pick', closed⟩ := ihInside x mem
        exact ⟨branch', pick', fun child memChild =>
          List.mem_append_left later (closed child memChild)⟩
    · obtain ⟨branch', pick', closed⟩ := ihRest x mem
      exact ⟨branch', pick', fun child memChild => by simpa using closed child memChild⟩

/-- **From one node on, the nodes that the picks lead to are visited**, and no others. -/
theorem mem_iff {root : NodeId} (h : f.FirstVisits picks [] [root] order) {x : NodeId} :
    x ∈ order ↔ f.Reaches picks root x := by
  constructor
  · intro mem
    obtain ⟨id, memRoot, reaches⟩ := h.exists_reaches x mem
    obtain rfl := List.mem_singleton.1 memRoot
    exact reaches
  · intro reaches
    induction reaches with
    | refl => simpa using h.mem_of_mem root (List.mem_singleton_self root)
    | tail _ leads ih =>
      obtain ⟨branch, pick, memChild⟩ := leads
      obtain ⟨branch', pick', closed⟩ := h.exists_picked _ ih
      obtain rfl := Option.some.inj (pick.symm.trans pick')
      simpa using closed _ (Branch.mem_nodes.2 memChild)

end FirstVisits

end Forest

end Earley
