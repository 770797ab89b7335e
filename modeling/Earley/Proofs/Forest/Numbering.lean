import Earley.Forest.Extract
import Mathlib.Data.List.Forall2
import Mathlib.Data.List.Nodup

/-!
# Proofs/Forest/Numbering — numbers of spans, and the pruning that drops nothing

The number of a span is its place in the list (`number?_eq_some_iff`), so that renumbering a row of
children replaces every span by its place (`mem_renumber_iff`).  Where every node is marked, ranks
are places too, and pruning leaves the nodes as they are (`pruneNodes_replicate`).
-/

namespace Earley

universe u

/-! ## Numbers -/

theorem lookup_eq_some_iff_mem {α β : Type} [BEq α] [LawfulBEq α] {pairs : List (α × β)} {a : α}
    {b : β} (nodup : (pairs.map Prod.fst).Nodup) : pairs.lookup a = some b ↔ (a, b) ∈ pairs := by
  induction pairs with
  | nil => simp
  | cons pair pairs ih =>
    obtain ⟨key, value⟩ := pair
    obtain ⟨fresh, nodup⟩ := List.nodup_cons.1 nodup
    by_cases same : a = key
    · subst same
      rw [List.lookup_cons_self, List.mem_cons, Option.some.injEq, Prod.mk.injEq]
      constructor
      · exact fun h => .inl ⟨rfl, h.symm⟩
      · rintro (⟨-, h⟩ | later)
        · exact h.symm
        · exact absurd (List.mem_map.2 ⟨_, later, rfl⟩) fresh
    · have differs : (a == key) = false := by simpa using same
      rw [List.lookup_cons, differs, List.mem_cons, Prod.mk.injEq]
      simp [same, ih nodup]

/-- **The number of a span is its place.** -/
theorem Numbering.number?_eq_some_iff {size : Nat} {spans : List Span} {span : Span} {id : NodeId}
    (nodup : spans.Nodup) (bound : span.start < size) :
    (Numbering.ofSpans size spans).number? span = some id ↔ spans[id]? = some span := by
  have keys : ((spans.zipIdx.filter fun (other, _) => other.start = span.start).map
      Prod.fst).Nodup := by
    refine List.Nodup.sublist (List.Sublist.map _ List.filter_sublist) ?_
    rwa [List.zipIdx_map_fst]
  have listed : (Numbering.ofSpans size spans).number? span
      = (spans.zipIdx.filter fun (other, _) => other.start = span.start).lookup span := by
    simp [Numbering.ofSpans, Numbering.number?, Array.getD, bound]
  rw [listed, lookup_eq_some_iff_mem keys, List.mem_filter, List.mk_mem_zipIdx_iff_getElem?]
  simp

/-! ## Renumbering -/

/-- A child over spans and the same child over places in a list of spans. -/
inductive Child.Numbered (spans : List Span) : Child Span → Child NodeId → Prop
  | token (index : Nat) : Numbered spans (.token index) (.token index)
  | node {span : Span} {id : NodeId} (place : spans[id]? = some span) :
      Numbered spans (.node span) (.node id)

theorem mapM_eq_some_iff {α β : Type} {f : α → Option β} {xs : List α} {ys : List β} :
    xs.mapM f = some ys ↔ List.Forall₂ (fun x y => f x = some y) xs ys := by
  induction xs generalizing ys with
  | nil => simp [eq_comm]
  | cons x xs ih =>
    rw [List.mapM_cons, List.forall₂_cons_left_iff]
    simp only [Option.bind_eq_bind, Option.bind_eq_some_iff, Option.pure_def, Option.some.injEq, ih]
    constructor
    · rintro ⟨y, hy, rest, hrest, rfl⟩
      exact ⟨y, rest, hy, hrest, rfl⟩
    · rintro ⟨y, rest, hy, hrest, rfl⟩
      exact ⟨y, hy, rest, hrest, rfl⟩

theorem mem_renumber_iff {ν : Type} {number? : ν → Option NodeId} {rows : List (List (Child ν))}
    {branch : Branch} : branch ∈ renumber number? rows ↔
      ∃ row ∈ rows, List.Forall₂ (fun old new => old.mapOption number? = some new) row branch := by
  simp only [renumber, List.mem_filterMap, mapM_eq_some_iff]

theorem mapOption_eq_some_iff {spans : List Span} {number? : Span → Option NodeId}
    {old : Child Span} {new : Child NodeId}
    (places : ∀ span, old = .node span → ∀ id, number? span = some id ↔ spans[id]? = some span) :
    old.mapOption number? = some new ↔ Child.Numbered spans old new := by
  cases old with
  | token index =>
    rw [Child.mapOption, Option.some.injEq]
    constructor
    · rintro rfl
      exact .token index
    · intro h
      obtain ⟨⟩ := h
      rfl
  | node span =>
    rw [Child.mapOption, Option.map_eq_some_iff]
    constructor
    · rintro ⟨id, number, rfl⟩
      exact .node ((places span rfl id).1 number)
    · intro h
      cases h with
      | node place => exact ⟨_, (places span rfl _).2 place, rfl⟩

/-- A span has one number at most. -/
theorem Child.Numbered.rightUnique {spans : List Span} (nodup : spans.Nodup) :
    Relator.RightUnique (Child.Numbered spans) := by
  intro old new new' h h'
  cases h with
  | token => cases h'; rfl
  | @node span id place =>
    cases h' with
    | @node _ id' place' =>
      have bound : id < spans.length := (List.getElem?_eq_some_iff.1 place).1
      rw [(List.getElem?_inj bound nodup).1 (place.trans place'.symm)]

/-! ## Pruning -/

theorem ranksFrom_replicate (next count : Nat) :
    ranksFrom next (List.replicate count true) = (List.range' next count).map some := by
  induction count generalizing next with
  | zero => rfl
  | succ count ih =>
    rw [List.replicate_succ, ranksFrom, ih, List.range'_succ, List.map_cons]

/-- Where all nodes are marked, ranks are places. -/
theorem getD_ranks_replicate {count id : Nat} (bound : id < count) :
    (ranks (Array.replicate count true)).getD id none = some id := by
  simp [ranks, Array.toList_replicate, ranksFrom_replicate, Array.getD, bound]

theorem renumber_eq_self {number? : NodeId → Option NodeId} {branches : List Branch}
    (h : ∀ branch ∈ branches, ∀ id ∈ branch.nodes, number? id = some id) :
    renumber number? branches = branches := by
  have row : ∀ branch ∈ branches, branch.mapM (Child.mapOption number?) = some branch := by
    intro branch mem
    refine mapM_eq_some_iff.2 (List.forall₂_same.2 fun child memChild => ?_)
    cases child with
    | token index => rfl
    | node id =>
      rw [Child.mapOption, h branch mem id (List.mem_filterMap.2 ⟨_, memChild, rfl⟩)]
      rfl
  rw [renumber, List.filterMap_congr row, List.filterMap_some]

theorem filterMap_zip_replicate {α : Type} {f : α × Bool → Option α} {xs : List α}
    (h : ∀ x ∈ xs, f (x, true) = some x) :
    (xs.zip (List.replicate xs.length true)).filterMap f = xs := by
  induction xs with
  | nil => rfl
  | cons x xs ih =>
    rw [List.length_cons, List.replicate_succ, List.zip_cons_cons,
      List.filterMap_cons_some (h x List.mem_cons_self),
      ih fun y mem => h y (List.mem_cons_of_mem x mem)]

/-- **Where all nodes are marked, pruning leaves them as they are.** -/
theorem pruneNodes_replicate {nodes : Array Node}
    (h : ∀ node ∈ nodes, ∀ branch ∈ node.branches, ∀ id ∈ branch.nodes, id < nodes.size) :
    pruneNodes (Array.replicate nodes.size true) nodes = nodes := by
  refine Array.toList_inj.1 ?_
  rw [pruneNodes, Array.toList_filterMap, Array.toList_zip, Array.toList_replicate,
    ← Array.length_toList]
  refine filterMap_zip_replicate fun node mem => ?_
  have kept : renumber (fun id => (ranks (Array.replicate nodes.toList.length true)).getD id none)
      node.branches = node.branches :=
    renumber_eq_self fun branch memBranch id memId => getD_ranks_replicate
      (h node (Array.mem_toList_iff.1 mem) branch memBranch id memId)
  simp only [if_true, kept]

end Earley
