import Earley.Forest.Basic

/-!
# Forest/Paths — the nodes above, and why a descent that avoids them ends

A forest may have cycles, and so a descent through it keeps the path of nodes from its start.  One
that does not enter a node of its path a second time takes a node that is off the path with every
step, and only finitely many nodes are.
-/

namespace Earley

universe u

/-- The number of indices below `size` that are not in `path`. -/
def offPath (size : Nat) (path : List NodeId) : Nat :=
  ((List.range size).filter fun id => id ∉ path).length

theorem length_filter_lt {α : Type u} {p q : α → Bool} {xs : List α} {x : α} (mem : x ∈ xs)
    (fewer : ∀ y, q y = true → p y = true) (now : p x = true) (later : q x = false) :
    (xs.filter q).length < (xs.filter p).length := by
  induction xs with
  | nil => cases mem
  | cons y ys ih =>
    have le : (ys.filter q).length ≤ (ys.filter p).length := by
      simpa [List.countP_eq_length_filter] using List.countP_mono_left fun z _ => fewer z
    rcases List.mem_cons.1 mem with rfl | mem
    · simp only [List.filter_cons, later, now, Bool.false_eq_true, if_false, if_true,
        List.length_cons]
      omega
    · have := ih mem
      by_cases hq : q y = true
      · simp only [List.filter_cons, hq, fewer y hq, if_true, List.length_cons]
        omega
      · by_cases hp : p y = true
        · simp only [List.filter_cons, hq, hp, if_true, List.length_cons]
          simp
          omega
        · simpa [List.filter_cons, hq, hp] using this

/-- A path that takes in another node has fewer nodes off it. -/
theorem offPath_lt {size : Nat} {path longer : List NodeId} {id : NodeId} (bound : id < size)
    (off : id ∉ path) (on : id ∈ longer) (subset : path ⊆ longer) :
    offPath size longer < offPath size path :=
  length_filter_lt (List.mem_range.2 bound)
    (fun y h => by
      simp only [decide_eq_true_eq] at h ⊢
      exact fun mem => h (subset mem))
    (by simpa using off) (by simpa using on)

/-- **A step to a node off the path leaves fewer of them.** -/
theorem offPath_cons_lt {size : Nat} {path : List NodeId} {id : NodeId} (bound : id < size)
    (off : id ∉ path) : offPath size (id :: path) < offPath size path :=
  offPath_lt bound off List.mem_cons_self (List.subset_cons_self id path)

end Earley
