import Earley.Chart.Survey
import Earley.Proofs.Noninterference

/-!
# Proofs/Chart/Flags — which items advance, told by flags of the expected kinds

The walk along a set of items and the flags of an answer (`Chart/Survey`) come to what recognition
does with the kinds themselves.  Every place that was noted has a flag
(`ItemSet.place_lt_length_flags`), and what advances by the flags is what advances by the kinds that
the token is read as (`ItemSet.scanned_selected_eq`).
-/

namespace Earley

universe u

variable {κ : Type u} {g : Grammar κ} {equals : String → κ → Bool} {scan : Scan κ}
  {expected : List κ} {place : Nat} {kind : κ}

/-! ## Flags -/

theorem length_foldl_set (places : List Nat) (flags : List Bool) :
    (places.foldl (fun flags place => flags.set place true) flags).length = flags.length := by
  induction places generalizing flags with
  | nil => rfl
  | cons first places ih => rw [List.foldl_cons, ih, List.length_set]

/-- A place is set if it was or if it is among those to be set. -/
theorem getElem?_foldl_set (places : List Nat) (flags : List Bool) :
    (places.foldl (fun flags place => flags.set place true) flags)[place]?
      = flags[place]?.map fun flag => flag || decide (place ∈ places) := by
  induction places generalizing flags with
  | nil => simp
  | cons first places ih =>
    rw [List.foldl_cons, ih, List.getElem?_set]
    by_cases same : first = place
    · subst same
      by_cases bound : first < flags.length <;> simp [bound]
    · simp [same, Ne.symm same]

/-- **There is a flag for every expected kind.** -/
theorem Scan.length_flags : (scan.flags equals expected).length = expected.length := by
  unfold Scan.flags
  split
  · rw [length_foldl_set, List.length_replicate]
  · exact List.length_map _

/-- **A flag is set where the place is selected.** -/
theorem Scan.flags_eq : scan.flags equals expected
    = (List.range expected.length).map (scan.selects equals expected) := by
  refine List.ext_getElem (by simp [Scan.length_flags]) fun place bound _ => Option.some.inj ?_
  rw [Scan.length_flags] at bound
  rw [← List.getElem?_eq_getElem, ← List.getElem?_eq_getElem]
  cases matched : scan.matched <;>
    simp [Scan.flags, Scan.selects, matched, getElem?_foldl_set, bound]

/-- **The selected kinds are those with a flag.** -/
theorem Scan.selected_eq_flagged : scan.selected equals expected
    = ((expected.zip (scan.flags equals expected)).filter Prod.snd).map Prod.fst := by
  rw [scan.flags_eq, List.zip_map_right, List.range_eq_range', ← List.zipIdx_eq_zip_range',
    List.filter_map, List.map_map, Scan.selected_eq]
  rfl

/-- Kinds are selected in their order, each at most as often as it is expected. -/
theorem Scan.sublist_selected : (scan.selected equals expected).Sublist expected := by
  rw [Scan.selected_eq]
  refine (List.filter_sublist.map Prod.fst).trans ?_
  rw [List.zipIdx_map_fst]

theorem Scan.mem_selected (nodup : expected.Nodup) (atPlace : expected[place]? = some kind) :
    kind ∈ scan.selected equals expected ↔ (scan.flags equals expected)[place]? = some true := by
  obtain ⟨bound, here⟩ := List.getElem?_eq_some_iff.1 atPlace
  have flag : (scan.flags equals expected)[place]? = some (scan.selects equals expected place) := by
    simp [Scan.flags_eq, bound]
  rw [flag, Option.some.injEq, Scan.selected_eq]
  simp only [List.mem_map, List.mem_filter, Prod.exists, exists_and_right, exists_eq_right,
    List.mem_zipIdx_iff_getElem?]
  constructor
  · rintro ⟨other, there, chosen⟩
    obtain ⟨bound', there⟩ := List.getElem?_eq_some_iff.1 there
    rwa [← nodup.getElem_inj_iff.1 (there.trans here.symm)]
  · exact fun chosen => ⟨place, atPlace, chosen⟩

/-! ## The items that await a kind -/

theorem eraseDups_concat {α : Type u} [DecidableEq α] {xs : List α} {x : α} :
    (xs ++ [x]).eraseDups = if x ∈ xs then xs.eraseDups else xs.eraseDups ++ [x] := by
  rw [List.eraseDups_append]
  by_cases mem : x ∈ xs <;> simp [List.removeAll, List.eraseDups_cons, mem]

section Survey

variable [DecidableEq κ]

/-- **What a survey says of the items that it took note of.** -/
structure Survey.Covers (g : Grammar κ) (survey : Survey κ) (items : List Item) : Prop where
  expected_eq : survey.expected = (items.filterMap (Item.awaitedKind? g)).eraseDups
  items_eq : survey.awaiting.map Prod.fst = items.filter fun item => (item.awaitedKind? g).isSome
  places : ∀ entry ∈ survey.awaiting, ∃ kind, entry.1.awaitedKind? g = some kind
    ∧ survey.expected[entry.2]? = some kind

theorem Survey.Covers.note {survey : Survey κ} {items : List Item} (h : survey.Covers g items)
    (item : Item) : (survey.note g item).Covers g (items ++ [item]) := by
  unfold Survey.note
  split
  · rename_i awaits
    exact ⟨by simp [h.expected_eq, awaits], by simp [h.items_eq, awaits], h.places⟩
  · rename_i kind awaits
    have mem_iff : kind ∈ survey.expected ↔ kind ∈ items.filterMap (Item.awaitedKind? g) := by
      rw [h.expected_eq, List.mem_eraseDups]
    have concat : (items ++ [item]).filterMap (Item.awaitedKind? g)
        = items.filterMap (Item.awaitedKind? g) ++ [kind] := by
      rw [List.filterMap_append, List.filterMap_cons_some awaits, List.filterMap_nil]
    split
    · rename_i known
      refine ⟨?_, by simp [h.items_eq, awaits], fun entry mem => ?_⟩
      · rw [concat, eraseDups_concat, if_pos (mem_iff.1 known), h.expected_eq]
      · rcases List.mem_append.1 mem with old | new
        · exact h.places entry old
        · obtain rfl := List.mem_singleton.1 new
          exact ⟨kind, awaits, List.getElem?_idxOf known⟩
    · rename_i fresh
      refine ⟨?_, by simp [h.items_eq, awaits], fun entry mem => ?_⟩
      · rw [concat, eraseDups_concat, if_neg (mt mem_iff.2 fresh), h.expected_eq]
      · rcases List.mem_append.1 mem with old | new
        · obtain ⟨kind', awaits', there⟩ := h.places entry old
          exact ⟨kind', awaits', List.getElem?_append_left
            (List.getElem?_eq_some_iff.1 there).1 ▸ there⟩
        · obtain rfl := List.mem_singleton.1 new
          exact ⟨kind, awaits, List.getElem?_concat_length⟩

theorem Survey.Covers.foldl_note {survey : Survey κ} {items : List Item}
    (h : survey.Covers g items) (more : List Item) :
    (more.foldl (Survey.note g) survey).Covers g (items ++ more) := by
  induction more generalizing survey items with
  | nil => rwa [List.append_nil]
  | cons item more ih =>
    rw [List.foldl_cons, ← List.singleton_append, ← List.append_assoc]
    exact ih (h.note item)

variable {set : ItemSet}

/-- **The survey of a set covers its items.** -/
theorem ItemSet.covers_survey : (set.survey g).Covers g set.toList := by
  have none : Survey.Covers g {} [] := ⟨rfl, rfl, fun _ mem => absurd mem List.not_mem_nil⟩
  exact none.foldl_note set.toList

theorem ItemSet.expected_survey : (set.survey g).expected = set.expected g :=
  covers_survey.expected_eq

/-- **Every place of a survey has a flag**, whatever the tokenizer answers. -/
theorem ItemSet.place_lt_length_flags {entry : Item × Nat}
    (mem : entry ∈ (set.survey g).awaiting) :
    entry.2 < (scan.flags equals (set.survey g).expected).length := by
  obtain ⟨kind, -, there⟩ := covers_survey.places entry mem
  rw [Scan.length_flags]
  exact (List.getElem?_eq_some_iff.1 there).1

/-- **What advances by the flags is what advances by the selected kinds.** -/
theorem ItemSet.scanned_selected_eq : set.scanned g (scan.selected equals (set.expected g))
    = (set.survey g).advances (scan.flags equals (set.survey g).expected) := by
  have covers : (set.survey g).Covers g set.toList := covers_survey
  rw [expected_survey]
  let selects (item : Item) : Bool := (item.awaitedKind? g).any
    fun kind => kind ∈ scan.selected equals (set.expected g)
  have flagged : ∀ entry ∈ (set.survey g).awaiting,
      decide ((scan.flags equals (set.expected g))[entry.2]? = some true)
        = (selects ∘ Prod.fst) entry := by
    intro entry mem
    obtain ⟨kind, awaits, there⟩ := covers.places entry mem
    rw [expected_survey] at there
    simp only [selects, Function.comp_apply, awaits, Option.any_some]
    exact decide_eq_decide.2 (Scan.mem_selected nodup_expected there).symm
  have awaited : set.toList.filter selects
      = (set.toList.filter fun item => (item.awaitedKind? g).isSome).filter selects := by
    rw [List.filter_filter]
    refine List.filter_congr fun item _ => ?_
    cases h : item.awaitedKind? g <;> simp [selects, h]
  unfold scanned Survey.advances
  rw [List.filter_congr flagged, show (fun entry : Item × Nat => entry.1.advance)
    = Item.advance ∘ Prod.fst from rfl, ← List.map_map, ← List.filter_map, covers.items_eq,
    ← awaited]

end Survey

end Earley
