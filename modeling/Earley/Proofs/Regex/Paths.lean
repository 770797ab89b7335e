import Earley.Proofs.Regex
import Mathlib.Logic.Relation
import Mathlib.Order.Nat

/-!
# Proofs/Regex/Paths — the ends of an expression are where its paths lead

`Regex.Leads` says from which position of a text an expression leads to which, without an order of
preference and without a memory of choices.  Every end that is listed is led to
(`Regex.ends_sound`).  The converse holds where nothing is remembered (`Regex.lists_ends`): the
rounds of a repetition are a search that leaves out positions found before, and what it has found is
closed under further rounds when it is done (`Regex.Walks`).
-/

namespace Earley

open Relation

namespace Cursor

variable {text : List Char} {c d : Cursor} {pos : Nat}

/-- The cursor at a position of a text that remembers nothing. -/
def spot (text : List Char) (pos : Nat) : Cursor :=
  ⟨pos, (text.take pos).getLast?, text.drop pos, none⟩

/-- **A cursor stands in a text.** -/
structure In (text : List Char) (c : Cursor) : Prop where
  pos_le : c.pos ≤ text.length
  before_eq : c.before = (text.take c.pos).getLast?
  rest_eq : c.rest = text.drop c.pos

theorem in_spot (le : pos ≤ text.length) : (spot text pos).In text := ⟨le, rfl, rfl⟩

/-- Where nothing is remembered, a cursor is known by its position. -/
theorem In.eq_spot (h : c.In text) (plain : c.passed = none) : c = spot text c.pos := by
  obtain ⟨pos, before, rest, passed⟩ := c
  obtain ⟨-, before_eq, rest_eq⟩ := h
  simp only at before_eq rest_eq plain
  rw [spot, before_eq, rest_eq, plain]

/-- A choice that is passed leaves the cursor where it is. -/
theorem In.pass {address : Address} (h : c.In text) (pass : c.pass? address = some d) :
    d.In text ∧ d.pos = c.pos := by
  rw [pass?] at pass
  split at pass
  · obtain rfl := Option.some.inj pass
    exact ⟨h, rfl⟩
  · split at pass
    · cases pass
    · obtain rfl := Option.some.inj pass
      exact ⟨⟨h.pos_le, h.before_eq, h.rest_eq⟩, rfl⟩

theorem pass?_of_plain {address : Address} (plain : c.passed = none) :
    c.pass? address = some c := by
  rw [pass?, plain]

/-- The next character of the text. -/
theorem In.getElem?_eq {before : Option Char} {x : Char} {rest : List Char}
    {passed : Option (List Address)} (h : Cursor.In text ⟨pos, before, x :: rest, passed⟩) :
    text[pos]? = some x := by
  have split : x :: rest = text.drop pos := h.rest_eq
  rw [← List.head?_drop, ← split, List.head?_cons]

/-- The cursor behind the next character stands in the text as well. -/
theorem In.next {before : Option Char} {x : Char} {rest : List Char}
    {passed passed' : Option (List Address)} (h : Cursor.In text ⟨pos, before, x :: rest, passed⟩) :
    Cursor.In text ⟨pos + 1, some x, rest, passed'⟩ where
  pos_le := (List.getElem?_eq_some_iff.1 h.getElem?_eq).1
  before_eq := by
    change some x = (text.take (pos + 1)).getLast?
    rw [List.take_add_one, h.getElem?_eq, Option.toList_some, List.getLast?_concat]
  rest_eq := by
    have split : x :: rest = text.drop pos := h.rest_eq
    change rest = text.drop (pos + 1)
    rw [← List.tail_drop, ← split, List.tail_cons]

/-- A step leads behind the next character. -/
theorem In.step {chars : CharSet} (h : c.In text) (mem : d ∈ c.step chars) :
    d.In text ∧ d.pos = c.pos + 1 ∧ text[c.pos]?.any chars.contains = true := by
  obtain ⟨pos, before, rest, passed⟩ := c
  rw [Cursor.step] at mem
  split at mem
  · cases mem
  · rename_i x rest split
    obtain rfl : _ = x :: rest := split
    split at mem
    · rename_i contains
      obtain rfl := List.mem_singleton.1 mem
      refine ⟨h.next, rfl, ?_⟩
      change text[pos]?.any chars.contains = true
      rw [h.getElem?_eq, Option.any_some, contains]
    · cases mem

end Cursor

/-- **A condition depends on the characters next to a place.** -/
theorem Look.holds_congr {c d : Cursor} (condition : Look) (before : c.before = d.before)
    (behind : c.rest.head? = d.rest.head?) : condition.holds c = condition.holds d := by
  have empty : c.rest.isEmpty = d.rest.isEmpty := by
    rw [Bool.eq_iff_iff, List.isEmpty_iff, List.isEmpty_iff, ← List.head?_eq_none_iff, behind,
      List.head?_eq_none_iff]
  cases condition <;> simp [holds, holds.wordBefore, holds.wordBehind, before, behind, empty]

namespace Regex

variable {text : List Char} {r : Regex} {address : Address} {c d : Cursor} {i j : Nat}

/-- **Where an expression leads** from a position of a text. -/
def Leads (text : List Char) : Regex → Nat → Nat → Prop
  | empty, i, j => i = j
  | oneOf chars, i, j => i + 1 = j ∧ text[i]?.any chars.contains = true
  | look condition, i, j => i = j ∧ condition.holds (.spot text i) = true
  | seq first second, i, j => ∃ mid, Leads text first i mid ∧ Leads text second mid j
  | alt first second, i, j => Leads text first i j ∨ Leads text second i j
  | plus body _, i, j => TransGen (Leads text body) i j
  | loop body _, i, j => ReflTransGen (Leads text body) i j

/-- An expression leads forward. -/
theorem Leads.le (h : r.Leads text i j) : i ≤ j := by
  induction r generalizing i j with
  | empty => exact h.le
  | oneOf chars => exact h.1 ▸ Nat.le_succ i
  | look condition => exact h.1.le
  | seq first second ih ih' =>
    obtain ⟨mid, before, behind⟩ := h
    exact (ih before).trans (ih' behind)
  | alt first second ih ih' => exact h.elim ih ih'
  | plus body greedy ih =>
    induction h with
    | single step => exact ih step
    | tail _ step before => exact before.trans (ih step)
  | loop body greedy ih =>
    induction h with
    | refl => exact le_rfl
    | tail _ step before => exact before.trans (ih step)

/-! ## Every end is led to -/

section Rounds

variable {body : Cursor → List Cursor} {greedy : Bool} {steps : Nat} {found : List Cursor}
  {P : Cursor → Prop}

theorem forall_foldl {f : List Cursor → Cursor → List Cursor} {ds : List Cursor}
    (keep : ∀ found d, d ∈ ds → (∀ x ∈ found, P x) → ∀ x ∈ f found d, P x)
    (old : ∀ x ∈ found, P x) : ∀ x ∈ ds.foldl f found, P x :=
  List.foldlRecOn ds f (motive := fun found => ∀ x ∈ found, P x) old fun found old d mem =>
    keep found d mem old

/-- **What holds of a cursor and is kept by rounds** holds of all that rounds lead to. -/
theorem forall_rounds (keep : ∀ c, P c → ∀ d ∈ body c, P d)
    (pass : ∀ c d, P c → c.pass? address = some d → P d) (old : ∀ x ∈ found, P x) (here : P c) :
    ∀ x ∈ rounds body address greedy steps found c, P x := by
  induction steps generalizing found c with
  | zero => exact old
  | succ steps ih =>
    rw [rounds]
    split
    · exact old
    · split
      · exact old
      · rename_i c' passed
        have here := pass c c' here passed
        have further (found : List Cursor) (d : Cursor)
            (mem : d ∈ (body c').filter fun d => c'.pos < d.pos) (old : ∀ x ∈ found, P x) :
            ∀ x ∈ rounds body address greedy steps found d, P x :=
          ih old (keep c' here d (List.mem_of_mem_filter mem))
        split
        · exact List.forall_mem_append.2
            ⟨forall_foldl further old, List.forall_mem_singleton.2 here⟩
        · exact forall_foldl further
            (List.forall_mem_append.2 ⟨old, List.forall_mem_singleton.2 here⟩)

theorem forall_roundsAfter (keep : ∀ c, P c → ∀ d ∈ body c, P d)
    (pass : ∀ c d, P c → c.pass? address = some d → P d) (old : ∀ x ∈ found, P x) (here : P d) :
    ∀ x ∈ roundsAfter body address greedy c found d, P x := by
  rw [roundsAfter]
  split
  · split
    · exact old
    · exact List.forall_mem_append.2 ⟨old, fun x mem => pass d x here (by simpa using mem)⟩
  · exact forall_rounds keep pass old here

end Rounds

/-- **Every end is led to.** -/
theorem ends_sound (h : c.In text) :
    ∀ d ∈ r.ends address c, d.In text ∧ r.Leads text c.pos d.pos := by
  induction r generalizing address c with
  | empty => exact List.forall_mem_singleton.2 ⟨h, rfl⟩
  | oneOf chars =>
    intro d mem
    obtain ⟨stands, pos, contains⟩ := h.step mem
    exact ⟨stands, pos.symm, contains⟩
  | look condition =>
    rw [ends]
    split
    · rename_i holds
      have same := condition.holds_congr (d := .spot text c.pos) h.before_eq
        (congrArg List.head? h.rest_eq)
      exact List.forall_mem_singleton.2 ⟨h, rfl, same.symm.trans holds⟩
    · exact List.forall_mem_nil _
  | seq first second ih ih' =>
    intro d mem
    obtain ⟨mid, memMid, mem⟩ := List.mem_flatMap.1 (Cursor.subset_of_distinct _ mem)
    obtain ⟨stands, before⟩ := ih h mid memMid
    obtain ⟨stands', behind⟩ := ih' stands d mem
    exact ⟨stands', _, before, behind⟩
  | alt first second ih ih' =>
    intro d mem
    rw [ends] at mem
    split at mem
    · cases mem
    · rename_i passed
      obtain ⟨stands, pos⟩ := h.pass passed
      rcases List.mem_append.1 (Cursor.subset_of_distinct _ mem) with mem | mem
      · exact (ih stands d mem).imp_right fun leads => .inl (pos ▸ leads)
      · exact (ih' stands d mem).imp_right fun leads => .inr (pos ▸ leads)
  | plus body greedy ih =>
    let P (d : Cursor) : Prop := d.In text ∧ TransGen (body.Leads text) c.pos d.pos
    have keep : ∀ x, P x → ∀ d ∈ body.ends (0 :: address) x, P d := fun x here d mem =>
      (ih here.1 d mem).imp_right here.2.tail
    have pass : ∀ x d, P x → x.pass? address = some d → P d := by
      rintro x d ⟨stands, leads⟩ passed
      obtain ⟨stands, same⟩ := stands.pass passed
      exact ⟨stands, same.symm ▸ leads⟩
    exact forall_foldl (fun found d mem old =>
      forall_roundsAfter keep pass old ((ih h d mem).imp_right .single)) (List.forall_mem_nil P)
  | loop body greedy ih =>
    let P (d : Cursor) : Prop := d.In text ∧ ReflTransGen (body.Leads text) c.pos d.pos
    have keep : ∀ x, P x → ∀ d ∈ body.ends (0 :: address) x, P d := fun x here d mem =>
      (ih here.1 d mem).imp_right here.2.tail
    have pass : ∀ x d, P x → x.pass? address = some d → P d := by
      rintro x d ⟨stands, leads⟩ passed
      obtain ⟨stands, same⟩ := stands.pass passed
      exact ⟨stands, same.symm ▸ leads⟩
    exact forall_rounds keep pass (List.forall_mem_nil P) ⟨h, .refl⟩

/-- **Where nothing is remembered**, nothing will be. -/
theorem passed_ends (plain : c.passed = none) : ∀ d ∈ r.ends address c, d.passed = none := by
  have pass : ∀ (address : Address) (x d : Cursor), x.passed = none → x.pass? address = some d →
      d.passed = none := by
    intro address x d plain passed
    rw [Cursor.pass?_of_plain plain] at passed
    exact Option.some.inj passed ▸ plain
  induction r generalizing address c with
  | empty => exact List.forall_mem_singleton.2 plain
  | oneOf chars =>
    intro d mem
    rw [ends, Cursor.step] at mem
    split at mem
    · cases mem
    · split at mem
      · rw [List.mem_singleton.1 mem, plain, Option.map_none]
      · cases mem
  | look condition =>
    rw [ends]
    split
    · exact List.forall_mem_singleton.2 plain
    · exact List.forall_mem_nil _
  | seq first second ih ih' =>
    intro d mem
    obtain ⟨mid, memMid, mem⟩ := List.mem_flatMap.1 (Cursor.subset_of_distinct _ mem)
    exact ih' (ih plain mid memMid) d mem
  | alt first second ih ih' =>
    intro d mem
    rw [ends, Cursor.pass?_of_plain plain] at mem
    rcases List.mem_append.1 (Cursor.subset_of_distinct _ mem) with mem | mem
    · exact ih plain d mem
    · exact ih' plain d mem
  | plus body greedy ih =>
    exact forall_foldl (fun found d mem old =>
      forall_roundsAfter (fun _ => ih) (pass address) old (ih plain d mem)) (List.forall_mem_nil _)
  | loop body greedy ih =>
    exact forall_rounds (fun _ => ih) (pass address) (List.forall_mem_nil _) plain

/-! ## What is led to is an end -/

/-- A position is listed by a cursor there. -/
def Lists (cs : List Cursor) (pos : Nat) : Prop := ∃ d ∈ cs, d.pos = pos

/-- **Every further position that a round leads to** is listed. -/
def Closed (R : Nat → Nat → Prop) (cs : List Cursor) (pos : Nat) : Prop :=
  ∀ next, R pos next → pos < next → Lists cs next

/-- **A walk adds positions that are closed** when it is done, if those before it were; positions
in `E` are left out of account. -/
structure Walks (R : Nat → Nat → Prop) (E : Nat → Prop) (found longer : List Cursor) : Prop where
  subset : found ⊆ longer
  closed : (∀ pos, Lists found pos → E pos ∨ Closed R found pos) →
    ∀ pos, Lists longer pos → E pos ∨ Closed R longer pos

section Walks

variable {R : Nat → Nat → Prop} {E : Nat → Prop} {cs found longer : List Cursor} {pos : Nat}

theorem Lists.mono (h : Lists found pos) (sub : found ⊆ longer) : Lists longer pos := by
  obtain ⟨d, mem, same⟩ := h
  exact ⟨d, sub mem, same⟩

theorem Closed.mono (h : Closed R found pos) (sub : found ⊆ longer) : Closed R longer pos :=
  fun next round further => (h next round further).mono sub

theorem lists_append_singleton : Lists (cs ++ [c]) pos ↔ Lists cs pos ∨ c.pos = pos := by
  simp [Lists, or_and_right, exists_or]

theorem lists_distinct (h : Lists cs pos) : Lists (Cursor.distinct cs) pos := by
  induction cs with
  | nil => exact h
  | cons c cs ih =>
    obtain ⟨d, mem, rfl⟩ := h
    by_cases same : d.pos = c.pos
    · exact ⟨c, List.mem_cons_self, same.symm⟩
    · have later := (List.mem_cons.1 mem).resolve_left fun here => same (congrArg Cursor.pos here)
      obtain ⟨d', mem', same'⟩ := ih ⟨d, later, rfl⟩
      refine ⟨d', List.mem_cons_of_mem c (List.mem_filter.2 ⟨mem', ?_⟩), same'⟩
      simpa [same'] using same

theorem lists_of_among (h : c.among cs = true) : Lists cs c.pos := by
  obtain ⟨d, mem, same⟩ := List.any_eq_true.1 h
  exact ⟨d, mem, of_decide_eq_true same⟩

namespace Walks

theorem refl : Walks R E found found := ⟨List.Subset.refl _, id⟩

theorem trans {middle : List Cursor} (h : Walks R E found middle) (h' : Walks R E middle longer) :
    Walks R E found longer :=
  ⟨List.Subset.trans h.subset h'.subset, fun old => h'.closed (h.closed old)⟩

/-- One more position that is closed or left out. -/
theorem push (last : E c.pos ∨ Closed R found c.pos) : Walks R E found (found ++ [c]) where
  subset := List.subset_append_left _ _
  closed old pos listed := by
    rcases lists_append_singleton.1 listed with before | rfl
    · exact (old pos before).imp_right (·.mono (List.subset_append_left _ _))
    · exact last.imp_right (·.mono (List.subset_append_left _ _))

/-- A position that was left out is closed in the end. -/
theorem closing (h : Walks R (fun other => E other ∨ other = pos) found longer)
    (last : Closed R longer pos) : Walks R E found longer where
  subset := h.subset
  closed old other listed := by
    rcases h.closed (fun pos before => (old pos before).imp_left .inl) other listed with
      (left | rfl) | closed
    · exact .inl left
    · exact .inr last
    · exact .inr closed

/-- Walks one after the other, from all cursors of a list. -/
theorem foldl {f : List Cursor → Cursor → List Cursor} {ds : List Cursor}
    (step : ∀ found, ∀ d ∈ ds, Walks R E found (f found d) ∧ Lists (f found d) d.pos) :
    Walks R E found (ds.foldl f found) ∧ ∀ d ∈ ds, Lists (ds.foldl f found) d.pos := by
  induction ds generalizing found with
  | nil => exact ⟨.refl, List.forall_mem_nil _⟩
  | cons d ds ih =>
    obtain ⟨first, listed⟩ := step found d List.mem_cons_self
    obtain ⟨others, listed'⟩ : Walks R E (f found d) (ds.foldl f (f found d)) ∧ _ :=
      ih fun found d mem => step found d (List.mem_cons_of_mem _ mem)
    exact ⟨first.trans others, List.forall_mem_cons.2 ⟨listed.mono others.subset, listed'⟩⟩

/-- **What a walk has found is closed under all rounds.** -/
theorem lists_of_reflTransGen {start : Nat}
    (closed : ∀ pos, Lists longer pos → Closed R longer pos) (listed : Lists longer start)
    (forward : ∀ pos next, R pos next → pos ≤ next) (path : ReflTransGen R start pos) :
    Lists longer pos := by
  induction path with
  | refl => exact listed
  | tail _ round ih =>
    rcases Nat.lt_or_eq_of_le (forward _ _ round) with further | rfl
    · exact closed _ ih _ round further
    · exact ih

/-- A walk that leaves nothing out and begins with nothing. -/
theorem all_closed (h : Walks R (fun _ => False) [] longer) (listed : Lists longer pos) :
    Closed R longer pos :=
  (h.closed (fun _ none => by obtain ⟨_, ⟨⟩, -⟩ := none) pos listed).resolve_left id

end Walks

end Walks

section Rounds

variable {R : Nat → Nat → Prop} {E : Nat → Prop} {body : Cursor → List Cursor} {greedy : Bool}
  {steps pos : Nat} {found : List Cursor}
  (spots : ∀ pos ≤ text.length, ∀ d ∈ body (.spot text pos),
    d = .spot text d.pos ∧ pos ≤ d.pos ∧ d.pos ≤ text.length)
  (complete : ∀ pos ≤ text.length, ∀ next, R pos next → Lists (body (.spot text pos)) next)

include spots complete

/-- **The rounds from a position are a walk** that finds it. -/
theorem walks_rounds (enough : text.length < pos + steps) (le : pos ≤ text.length) :
    Walks R E found (rounds body address greedy steps found (.spot text pos))
      ∧ Lists (rounds body address greedy steps found (.spot text pos)) pos := by
  induction steps generalizing E found pos with
  | zero => omega
  | succ steps ih =>
    rw [rounds]
    split
    · rename_i among
      exact ⟨.refl, lists_of_among among⟩
    · rw [Cursor.pass?_of_plain rfl]
      dsimp only
      -- the further cursors, each of which is walked from
      set further := (body (.spot text pos)).filter fun d => (Cursor.spot text pos).pos < d.pos
        with further_eq
      have step {E : Nat → Prop} (found : List Cursor) (d : Cursor) (mem : d ∈ further) :
          Walks R E found (rounds body address greedy steps found d)
            ∧ Lists (rounds body address greedy steps found d) d.pos := by
        obtain ⟨mem, beyond⟩ := List.mem_filter.1 mem
        have beyond : pos < d.pos := of_decide_eq_true beyond
        obtain ⟨same, -, le'⟩ := spots pos le d mem
        rw [same]
        exact ih (by omega) le'
      have last {longer : List Cursor} (all : ∀ d ∈ further, Lists longer d.pos) :
          Closed R longer pos := by
        intro next round beyond
        obtain ⟨d, mem, rfl⟩ := complete pos le next round
        exact all d (List.mem_filter.2 ⟨mem, decide_eq_true beyond⟩)
      split
      · obtain ⟨walk, all⟩ : Walks R E found (further.foldl _ found) ∧ _ := Walks.foldl step
        exact ⟨walk.trans (.push (.inr (last all))), lists_append_singleton.2 (.inr rfl)⟩
      · obtain ⟨walk, all⟩ : Walks R (fun other => E other ∨ other = pos)
            (found ++ [.spot text pos]) (further.foldl _ _) ∧ _ := Walks.foldl step
        refine ⟨((Walks.push (.inl (.inr rfl))).trans walk).closing (last all), ?_⟩
        exact (lists_append_singleton.2 (.inr rfl)).mono walk.subset

/-- **So are the rounds after a first one**, apart from the position that this one began at. -/
theorem walks_roundsAfter (le : pos ≤ text.length) {d : Cursor} (mem : d ∈ body (.spot text pos)) :
    Walks R (fun other => E other ∨ other = pos) found
        (roundsAfter body address greedy (.spot text pos) found d)
      ∧ Lists (roundsAfter body address greedy (.spot text pos) found d) d.pos := by
  obtain ⟨same, forward, le'⟩ := spots pos le d mem
  rw [roundsAfter]
  split
  · rename_i stays
    have empty : d.pos = pos := Nat.le_antisymm stays forward
    split
    · rename_i among
      exact ⟨.refl, lists_of_among among⟩
    · have plain : d.passed = none := by rw [same, Cursor.spot]
      rw [Cursor.pass?_of_plain plain, Option.toList_some]
      exact ⟨.push (.inl (.inr empty)), lists_append_singleton.2 (.inr rfl)⟩
  · have rest : d.rest = text.drop d.pos := by rw [same, Cursor.spot]
    have enough : text.length < d.pos + (d.rest.length + 1) := by
      rw [rest, List.length_drop]
      omega
    generalize d.rest.length + 1 = steps at enough
    generalize d.pos = pos at same le' enough
    rw [same]
    exact walks_rounds spots complete enough le'

end Rounds

/-- **Where nothing is remembered, what is led to is an end.** -/
theorem lists_ends (le : i ≤ text.length) (h : r.Leads text i j) :
    Lists (r.ends address (.spot text i)) j := by
  have spots (r : Regex) (address : Address) : ∀ pos ≤ text.length,
      ∀ d ∈ r.ends address (.spot text pos),
        d = .spot text d.pos ∧ pos ≤ d.pos ∧ d.pos ≤ text.length := by
    intro pos le d mem
    obtain ⟨stands, leads⟩ := ends_sound (Cursor.in_spot le) d mem
    exact ⟨stands.eq_spot (passed_ends rfl d mem), leads.le, stands.pos_le⟩
  induction r generalizing address i j with
  | empty => exact ⟨_, List.mem_singleton_self _, h⟩
  | oneOf chars =>
    obtain ⟨rfl, contains⟩ := h
    obtain ⟨x, atPos, contains⟩ := (Option.any_eq_true _ _).1 contains
    obtain ⟨bound, rfl⟩ := List.getElem?_eq_some_iff.1 atPos
    rw [ends, Cursor.step, Cursor.spot, List.drop_eq_getElem_cons bound]
    simp [Lists, contains]
  | look condition =>
    rw [ends, if_pos h.2]
    exact ⟨_, List.mem_singleton_self _, h.1⟩
  | seq first second ih ih' =>
    obtain ⟨mid, before, behind⟩ := h
    obtain ⟨d, mem, rfl⟩ := ih le before
    obtain ⟨same, -, le'⟩ := spots first _ i le d mem
    obtain ⟨e, mem', rfl⟩ := ih' le' behind
    exact lists_distinct ⟨e, List.mem_flatMap.2 ⟨d, mem, same ▸ mem'⟩, rfl⟩
  | alt first second ih ih' =>
    rw [ends, Cursor.pass?_of_plain rfl]
    refine lists_distinct ?_
    rcases h with h | h
    · exact (ih le h).mono (List.subset_append_left _ _)
    · exact (ih' le h).mono (List.subset_append_right _ _)
  | plus body greedy ih =>
    have complete : ∀ pos ≤ text.length, ∀ next, body.Leads text pos next →
        Lists (body.ends (0 :: address) (.spot text pos)) next := fun _ le _ => ih le
    obtain ⟨walk, all⟩ : Walks (body.Leads text) (fun other => False ∨ other = i) []
        ((plus body greedy).ends address (.spot text i)) ∧ _ :=
      Walks.foldl fun found d mem => walks_roundsAfter (spots body _) complete le mem
    have walk := walk.closing fun next leads _ => by
      obtain ⟨d, mem, rfl⟩ := complete i le next leads
      exact all d mem
    obtain ⟨mid, first, others⟩ := TransGen.head'_iff.1 h
    obtain ⟨d, mem, rfl⟩ := complete i le mid first
    exact Walks.lists_of_reflTransGen (fun _ => walk.all_closed) (all d mem) (fun _ _ => Leads.le)
      others
  | loop body greedy ih =>
    have complete : ∀ pos ≤ text.length, ∀ next, body.Leads text pos next →
        Lists (body.ends (0 :: address) (.spot text pos)) next := fun _ le _ => ih le
    have enough : text.length < i + ((Cursor.spot text i).rest.length + 1) := by
      rw [Cursor.spot, List.length_drop]
      omega
    obtain ⟨walk, listed⟩ := walks_rounds (spots body _) complete enough le
    exact Walks.lists_of_reflTransGen (fun _ => walk.all_closed) listed (fun _ _ => Leads.le) h

/-! ## Matches in a text -/

/-- **A match that is found is led to** from where it begins. -/
theorem leads_of_findFrom {passed : Option (List Address)} {pos : Nat} {before : Option Char}
    {rest : List Char} (h : Cursor.In text ⟨pos, before, rest, passed⟩)
    (found : r.findFrom passed pos before rest = some d) :
    d.pos ≤ text.length ∧ ∃ start, r.Leads text start d.pos := by
  have here {pos : Nat} {before : Option Char} {rest : List Char}
      (h : Cursor.In text ⟨pos, before, rest, passed⟩)
      (found : (r.ends [] ⟨pos, before, rest, passed⟩).head? = some d) :
      d.pos ≤ text.length ∧ ∃ start, r.Leads text start d.pos := by
    obtain ⟨stands, leads⟩ := ends_sound h d (List.mem_of_mem_head? found)
    exact ⟨stands.pos_le, pos, leads⟩
  induction rest generalizing pos before with
  | nil => exact here h found
  | cons x rest ih =>
    rw [findFrom] at found
    split at found
    · rename_i first
      exact here h (first.trans found)
    · exact ih h.next found

/-- **What an expression leads to anywhere in a text is a match.** -/
theorem isSome_findFrom {pos : Nat} {before : Option Char} {rest : List Char}
    (h : Cursor.In text ⟨pos, before, rest, none⟩) (le : pos ≤ i) (le' : i ≤ text.length)
    (leads : r.Leads text i j) : (r.findFrom none pos before rest).isSome = true := by
  have here {before : Option Char} {rest : List Char}
      (h : Cursor.In text ⟨i, before, rest, none⟩) :
      ∃ d, (r.ends [] ⟨i, before, rest, none⟩).head? = some d := by
    obtain ⟨d, mem, -⟩ : Lists (r.ends [] (.spot text i)) j := lists_ends le' leads
    rw [← h.eq_spot rfl] at mem
    exact ⟨_, List.head?_eq_some_head (List.ne_nil_of_mem mem)⟩
  induction rest generalizing pos before with
  | nil =>
    have length : text.length ≤ pos := by simpa using h.rest_eq.symm
    obtain rfl : pos = i := by omega
    obtain ⟨d, first⟩ := here h
    rw [findFrom, first, Option.isSome_some]
  | cons x rest ih =>
    rw [findFrom]
    rcases Nat.lt_or_eq_of_le le with lt | rfl
    · split
      · exact Option.isSome_some
      · exact ih h.next lt
    · obtain ⟨d, first⟩ := here h
      rw [first, Option.isSome_some]

/-- The first match ends where the expression leads to. -/
theorem leads_of_find? (found : r.find? text = some d) :
    d.pos ≤ text.length ∧ ∃ start, r.Leads text start d.pos :=
  leads_of_findFrom ⟨Nat.zero_le _, rfl, rfl⟩ found

/-- **A match in a text** is somewhere that the expression leads to. -/
theorem leads_of_isMatch (h : r.isMatch text = true) :
    ∃ start stop, stop ≤ text.length ∧ r.Leads text start stop := by
  obtain ⟨d, found⟩ := Option.isSome_iff_exists.1 h
  obtain ⟨le, start, leads⟩ := leads_of_findFrom ⟨Nat.zero_le _, rfl, rfl⟩ found
  exact ⟨start, d.pos, le, leads⟩

theorem isMatch_of_leads (le : i ≤ text.length) (leads : r.Leads text i j) :
    r.isMatch text = true :=
  isSome_findFrom ⟨Nat.zero_le _, rfl, rfl⟩ (Nat.zero_le i) le leads

end Regex

end Earley
