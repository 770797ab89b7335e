import Earley.Regex.Basic
import Mathlib.Data.List.Basic

/-!
# Proofs/Regex — expressions that leave no choice

An expression that is tied to the beginning of a text matches there or nowhere
(`Regex.find?_textStart`).  A greedy repetition whose body leads on to one cursor at most goes from
round to round until the body leads nowhere, and its best end is the last one
(`Regex.rounds_of_next`, `Regex.rounds_of_stuck`); over one set of characters this is the end of
their longest run (`Regex.exists_ends_loop_oneOf`).
-/

namespace Earley

theorem CharSet.contains_single {a c : Char} : (single a).contains c = decide (c = a) := by
  rw [single, contains, ← Bool.decide_and, decide_eq_decide]
  refine ⟨fun ⟨low, high⟩ => Char.le_antisymm high low, ?_⟩
  rintro rfl
  exact ⟨Char.le_refl _, Char.le_refl _⟩

namespace Cursor

@[simp] theorem distinct_nil : distinct [] = [] := rfl

@[simp] theorem distinct_singleton (c : Cursor) : distinct [c] = [c] := rfl

/-- The best cursor stays the best one. -/
theorem head?_distinct (cs : List Cursor) : (distinct cs).head? = cs.head? := by
  cases cs <;> rfl

theorem subset_of_distinct (cs : List Cursor) : distinct cs ⊆ cs := by
  induction cs with
  | nil => exact List.Subset.refl _
  | cons c cs ih =>
    exact List.cons_subset_cons c (List.Subset.trans (List.filter_subset_self _) ih)

/-- The cursors behind the best one are among those behind it before. -/
theorem exists_distinct_cons (c : Cursor) (cs : List Cursor) :
    ∃ others, distinct (c :: cs) = c :: others ∧ others ⊆ cs :=
  ⟨_, rfl, List.Subset.trans (List.filter_subset_self _) (subset_of_distinct cs)⟩

theorem step_nil {chars : CharSet} {pos : Nat} {before : Option Char}
    {passed : Option (List Address)} : step chars ⟨pos, before, [], passed⟩ = [] := rfl

/-- A step over a character of the set forgets the choices that were passed. -/
theorem step_of_contains {chars : CharSet} {pos : Nat} {before : Option Char} {x : Char}
    {rest : List Char} {passed : List Address} (h : chars.contains x = true) :
    step chars ⟨pos, before, x :: rest, some passed⟩ = [⟨pos + 1, some x, rest, some []⟩] :=
  if_pos h

theorem step_of_not_contains {chars : CharSet} {pos : Nat} {before : Option Char} {x : Char}
    {rest : List Char} {passed : Option (List Address)} (h : chars.contains x = false) :
    step chars ⟨pos, before, x :: rest, passed⟩ = [] :=
  if_neg (by simp [h])

end Cursor

namespace Regex

variable {body : Regex} {address : Address} {pos : Nat} {before : Option Char} {text : List Char}

/-! ## Beginnings -/

theorem ends_seq_textStart {passed : Option (List Address)} :
    (seq (look .textStart) body).ends address ⟨pos, none, text, passed⟩
      = Cursor.distinct (body.ends (1 :: address) ⟨pos, none, text, passed⟩) := by
  simp [ends, Look.holds]

/-- Behind a character no text begins. -/
theorem findFrom_textStart_behind {passed : Option (List Address)} {x : Char} :
    (seq (look .textStart) body).findFrom passed pos (some x) text = none := by
  have none : ∀ rest, (seq (look .textStart) body).ends [] ⟨pos, some x, rest, passed⟩ = [] := by
    intro rest
    simp [ends, Look.holds]
  induction text generalizing pos x with
  | nil => simp [findFrom, none]
  | cons y rest ih =>
    rw [findFrom, none]
    exact ih fun rest => by simp [ends, Look.holds]

/-- **An expression tied to the beginning** matches there or nowhere. -/
theorem find?_textStart : (seq (look .textStart) body).find? text
    = (body.ends [1] ⟨0, none, text, some []⟩).head? := by
  cases text with
  | nil => rw [find?, findFrom, ends_seq_textStart, Cursor.head?_distinct]
  | cons x rest =>
    rw [find?, findFrom, ends_seq_textStart, Cursor.head?_distinct, findFrom_textStart_behind]
    cases (body.ends [1] ⟨0, none, x :: rest, some []⟩).head? <;> rfl

/-- Behind a character of a set an expression goes on. -/
theorem ends_seq_oneOf {chars : CharSet} {x : Char} {passed : List Address}
    (h : chars.contains x = true) :
    (seq (oneOf chars) body).ends address ⟨pos, before, x :: text, some passed⟩
      = Cursor.distinct (body.ends (1 :: address) ⟨pos + 1, some x, text, some []⟩) := by
  rw [ends, ends, Cursor.step_of_contains h, List.flatMap_singleton]

theorem ends_seq_oneOf_of_not {chars : CharSet} {x : Char} {passed : Option (List Address)}
    (h : chars.contains x = false) :
    (seq (oneOf chars) body).ends address ⟨pos, before, x :: text, passed⟩ = [] := by
  rw [ends, ends, Cursor.step_of_not_contains h, List.flatMap_nil, Cursor.distinct_nil]

/-! ## Best ends -/

section Best

variable {first second : Regex} {c mid last : Cursor} {passed : List Address}

/-- **The best end of a sequence** is behind the best end of its first part. -/
theorem head?_ends_seq (h : (first.ends (0 :: address) c).head? = some mid)
    (h' : (second.ends (1 :: address) mid).head? = some last) :
    ((seq first second).ends address c).head? = some last := by
  obtain ⟨others, same⟩ := List.head?_eq_some_iff.1 h
  obtain ⟨others', same'⟩ := List.head?_eq_some_iff.1 h'
  rw [ends, Cursor.head?_distinct, same, List.flatMap_cons, same']
  rfl

theorem ends_seq_of_nil (h : first.ends (0 :: address) c = []) :
    (seq first second).ends address c = [] := by
  rw [ends, h, List.flatMap_nil, Cursor.distinct_nil]

/-- **The best end of a choice** that was not passed is the best end of its first part, or else the
best of its second. -/
theorem head?_ends_alt (fresh : address ∉ passed) :
    ((alt first second).ends address ⟨pos, before, text, some passed⟩).head?
      = (first.ends (0 :: address) ⟨pos, before, text, some (address :: passed)⟩).head?.or
        (second.ends (1 :: address) ⟨pos, before, text, some (address :: passed)⟩).head? := by
  have pass : Cursor.pass? address ⟨pos, before, text, some passed⟩
      = some ⟨pos, before, text, some (address :: passed)⟩ := if_neg fresh
  rw [ends, pass]
  exact (Cursor.head?_distinct _).trans List.head?_append

end Best

/-! ## Repetitions -/

section Rounds

variable {round : Cursor → List Cursor} {steps : Nat}

/-- **A round that leads on** to one cursor makes all further ones better ends. -/
theorem rounds_of_next {next : Cursor}
    (h : round ⟨pos, before, text, some [address]⟩ = [next]) (lt : pos < next.pos) :
    rounds round address true (steps + 1) [] ⟨pos, before, text, some []⟩
      = rounds round address true steps [] next ++ [⟨pos, before, text, some [address]⟩] := by
  simp [rounds, Cursor.among, Cursor.pass?, h, lt]

/-- **A round that leads nowhere** is the last. -/
theorem rounds_of_stuck (h : round ⟨pos, before, text, some [address]⟩ = []) :
    rounds round address true (steps + 1) [] ⟨pos, before, text, some []⟩
      = [⟨pos, before, text, some [address]⟩] := by
  simp [rounds, Cursor.among, Cursor.pass?, h]

/-- **A cursor behind the longest run** of characters of a set, past the choice to go on. -/
structure BehindRun (chars : CharSet) (address : Address) (pos : Nat) (text : List Char)
    (best : Cursor) : Prop where
  pos_eq : best.pos = pos + (text.takeWhile chars.contains).length
  rest_eq : best.rest = text.dropWhile chars.contains
  passed_eq : best.passed = some [address]

/-- A repetition over a set of characters ends best behind their longest run. -/
theorem exists_rounds_oneOf {chars : CharSet} {inner : Address} (enough : text.length < steps) :
    ∃ best others, rounds ((oneOf chars).ends inner) address true steps []
        ⟨pos, before, text, some []⟩ = best :: others ∧ BehindRun chars address pos text best := by
  induction text generalizing pos before steps with
  | nil =>
    obtain ⟨steps, rfl⟩ := Nat.exists_eq_add_one_of_ne_zero (Nat.ne_zero_of_lt enough)
    exact ⟨_, [], rounds_of_stuck Cursor.step_nil, rfl, rfl, rfl⟩
  | cons x rest ih =>
    obtain ⟨steps, rfl⟩ := Nat.exists_eq_add_one_of_ne_zero (Nat.ne_zero_of_lt enough)
    cases inside : chars.contains x with
    | false =>
      exact ⟨_, [], rounds_of_stuck (Cursor.step_of_not_contains inside), by simp [inside],
        by simp [inside], rfl⟩
    | true =>
      obtain ⟨best, others, same, run⟩ :=
        @ih (pos + 1) (some x) steps (Nat.lt_of_succ_lt_succ enough)
      have next : (oneOf chars).ends inner ⟨pos, before, x :: rest, some [address]⟩ = [_] :=
        Cursor.step_of_contains inside
      refine ⟨best, others ++ [⟨pos, before, x :: rest, some [address]⟩], ?_, ?_, ?_,
        run.passed_eq⟩
      · rw [rounds_of_next next (Nat.lt_succ_self pos), same]
        rfl
      · rw [run.pos_eq, List.takeWhile_cons_of_pos inside, List.length_cons]
        omega
      · rw [run.rest_eq, List.dropWhile_cons_of_pos inside]

theorem exists_ends_loop_oneOf (chars : CharSet) (address : Address) (pos : Nat)
    (before : Option Char) (text : List Char) :
    ∃ best others, (loop (oneOf chars) true).ends address ⟨pos, before, text, some []⟩
        = best :: others ∧ BehindRun chars address pos text best :=
  exists_rounds_oneOf (Nat.lt_succ_self _)

/-- At least one round ends behind the first character and the longest run behind that. -/
theorem exists_ends_plus_oneOf {chars : CharSet} {x : Char} {passed : List Address}
    (h : chars.contains x = true) :
    ∃ best others, (plus (oneOf chars) true).ends address ⟨pos, before, x :: text, some passed⟩
        = best :: others ∧ BehindRun chars address (pos + 1) text best := by
  obtain ⟨best, others, same, run⟩ :=
    @exists_rounds_oneOf address (pos + 1) (some x) text _ chars (0 :: address)
      (Nat.lt_succ_self _)
  refine ⟨best, others, ?_, run⟩
  have further : ¬ pos + 1 ≤ pos := by omega
  rw [ends, ends, Cursor.step_of_contains h, List.foldl_cons, List.foldl_nil, roundsAfter,
    if_neg further]
  exact same

theorem ends_plus_oneOf_of_not {chars : CharSet} {x : Char} {passed : Option (List Address)}
    (h : chars.contains x = false) :
    (plus (oneOf chars) true).ends address ⟨pos, before, x :: text, passed⟩ = [] := by
  rw [ends, ends, Cursor.step_of_not_contains h, List.foldl_nil]

end Rounds

end Regex

end Earley
