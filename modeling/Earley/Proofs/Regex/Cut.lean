import Earley.Proofs.Regex.Paths

/-!
# Proofs/Regex/Cut — what is left of a match when the text behind it is cut off

An expression sees no more of a text than the characters that it reads and, by its conditions, those
around the places that it comes to.  At the end of a match these conditions see one character
further.  Most of them hold at the end of a text as soon as they hold before a character.  Those on
word boundaries need not, and an expression in which one of them may stand at the end of a match
watches the character behind (`Regex.watches`).  Apart from these, and before a character that
belongs to no word in any case, what leads to a place still does so when the text is cut off there
(`Regex.Leads.take`).
-/

namespace Earley

open Relation

/-- Whether a condition may hold before a word character and fail at the end of a text. -/
def Look.watches : Look → Bool
  | wordBoundary => true
  | noWordBoundary => true
  | wordStart => true
  | _ => false

/-- **What holds before a character holds at the end of a text**, unless it watches the character
and this one belongs to a word. -/
theorem Look.holds_of_end {c d : Cursor} {condition : Look} (before : c.before = d.before)
    (ends : d.rest = [])
    (free : condition.watches = false ∨ c.rest.head?.any Unicode.isWord = false)
    (h : condition.holds c = true) : condition.holds d = true := by
  cases condition with
  | lineStart crlf =>
    rw [holds, before] at h
    rw [holds, ends]
    cases last : d.before with
    | none => rfl
    | some x =>
      simp only [last, Option.all_some, Bool.or_eq_true, Bool.and_eq_true] at h ⊢
      exact h.imp_right fun both => ⟨both.1, rfl⟩
  | _ => simp_all [watches, holds, holds.wordBefore, holds.wordBehind]

namespace Regex

variable {text : List Char} {r : Regex} {i j n : Nat}

/-- **Whether an expression watches the character behind its end**: a condition that does may stand
at the end of a match. -/
def watches : Regex → Bool
  | empty => false
  | oneOf _ => false
  | look condition => condition.watches
  | seq first second => second.watches || (second.isNullable && first.watches)
  | alt first second => first.watches || second.watches
  | plus body _ => body.watches
  | loop body _ => body.watches

/-- **An expression that cannot match the empty text leads further.** -/
theorem Leads.lt (h : r.Leads text i j) (reads : r.isNullable = false) : i < j := by
  induction r generalizing i j with
  | empty => cases reads
  | oneOf chars => exact h.1 ▸ Nat.lt_succ_self i
  | look condition => cases reads
  | seq first second ih ih' =>
    obtain ⟨mid, before, behind⟩ := h
    rcases Bool.and_eq_false_iff.1 reads with reads | reads
    · exact (ih before reads).trans_le behind.le
    · exact before.le.trans_lt (ih' behind reads)
  | alt first second ih ih' =>
    obtain ⟨reads, reads'⟩ := Bool.or_eq_false_iff.1 reads
    exact h.elim (ih · reads) (ih' · reads')
  | plus body greedy ih =>
    induction h with
    | single step => exact ih step reads
    | tail _ step before => exact before.trans (ih step reads)
  | loop body greedy ih => cases reads

/-- **What leads to a place still does when the text is cut off behind it**, unless the expression
watches the character that is cut off and this one belongs to a word. -/
theorem Leads.take (bound : n ≤ text.length) (h : r.Leads text i j) (le : j ≤ n)
    (free : j = n → r.watches = false ∨ text[n]?.any Unicode.isWord = false) :
    r.Leads (text.take n) i j := by
  induction r generalizing i j with
  | empty => exact h
  | oneOf chars =>
    obtain ⟨rfl, contains⟩ := h
    refine ⟨rfl, ?_⟩
    rwa [List.getElem?_take_of_lt le]
  | look condition =>
    obtain ⟨rfl, holds⟩ := h
    refine ⟨rfl, ?_⟩
    have before : (Cursor.spot text i).before = (Cursor.spot (text.take n) i).before := by
      rw [Cursor.spot, Cursor.spot, List.take_take, Nat.min_eq_left le]
    rcases Nat.lt_or_eq_of_le le with lt | rfl
    · have behind : (Cursor.spot text i).rest.head? = (Cursor.spot (text.take n) i).rest.head? := by
        simp [Cursor.spot, List.getElem?_take_of_lt lt]
      exact (condition.holds_congr before behind).symm.trans holds
    · refine Look.holds_of_end before ?_ ?_ holds
      · rw [Cursor.spot, List.drop_take_self]
      · have free : condition.watches = false ∨ _ := free rfl
        simpa [Cursor.spot] using free
  | seq first second ih ih' =>
    obtain ⟨mid, before, behind⟩ := h
    refine ⟨mid, ih before (behind.le.trans le) fun same => ?_, ih' behind le fun same => ?_⟩
    · -- the second expression matches the empty text here
      obtain rfl : j = n := Nat.le_antisymm le (same ▸ behind.le)
      refine (free rfl).imp_left fun unwatched => ?_
      have nullable : second.isNullable = true := by
        by_contra reads
        exact absurd same (behind.lt (Bool.eq_false_iff.2 reads)).ne
      rw [watches, nullable, Bool.true_and] at unwatched
      exact (Bool.or_eq_false_iff.1 unwatched).2
    · exact (free same).imp_left fun unwatched => (Bool.or_eq_false_iff.1 unwatched).1
  | alt first second ih ih' =>
    rcases h with h | h
    · exact .inl (ih h le fun same => (free same).imp_left fun unwatched =>
        (Bool.or_eq_false_iff.1 unwatched).1)
    · exact .inr (ih' h le fun same => (free same).imp_left fun unwatched =>
        (Bool.or_eq_false_iff.1 unwatched).2)
  | plus body greedy ih =>
    induction h with
    | single step => exact .single (ih step le free)
    | tail _ step before =>
      have le' := step.le.trans le
      refine (before le' fun same => free ?_).tail (ih step le free)
      exact Nat.le_antisymm le (same ▸ step.le)
  | loop body greedy ih =>
    induction h with
    | refl => exact .refl
    | tail _ step before =>
      have le' := step.le.trans le
      refine (before le' fun same => free ?_).tail (ih step le free)
      exact Nat.le_antisymm le (same ▸ step.le)

end Regex

end Earley
