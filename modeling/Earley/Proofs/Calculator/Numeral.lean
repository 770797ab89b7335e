import Earley.Calculator
import Earley.Proofs.Lexer
import Earley.Proofs.Regex.Engine

/-!
# Proofs/Calculator/Numeral — what the pattern of numerals matches

The pattern matches the longest run of digits, with a point behind it and the digits behind that, or
a point and at least one digit (`matchLength?_number`).  So it matches a numeral as a whole where
neither a digit nor a point follows (`IsNumeral.matchLength?`), and every match begins with a digit
or a point.  Neither of them is blank.
-/

namespace Earley

open Regex
open Unicode (isDecimalDigit isBlank)

/-! ## Blanks and digits -/

namespace Unicode

/-- What is found in a table is in one of its ranges. -/
theorem RangeTable.exists_of_search {table : RangeTable} {code fuel lo hi : Nat}
    (h : search table code fuel lo hi = true) :
    ∃ range ∈ table.toList, range.1 ≤ code ∧ code ≤ range.2 := by
  fun_induction search table code fuel lo hi with
  | case1 => exact nomatch h
  | case2 => exact nomatch h
  | case3 => exact nomatch h
  | case4 _ _ _ _ _ _ _ _ _ ih => exact ih h
  | case5 _ _ _ _ _ _ _ _ _ _ ih => exact ih h
  | case6 fuel lo hi _ mid first last place low high =>
    exact ⟨(first, last), Array.mem_toList_iff.2 (Array.mem_of_getElem? place),
      Nat.not_lt.1 low, Nat.not_lt.1 high⟩

/-- The ranges of digits and those of blanks are apart. -/
theorem digitRanges_apart : ∀ digits ∈ digitRanges.toList, ∀ blanks ∈ blankRanges.toList,
    digits.2 < blanks.1 ∨ blanks.2 < digits.1 := by
  decide +kernel

/-- **No digit is blank.** -/
theorem not_isBlank_of_isDecimalDigit {c : Char} (h : isDecimalDigit c = true) :
    isBlank c = false := by
  by_contra blank
  rw [Bool.not_eq_false] at blank
  by_cases ascii : c.toNat < 0x80
  · rw [isDecimalDigit, if_pos ascii] at h
    rw [isBlank, if_pos ascii] at blank
    have low : 48 ≤ c.toNat :=
      UInt32.le_iff_toNat_le.1 (of_decide_eq_true (Bool.and_eq_true_iff.1 h).1)
    rcases Bool.or_eq_true_iff.1 blank with space | control
    · rw [eq_of_beq space] at low
      exact absurd low (by decide)
    · have high := of_decide_eq_true (Bool.and_eq_true_iff.1 control).2
      omega
  · rw [isDecimalDigit, if_neg ascii] at h
    rw [isBlank, if_neg ascii] at blank
    obtain ⟨digits, mem, low, high⟩ := RangeTable.exists_of_search h
    obtain ⟨blanks, mem', low', high'⟩ := RangeTable.exists_of_search blank
    have := digitRanges_apart digits mem blanks mem'
    omega

end Unicode

namespace Calculator

/-! ## Numerals -/

/-- **Numerals**: digits, with a point among them, before or behind them. -/
inductive IsNumeral : List Char → Prop
  | whole {digits : List Char} (some : digits ≠ [])
      (all : ∀ c ∈ digits, isDecimalDigit c = true) : IsNumeral digits
  | point {digits decimals : List Char} (some : digits ≠ [] ∨ decimals ≠ [])
      (all : ∀ c ∈ digits, isDecimalDigit c = true)
      (all' : ∀ c ∈ decimals, isDecimalDigit c = true) : IsNumeral (digits ++ '.' :: decimals)

/-- The length of a point at the beginning of a text and the digits behind it. -/
def fractionLength : List Char → Nat
  | [] => 0
  | c :: rest => if c = '.' then (rest.takeWhile isDecimalDigit).length + 1 else 0

/-- **The length of the longest numeral** at the beginning of a text; a point alone is none. -/
def numeralLength? (text : List Char) : Option Nat :=
  let digits := text.takeWhile isDecimalDigit
  let length := digits.length + fractionLength (text.dropWhile isDecimalDigit)
  if digits = [] ∧ length ≤ 1 then none else some length

/-- Possibly a point and digits. -/
def fractionRegex : Regex :=
  alt (seq (oneOf (.single '.')) (loop (oneOf .digit) true)) empty

/-- A point and digits. -/
def pointRegex : Regex := seq (oneOf (.single '.')) (plus (oneOf .digit) true)

variable {text : List Char} {x : Char} {address : Address} {pos : Nat} {before : Option Char}
  {passed : List Address}

theorem contains_digit : CharSet.digit.contains = isDecimalDigit := rfl

/-- **A fraction is matched** as far as it goes. -/
theorem exists_head?_ends_fractionRegex (fresh : address ∉ passed) :
    ∃ last, (fractionRegex.ends address ⟨pos, before, text, some passed⟩).head? = some last
      ∧ last.pos = pos + fractionLength text := by
  rw [fractionRegex, head?_ends_alt fresh]
  cases text with
  | nil => exact ⟨_, rfl, rfl⟩
  | cons x rest =>
    by_cases point : x = '.'
    · subst point
      obtain ⟨best, others, same, run⟩ := exists_ends_loop_oneOf .digit (1 :: 0 :: address)
        (pos + 1) (some '.') rest
      rw [ends_seq_oneOf (CharSet.contains_single.trans (by decide)), same, Cursor.head?_distinct]
      refine ⟨best, rfl, ?_⟩
      rw [run.pos_eq, contains_digit, fractionLength, if_pos rfl]
      omega
    · rw [ends_seq_oneOf_of_not (CharSet.contains_single.trans (by simpa using point))]
      refine ⟨_, rfl, ?_⟩
      rw [fractionLength, if_neg point]
      rfl

/-- **Digits and a fraction are matched** as far as they go. -/
theorem exists_head?_ends_digits (first : isDecimalDigit x = true) :
    ∃ last, ((seq (plus (oneOf .digit) true) fractionRegex).ends address
        ⟨pos, before, x :: text, some passed⟩).head? = some last
      ∧ numeralLength? (x :: text) = some (last.pos - pos) := by
  obtain ⟨⟨_, before', _, _⟩, others, same, rfl, rfl, rfl⟩ :=
    @exists_ends_plus_oneOf (0 :: address) pos before text .digit x passed first
  have fresh : 1 :: address ∉ [0 :: address] := by simp
  obtain ⟨last, fraction, place⟩ := exists_head?_ends_fractionRegex fresh
  refine ⟨last, head?_ends_seq (congrArg List.head? same) fraction, ?_⟩
  rw [place, contains_digit, numeralLength?, List.takeWhile_cons_of_pos first,
    List.dropWhile_cons_of_pos first, if_neg (fun none => List.cons_ne_nil _ _ none.1),
    List.length_cons]
  congr 1
  omega

/-- **A point and digits are matched** as far as they go, if there are any. -/
theorem head?_ends_pointRegex (first : isDecimalDigit x = false) :
    (pointRegex.ends address ⟨pos, before, x :: text, some passed⟩).head?.map (·.pos - pos)
      = numeralLength? (x :: text) := by
  have none : ¬ isDecimalDigit x = true := by simp [first]
  rw [numeralLength?, List.takeWhile_cons_of_neg none, List.dropWhile_cons_of_neg none,
    List.length_nil, Nat.zero_add, fractionLength, pointRegex]
  by_cases point : x = '.'
  · subst point
    rw [ends_seq_oneOf (CharSet.contains_single.trans (by decide)), Cursor.head?_distinct,
      if_pos rfl]
    cases text with
    | nil => rfl
    | cons y rest =>
      cases second : isDecimalDigit y with
      | true =>
        obtain ⟨best, others, same, run⟩ :=
          @exists_ends_plus_oneOf (1 :: address) (pos + 1) (some '.') rest .digit y [] second
        have some : ¬ ((y :: rest).takeWhile isDecimalDigit).length + 1 ≤ 1 := by simp [second]
        rw [same, if_neg (fun none => some none.2), List.takeWhile_cons_of_pos second,
          List.length_cons, List.head?_cons, Option.map_some, run.pos_eq, contains_digit]
        congr 1
        omega
      | false =>
        have digits : CharSet.digit.contains y = false := second
        rw [ends_plus_oneOf_of_not digits, if_pos (by simp [second])]
        rfl
  · rw [ends_seq_oneOf_of_not (CharSet.contains_single.trans (by simpa using point)),
      if_neg point]
    rfl

/-- **Numerals are matched** as far as they go. -/
theorem matchLength?_number : number.matchLength? text = numeralLength? text := by
  have read : Regex.read? ("^(?:".toList ++ "\\d+(\\.\\d*)?|\\.\\d+".toList ++ ")".toList)
      = some (seq (look .textStart)
          (alt (seq (plus (oneOf .digit) true) fractionRegex) pointRegex)) := rfl
  rw [number, Pattern.matchLength?_ofSource read, find?_textStart, head?_ends_alt List.not_mem_nil]
  cases text with
  | nil => rfl
  | cons x rest =>
    cases first : isDecimalDigit x with
    | true =>
      obtain ⟨last, best, same⟩ := @exists_head?_ends_digits rest x [0, 1] 0 none [[1]] first
      rw [best, same]
      rfl
    | false =>
      have digits : CharSet.digit.contains x = false := first
      rw [ends_seq_of_nil (ends_plus_oneOf_of_not digits), ← head?_ends_pointRegex first]
      rfl

/-! ## What is matched -/

theorem numeralLength?_eq_some {length : Nat} (h : numeralLength? text = some length) :
    length = (text.takeWhile isDecimalDigit).length
        + fractionLength (text.dropWhile isDecimalDigit)
      ∧ (text.takeWhile isDecimalDigit = [] → 1 < length) := by
  rw [numeralLength?, Option.ite_none_left_eq_some] at h
  obtain ⟨some, same⟩ := h
  obtain rfl := Option.some.inj same
  exact ⟨rfl, fun none => Nat.not_le.1 fun le => some ⟨none, le⟩⟩

/-- **No match is empty.** -/
theorem numeralLength_pos {length : Nat} (h : numeralLength? text = some length) : 0 < length := by
  obtain ⟨same, alone⟩ := numeralLength?_eq_some h
  cases digits : text.takeWhile isDecimalDigit with
  | nil => exact Nat.zero_lt_of_lt (alone digits)
  | cons c rest =>
    rw [digits, List.length_cons] at same
    omega

/-- **A match begins** with a digit or a point. -/
theorem exists_first_of_numeralLength? {length : Nat} (h : numeralLength? text = some length) :
    ∃ c rest, text = c :: rest ∧ (isDecimalDigit c = true ∨ c = '.') := by
  obtain ⟨same, alone⟩ := numeralLength?_eq_some h
  cases text with
  | nil => exact absurd (same ▸ alone rfl) (by decide)
  | cons c rest =>
    refine ⟨c, rest, rfl, ?_⟩
    by_contra other
    obtain ⟨digit, point⟩ := not_or.1 other
    rw [List.takeWhile_cons_of_neg digit, List.dropWhile_cons_of_neg digit, fractionLength,
      if_neg point] at same
    have := alone (List.takeWhile_cons_of_neg digit)
    rw [same] at this
    exact absurd this (by decide)

/-- **A numeral is matched as a whole** where neither a digit nor a point follows. -/
theorem IsNumeral.numeralLength?_append {word tail : List Char} (h : IsNumeral word)
    (stop : ∀ c ∈ tail.head?, isDecimalDigit c = false ∧ c ≠ '.') :
    numeralLength? (word ++ tail) = some word.length := by
  have digit : ∀ c ∈ tail.head?, isDecimalDigit c = false := fun c mem => (stop c mem).1
  cases h with
  | whole some all =>
    have none : fractionLength tail = 0 := by
      cases tail with
      | nil => rfl
      | cons c rest => exact if_neg (stop c rfl).2
    rw [numeralLength?, takeWhile_append_of_stop all digit, dropWhile_append_of_stop all digit,
      none, if_neg fun empty => some empty.1, Nat.add_zero]
  | @point digits decimals some all all' =>
    have dot : ∀ c ∈ ('.' :: (decimals ++ tail)).head?, isDecimalDigit c = false := by
      rintro _ ⟨⟩
      decide
    have present : ¬ (digits = [] ∧ digits.length + (decimals.length + 1) ≤ 1) := by
      rintro ⟨rfl, short⟩
      rcases some with some | some
      · exact some rfl
      · have := List.length_pos_iff.2 some
        simp only [List.length_nil] at short
        omega
    rw [List.append_assoc, List.cons_append, numeralLength?, takeWhile_append_of_stop all dot,
      dropWhile_append_of_stop all dot, fractionLength, if_pos rfl,
      takeWhile_append_of_stop all' digit, if_neg present, List.length_append, List.length_cons]

/-- A numeral begins with a digit or a point. -/
theorem IsNumeral.exists_first {word : List Char} (h : IsNumeral word) :
    ∃ c rest, word = c :: rest ∧ (isDecimalDigit c = true ∨ c = '.') := by
  have stop : ∀ c ∈ ([] : List Char).head?, isDecimalDigit c = false ∧ c ≠ '.' :=
    fun _ none => nomatch none
  have matched := h.numeralLength?_append stop
  rw [List.append_nil] at matched
  exact exists_first_of_numeralLength? matched

/-- Neither a digit nor a point is blank. -/
theorem not_isBlank_of_first {c : Char} (h : isDecimalDigit c = true ∨ c = '.') :
    isBlank c = false := by
  rcases h with digit | rfl
  · exact Unicode.not_isBlank_of_isDecimalDigit digit
  · decide

end Calculator

end Earley
