import Earley.Proofs.Bracketing
import Earley.Proofs.Calculator.Numeral
import Earley.Proofs.Words

/-!
# Proofs/Numerals — decimal numerals with a sign between them

A text of decimal numerals with a sign between them is laid out in words, whatever blanks stand
between these (`Spaced.laid_joined`), since a pattern of digits matches a numeral as a whole where
no digit follows (`ReadsDigits.clear_word`).  Its tokens are a chain of numerals
(`chain_of_joined`), and the token of a numeral is read as its value (`exists_token_of_joined`).
-/

namespace Earley

open Regex
open Unicode (isBlank)

/-! ## Numerals -/

/-- **A decimal numeral**: digits, at least one. -/
structure Decimal where
  text : String
  present : text ≠ ""
  digits : ∀ c ∈ text.toList, c.isDigit = true

/-- The number that a numeral stands for. -/
def Decimal.value (numeral : Decimal) : Int := Nat.ofDigitChars 10 numeral.text.toList 0

/-- The number in digits, or 0 where there is another character. -/
def readDigits (digits : List Char) : Int :=
  if digits.all Char.isDigit then Nat.ofDigitChars 10 digits 0 else 0

/-- **The integer in a text** of digits, possibly behind a sign; any other text counts as 0. -/
def readInteger (text : String) : Int :=
  match text.toList with
  | '-' :: digits => -readDigits digits
  | '+' :: digits => readDigits digits
  | digits => readDigits digits

theorem Decimal.readInteger_text (numeral : Decimal) :
    readInteger numeral.text = numeral.value := by
  have digits := numeral.digits
  have all : readDigits numeral.text.toList = numeral.value := if_pos (List.all_eq_true.2 digits)
  rw [← all, readInteger]
  split
  · next same => exact absurd (digits '-' (same ▸ List.mem_cons_self)) (by decide)
  · next same => exact absurd (digits '+' (same ▸ List.mem_cons_self)) (by decide)
  · rfl

/-! ## Patterns of digits -/

/-- **A pattern reads digits**: it matches the longest run of them that a text begins with.  The
ASCII digits are among them, and blanks are not. -/
structure ReadsDigits (pattern : Pattern .standard) (digits : CharSet) : Prop where
  matchLength?_eq : ∀ text, pattern.matchLength? text
    = if text.takeWhile digits.contains = [] then none
      else some (text.takeWhile digits.contains).length
  contains_of_isDigit : ∀ c, c.isDigit = true → digits.contains c = true
  not_isBlank : ∀ c, digits.contains c = true → isBlank c = false

/-- **A repetition of characters matches their longest run.** -/
theorem matchLength?_plus {source : String}
    {valid : (Matcher.compile .standard source).toOption.isSome = true} {chars : CharSet}
    (read : Regex.read? ("^(?:".toList ++ source.toList ++ ")".toList)
      = some (seq (look .textStart) (plus (oneOf chars) true))) (text : List Char) :
    (Pattern.ofSource source valid).matchLength? text
      = if text.takeWhile chars.contains = [] then none
        else some (text.takeWhile chars.contains).length := by
  rw [Pattern.matchLength?_ofSource read, find?_textStart]
  cases text with
  | nil => rfl
  | cons x rest =>
    cases inside : chars.contains x with
    | false =>
      rw [ends_plus_oneOf_of_not inside, List.takeWhile_cons_of_neg (by simp [inside])]
      rfl
    | true =>
      obtain ⟨best, others, same, run⟩ := @exists_ends_plus_oneOf [1] 0 none rest chars x [] inside
      rw [same, List.takeWhile_cons_of_pos inside, if_neg (List.cons_ne_nil _ _), List.head?_cons,
        Option.map_some, run.pos_eq, List.length_cons, Nat.zero_add, Nat.add_comm]

/-- The digits of every script. -/
def anyDigits : Pattern .standard := .ofSource "\\d+"

/-- The ASCII digits. -/
def asciiDigits : Pattern .standard := .ofSource "[0-9]+"

theorem isDecimalDigit_of_isDigit {c : Char} (h : c.isDigit = true) :
    Unicode.isDecimalDigit c = true := by
  have low : c.toNat < 0x80 := by
    have := UInt32.le_iff_toNat_le.1 (of_decide_eq_true (Bool.and_eq_true_iff.1 h).2)
    exact Nat.lt_of_le_of_lt this (by decide)
  rw [Unicode.isDecimalDigit, if_pos low]
  exact h

theorem readsDigits_anyDigits : ReadsDigits anyDigits .digit where
  matchLength?_eq := matchLength?_plus rfl
  contains_of_isDigit _ := isDecimalDigit_of_isDigit
  not_isBlank _ := Unicode.not_isBlank_of_isDecimalDigit

theorem contains_asciiDigits {c : Char} :
    (CharSet.union .none (.range '0' '9')).contains c = c.isDigit := by
  rw [CharSet.contains, CharSet.contains, CharSet.contains, Bool.false_or]
  rfl

theorem readsDigits_asciiDigits : ReadsDigits asciiDigits (.union .none (.range '0' '9')) where
  matchLength?_eq := matchLength?_plus rfl
  contains_of_isDigit _ digit := contains_asciiDigits.trans digit
  not_isBlank _ inside := Unicode.not_isBlank_of_isDecimalDigit
    (isDecimalDigit_of_isDigit (contains_asciiDigits.symm.trans inside))

/-! ## Numerals in a row -/

/-- A numeral as a word of a pattern. -/
def Decimal.word (pattern : Pattern .standard) (numeral : Decimal) : Word .standard :=
  ⟨pattern, numeral.text⟩

/-- A sign as a word. -/
def separator (sign : Char) : Word .standard :=
  ⟨.literal (String.singleton sign), String.singleton sign⟩

/-- **Numerals with a sign between them.** -/
def joined (pattern : Pattern .standard) (sign : Char) (numerals : List Decimal) :
    List (Word .standard) :=
  (numerals.map (Decimal.word pattern)).intersperse (separator sign)

/-- What ends a list with separators begins with one, or is an entry that ends the list or stands
in front of a separator. -/
theorem eq_or_of_suffix_intersperse {α : Type} {sep x : α} {xs back : List α}
    (h : x :: back <:+ xs.intersperse sep) :
    x = sep ∨ x ∈ xs ∧ (back = [] ∨ ∃ rest, back = sep :: rest) := by
  induction xs with
  | nil => exact nomatch List.suffix_nil.1 h
  | cons y ys ih =>
    cases ys with
    | nil =>
      rcases List.suffix_cons_iff.1 h with same | none
      · obtain ⟨rfl, rfl⟩ := List.cons.inj same
        exact .inr ⟨List.mem_cons_self, .inl rfl⟩
      · exact nomatch List.suffix_nil.1 none
    | cons z zs =>
      rw [List.intersperse_cons_cons] at h
      rcases List.suffix_cons_iff.1 h with same | h
      · obtain ⟨rfl, rfl⟩ := List.cons.inj same
        exact .inr ⟨List.mem_cons_self, .inr ⟨_, rfl⟩⟩
      · rcases List.suffix_cons_iff.1 h with same | h
        · exact .inl (List.cons.inj same).1
        · exact (ih h).imp_right (And.imp_left (List.mem_cons_of_mem y))

variable {pattern : Pattern .standard} {digits : CharSet} {sign : Char} {numerals : List Decimal}
  {numeral : Decimal} {rest text : List Char}

namespace ReadsDigits

variable (reads : ReadsDigits pattern digits) (other : digits.contains sign = false)

include reads

theorem contains_eq_false_of_isBlank {c : Char} (blank : isBlank c = true) :
    digits.contains c = false := by
  by_contra inside
  exact absurd (reads.not_isBlank c (Bool.of_not_eq_false inside)) (by simp [blank])

include other

/-- **A numeral stands clear** where no digit follows. -/
theorem clear_word (stop : ∀ c ∈ rest.head?, digits.contains c = false) :
    (numeral.word pattern).Clear [pattern, .literal (String.singleton sign)] rest := by
  have inside : ∀ c ∈ numeral.text.toList, digits.contains c = true :=
    fun c mem => reads.contains_of_isDigit c (numeral.digits c mem)
  have some : numeral.text.toList ≠ [] := by simpa using numeral.present
  constructor
  case present => exact numeral.present
  case first => exact fun c mem => reads.not_isBlank c (inside c (List.mem_of_mem_head? mem))
  case own =>
    change pattern.matchLength? (numeral.text.toList ++ rest) = _
    rw [reads.matchLength?_eq, takeWhile_append_of_stop inside stop, if_neg some]
    rfl
  case alone =>
    intro kind mem length matched
    rcases List.mem_pair.1 mem with rfl | rfl
    · rfl
    · obtain ⟨_, same, -⟩ := Pattern.matchLength?_literal.1 matched
      obtain ⟨c, others, split⟩ := List.exists_cons_of_ne_nil some
      change numeral.text.toList ++ rest = _ at same
      rw [split, String.toList_singleton] at same
      rw [← (List.cons.inj same).1, inside c (split ▸ List.mem_cons_self)] at other
      exact nomatch other

/-- **A sign stands clear** everywhere. -/
theorem clear_separator (present : isBlank sign = false) :
    (separator sign).Clear [pattern, .literal (String.singleton sign)] rest := by
  have text : (separator sign).text.toList = [sign] := String.toList_singleton sign
  constructor
  case present => exact fun none => by simp [none] at text
  case first => simpa [text] using present
  case own => exact Pattern.matchLength?_literal.2 ⟨rest, rfl, rfl⟩
  case alone =>
    intro kind mem length matched
    rcases List.mem_pair.1 mem with rfl | rfl
    · rw [text, List.singleton_append, reads.matchLength?_eq,
        List.takeWhile_cons_of_neg (by simp [other])] at matched
      exact nomatch matched
    · rfl

/-- Behind a numeral no digit follows: there is a blank, a sign or nothing. -/
theorem stop_of_spaced {back : List (Word .standard)} (spaced : Spaced back rest)
    (next : back = [] ∨ ∃ others, back = separator sign :: others) :
    ∀ c ∈ rest.head?, digits.contains c = false := by
  intro c mem
  cases spaced with
  | nil blank => exact reads.contains_eq_false_of_isBlank (blank c (List.mem_of_mem_head? mem))
  | @cons _ _ gap _ blank _ =>
    obtain none | ⟨others, same⟩ := next
    · exact nomatch none
    · obtain ⟨rfl, rfl⟩ := List.cons.inj same
      cases gap with
      | nil =>
        rw [List.nil_append, separator, String.toList_singleton] at mem
        exact Option.some.inj mem ▸ other
      | cons b gap =>
        exact reads.contains_eq_false_of_isBlank
          (blank c (Option.some.inj mem ▸ List.mem_cons_self))

end ReadsDigits

/-- **Numerals with a sign between them are laid out** with any blanks. -/
theorem Spaced.laid_joined (reads : ReadsDigits pattern digits)
    (other : digits.contains sign = false) (present : isBlank sign = false)
    (spaced : Spaced (joined pattern sign numerals) text) :
    Laid [pattern, .literal (String.singleton sign)] (joined pattern sign numerals) text := by
  refine spaced.laid_of_clear fun word back suffix rest spaced => ?_
  rcases eq_or_of_suffix_intersperse suffix with rfl | ⟨mem, next⟩
  · exact reads.clear_separator other present
  · obtain ⟨numeral, -, rfl⟩ := List.mem_map.1 mem
    exact reads.clear_word other (reads.stop_of_spaced other spaced next)

/-! ## Chains of numerals -/

section Tokens

variable {tokens : Array (Token (Pattern .standard))} {i m : Nat}

theorem getElem?_joined : (joined pattern sign numerals)[atomPlace 1 i]?
    = numerals[i]?.map (Decimal.word pattern) := by
  rw [atomPlace, Nat.mul_comm, joined, List.getElem?_intersperse_two_mul, List.getElem?_map]

theorem getElem?_joined_sign : (joined pattern sign numerals)[atomPlace 1 i + 1]?
    = if i + 1 < numerals.length then some (separator sign) else none := by
  rw [atomPlace, Nat.mul_comm, joined]
  split
  · next bound => exact List.getElem?_intersperse_two_mul_add_one (by rwa [List.length_map])
  · next bound =>
    rw [List.getElem?_eq_none_iff, List.length_intersperse, List.length_map]
    omega

theorem length_joined (length : numerals.length = m + 1) :
    (joined pattern sign numerals).length = atomPlace 1 m + 1 := by
  rw [joined, List.length_intersperse, List.length_map, length, atomPlace]
  omega

variable (spelled : tokens.toList.map wordOf = joined pattern sign numerals)

include spelled

/-- **The tokens are a chain of numerals.** -/
theorem chain_of_joined (apart : pattern ≠ .literal (String.singleton sign)) :
    Chain (KindAt tokens) [.literal (String.singleton sign)] pattern numerals.length where
  atom_iff pos := by
    rw [kindAt_iff_of_spelled spelled]
    constructor
    · rintro ⟨word, place, kind⟩
      obtain ⟨i, rfl | rfl⟩ := Nat.even_or_odd' pos
      · rw [Nat.mul_comm 2 i] at place ⊢
        obtain ⟨numeral, there, -⟩ := Option.map_eq_some_iff.1 (getElem?_joined.symm.trans place)
        exact ⟨i, (List.getElem?_eq_some_iff.1 there).1, rfl⟩
      · rw [Nat.mul_comm 2 i] at place
        obtain ⟨-, same⟩ :=
          Option.ite_none_right_eq_some.1 (getElem?_joined_sign.symm.trans place)
        obtain rfl := Option.some.inj same
        exact absurd kind.symm apart
    · rintro ⟨i, bound, rfl⟩
      exact ⟨_, getElem?_joined.trans (congrArg _ (List.getElem?_eq_getElem bound)), rfl⟩
  separated i bound :=
    ⟨(kindAt_iff_of_spelled spelled).2 ⟨_, getElem?_joined_sign.trans (if_pos bound), rfl⟩, trivial⟩

/-- **The token of a numeral is read as its value.** -/
theorem exists_token_of_joined (place : numerals[i]? = some numeral) :
    ∃ token, tokens[atomPlace 1 i]? = some token ∧ readInteger token.text = numeral.value := by
  have spells : tokens[atomPlace 1 i]?.map wordOf = some (numeral.word pattern) := by
    rw [getElem?_of_spelled spelled, getElem?_joined, place, Option.map_some]
  obtain ⟨token, there, same⟩ := Option.map_eq_some_iff.1 spells
  have text : token.text = numeral.text := congrArg Word.text same
  exact ⟨token, there, text ▸ numeral.readInteger_text⟩

theorem exists_sign_of_joined (bound : i + 1 < numerals.length) :
    ∃ token, tokens[atomPlace 1 i + 1]? = some token := by
  have spells : tokens[atomPlace 1 i + 1]?.map wordOf = some (separator sign) := by
    rw [getElem?_of_spelled spelled, getElem?_joined_sign, if_pos bound]
  obtain ⟨token, place, -⟩ := Option.map_eq_some_iff.1 spells
  exact ⟨token, place⟩

end Tokens

/-! ## Rules with an operation -/

/-- **What the rules mean**: the first production an operation between its first part and its
third, any other one its first part. -/
def Semantics.ofOperation (operation : Int → Int → Int) (chooser : Chooser (Pattern .standard)) :
    Semantics (Pattern .standard) Int where
  leaf token := readInteger token.text
  reduce
    | 0, x :: _ :: y :: _ => operation x y
    | _, values => values.headD 0
  chooser := chooser

end Earley
