import Earley.Pattern
import Mathlib.Data.List.Basic

/-!
# Proofs/Pattern — what a pattern matches, counted in characters

An engine counts the bytes of a match, and its matches end between two characters.  So a match at
the beginning of a text is told by the number of its characters as well (`Pattern.matchLength?`),
and the longer one of two matches is so in either count.
-/

namespace Earley

/-! ## Bytes and characters -/

theorem byteLength_append (text text' : List Char) :
    byteLength (text ++ text') = byteLength text + byteLength text' := by
  induction text with
  | nil => exact (Nat.zero_add _).symm
  | cons c text ih =>
    change c.utf8Size + byteLength (text ++ text') = c.utf8Size + byteLength text + _
    rw [ih, Nat.add_assoc]

theorem charCount_zero (text : List Char) : charCount text 0 = 0 := by
  cases text <;> rfl

/-- More bytes belong to as many characters at least. -/
theorem charCount_mono {text : List Char} {bytes more : Nat} (le : bytes ≤ more) :
    charCount text bytes ≤ charCount text more := by
  induction text generalizing bytes more with
  | nil => exact Nat.le_refl 0
  | cons c rest ih =>
    rw [charCount, charCount]
    split
    · exact Nat.zero_le _
    · rw [if_neg (by omega)]
      exact Nat.succ_le_succ (ih (Nat.sub_le_sub_right le _))

/-- **The bytes of the first characters** belong to these characters. -/
theorem charCount_byteLength_take {text : List Char} {count : Nat} (le : count ≤ text.length) :
    charCount text (byteLength (text.take count)) = count := by
  induction text generalizing count with
  | nil => exact (Nat.le_zero.1 le).symm
  | cons c rest ih =>
    cases count with
    | zero => exact charCount_zero _
    | succ count =>
      have some : c.utf8Size + byteLength (rest.take count) ≠ 0 := by
        have := c.utf8Size_pos
        omega
      change charCount (c :: rest) (c.utf8Size + byteLength (rest.take count)) = count + 1
      rw [charCount, if_neg some, Nat.add_sub_cancel_left, ih (Nat.le_of_succ_le_succ le)]

theorem charCount_byteLength_append (text rest : List Char) :
    charCount (text ++ rest) (byteLength text) = text.length := by
  have bytes := charCount_byteLength_take (List.prefix_append text rest).length_le
  rwa [List.take_left] at bytes

variable {E : Engine}

/-! ## Sources -/

theorem Matcher.source_of_compile {source : String} {matcher : Matcher E}
    (h : Matcher.compile E source = .ok matcher) : matcher.source = source := by
  rw [compile] at h
  split at h
  · cases h
  · split at h
    · cases h
    · exact congrArg Matcher.source (Except.ok.inj h).symm

namespace Pattern

section Sources

variable {source source' : String} {valid : (Matcher.compile E source).toOption.isSome = true}
  {valid' : (Matcher.compile E source').toOption.isSome = true}

/-- A source that is known to compile has a matcher. -/
theorem exists_ofSource_eq (source : String)
    (valid : (Matcher.compile E source).toOption.isSome = true) :
    ∃ matcher, Matcher.compile E source = .ok matcher ∧ ofSource source valid = regex matcher := by
  obtain ⟨matcher, same⟩ := Option.isSome_iff_exists.1 valid
  refine ⟨matcher, ?_, congrArg regex (Option.get_of_eq_some valid same)⟩
  cases compiled : Matcher.compile E source with
  | error refusal => simp [compiled, Except.toOption] at same
  | ok other => simpa [compiled, Except.toOption] using same

@[simp] theorem source_ofSource : (ofSource source valid).source = source := by
  obtain ⟨matcher, compiled, same⟩ := exists_ofSource_eq source valid
  rw [same]
  exact Matcher.source_of_compile compiled

/-- Regular expressions are told apart by their sources. -/
@[simp] theorem ofSource_inj :
    ofSource source valid = ofSource source' valid' ↔ source = source' := by
  refine ⟨fun same => ?_, fun same => by subst same; rfl⟩
  simpa using congrArg Pattern.source same

@[simp] theorem ofSource_ne_literal {text : String} : ofSource source valid ≠ literal text :=
  nofun

@[simp] theorem literal_ne_ofSource {text : String} : literal text ≠ ofSource source valid :=
  nofun

end Sources

/-! ## Matches -/

variable {pattern : Pattern E} {text : List Char} {count stop : Nat}

/-- **A match ends between two characters.** -/
theorem exists_count_of_matchEnd? (h : pattern.matchEnd? text = some stop) :
    ∃ count ≤ text.length, byteLength (text.take count) = stop := by
  cases pattern with
  | regex matcher => exact E.findEnd?_boundary h
  | literal expected =>
    simp only [matchEnd?, Option.ite_none_right_eq_some, Option.some.injEq,
      List.isPrefixOf_iff_prefix] at h
    obtain ⟨⟨rest, rfl⟩, rfl⟩ := h
    refine ⟨expected.toList.length, ?_, by rw [List.take_left]⟩
    rw [List.length_append]
    exact Nat.le_add_right _ _

theorem byteLength_take_charCount (h : pattern.matchEnd? text = some stop) :
    byteLength (text.take (charCount text stop)) = stop := by
  obtain ⟨count, le, rfl⟩ := exists_count_of_matchEnd? h
  rw [charCount_byteLength_take le]

/-- **Matches at the beginning** of a text: the number of characters up to the end of the match. -/
def matchLength? (text : List Char) (pattern : Pattern E) : Option Nat :=
  (pattern.matchEnd? text).map (charCount text)

theorem matchLength?_eq_some_iff : pattern.matchLength? text = some count
    ↔ count ≤ text.length ∧ pattern.matchEnd? text = some (byteLength (text.take count)) := by
  rw [matchLength?, Option.map_eq_some_iff]
  constructor
  · rintro ⟨stop, matched, rfl⟩
    obtain ⟨count, le, rfl⟩ := exists_count_of_matchEnd? matched
    rw [charCount_byteLength_take le]
    exact ⟨le, matched⟩
  · rintro ⟨le, matched⟩
    exact ⟨_, matched, charCount_byteLength_take le⟩

theorem matchLength?_eq_none_iff :
    pattern.matchLength? text = none ↔ pattern.matchEnd? text = none :=
  Option.map_eq_none_iff

/-- A literal matches where a text begins with it. -/
theorem matchLength?_literal {expected : String} {length : Nat} :
    (literal expected : Pattern E).matchLength? text = some length
      ↔ ∃ rest, text = expected.toList ++ rest ∧ length = expected.toList.length := by
  simp only [matchLength?, matchEnd?, Option.map_eq_some_iff, Option.ite_none_right_eq_some,
    Option.some.injEq, List.isPrefixOf_iff_prefix, List.IsPrefix]
  constructor
  · rintro ⟨_, ⟨⟨rest, rfl⟩, rfl⟩, rfl⟩
    exact ⟨rest, rfl, charCount_byteLength_append _ rest⟩
  · rintro ⟨rest, rfl, rfl⟩
    exact ⟨_, ⟨⟨rest, rfl⟩, rfl⟩, charCount_byteLength_append _ rest⟩

end Pattern

end Earley
