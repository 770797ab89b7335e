import Earley.Lexer
import Earley.Proofs.Pattern
import Mathlib.Data.List.Nodup
import Mathlib.Data.List.TakeWhile
import Mathlib.Order.Basic

/-!
# Proofs/Lexer — what the lexer answers

A call of the lexer comes to one of three answers (`Lexer.scan_cases`).  Behind the blanks the text
is at its end; or the lexer refuses it, because no expected pattern matches or none but with the
empty text (`Lexer.Refuses`); or it takes a longest match that is not empty (`Lexer.Takes`).  A
token that was taken is read as its own pattern and as no other (`Lexer.selected_placesOf`).

`Lexer.Behind` says that a lexer is behind tokens that stand one after the other in the text, with
nothing but blanks between them.
-/

namespace Earley

universe u

theorem take_length_takeWhile {α : Type u} (p : α → Bool) (xs : List α) :
    xs.take (xs.takeWhile p).length = xs.takeWhile p :=
  (List.prefix_iff_eq_take.1 (List.takeWhile_prefix p)).symm

theorem drop_length_takeWhile {α : Type u} (p : α → Bool) (xs : List α) :
    xs.drop (xs.takeWhile p).length = xs.dropWhile p := by
  nth_rewrite 2 [← List.takeWhile_append_dropWhile (p := p) (l := xs)]
  exact List.drop_left

section Stop

variable {α : Type u} {p : α → Bool} {xs tail : List α}

/-- A run of elements ends where another element stands. -/
theorem dropWhile_append_of_stop (all : ∀ x ∈ xs, p x = true)
    (stop : ∀ x ∈ tail.head?, p x = false) : (xs ++ tail).dropWhile p = tail := by
  rw [List.dropWhile_append_of_pos all]
  cases tail with
  | nil => rfl
  | cons x tail => exact List.dropWhile_cons_of_neg (by simp [stop x rfl])

theorem takeWhile_append_of_stop (all : ∀ x ∈ xs, p x = true)
    (stop : ∀ x ∈ tail.head?, p x = false) : (xs ++ tail).takeWhile p = xs := by
  have split := List.takeWhile_append_dropWhile (p := p) (l := xs ++ tail)
  rw [dropWhile_append_of_stop all stop] at split
  exact List.append_cancel_right split

end Stop

/-- Only blanks. -/
def AllBlank (gap : List Char) : Prop := ∀ c ∈ gap, Unicode.isBlank c = true

instance (gap : List Char) : Decidable (AllBlank gap) :=
  List.decidableBAll (fun c => Unicode.isBlank c = true) gap

namespace Lexer

variable {E : Engine} {lexer here : Lexer} {expected : List (Pattern E)} {pattern : Pattern E}
  {length : Nat}

/-! ## Blanks -/

/-- **Skipping blanks**: from the lexer to here there are only blanks, and none stands here. -/
structure Skips (lexer here : Lexer) : Prop where
  exists_blanks : ∃ blanks, lexer.rest = blanks ++ here.rest
    ∧ (∀ c ∈ blanks, Unicode.isBlank c = true) ∧ here.offset = lexer.offset + byteLength blanks
  not_blank : ∀ c ∈ here.rest.head?, Unicode.isBlank c = false

theorem rest_skipBlanks (lexer : Lexer) :
    lexer.skipBlanks.rest = lexer.rest.dropWhile Unicode.isBlank :=
  drop_length_takeWhile Unicode.isBlank lexer.rest

theorem offset_skipBlanks (lexer : Lexer) : lexer.skipBlanks.offset
    = lexer.offset + byteLength (lexer.rest.takeWhile Unicode.isBlank) := by
  rw [skipBlanks, drop, take_length_takeWhile]

theorem skips_skipBlanks (lexer : Lexer) : lexer.Skips lexer.skipBlanks where
  exists_blanks := by
    refine ⟨lexer.rest.takeWhile Unicode.isBlank, ?_, fun c => List.mem_takeWhile_imp,
      lexer.offset_skipBlanks⟩
    rw [rest_skipBlanks, List.takeWhile_append_dropWhile]
  not_blank := by
    intro c first
    rw [rest_skipBlanks] at first
    have := List.head?_dropWhile_not Unicode.isBlank lexer.rest
    rw [first] at this
    simpa using this

/-! ## Matches -/

/-- The bytes of characters are passed with these characters. -/
theorem pass_byteLength_take {count : Nat} (le : count ≤ here.rest.length) :
    here.pass (byteLength (here.rest.take count)) = here.drop count := by
  rw [pass, drop, charCount_byteLength_take le]

theorem mem_matchesOf {text : List Char} {found : Match E} : found ∈ matchesOf text expected
    ↔ found.pattern ∈ expected ∧ found.pattern.matchEnd? text = some found.size := by
  obtain ⟨size, pattern⟩ := found
  simp only [matchesOf, List.mem_filterMap, Option.map_eq_some_iff, Match.mk.injEq]
  constructor
  · rintro ⟨_, mem, _, matched, rfl, rfl⟩
    exact ⟨mem, matched⟩
  · rintro ⟨mem, matched⟩
    exact ⟨pattern, mem, size, matched, rfl, rfl⟩

/-- What beats a match is not shorter. -/
theorem Match.size_le_of_beats {later earlier : Match E} (h : later.beats earlier = true) :
    earlier.size ≤ later.size := by
  simp only [Match.beats, Bool.or_eq_true, Bool.and_eq_true, decide_eq_true_eq] at h
  rcases h with longer | ⟨⟨same, -⟩, -⟩
  · exact longer.le
  · exact same.ge

/-- What does not beat a match is not longer. -/
theorem Match.size_le_of_not_beats {later earlier : Match E} (h : ¬ later.beats earlier = true) :
    later.size ≤ earlier.size := by
  simp only [Match.beats, Bool.or_eq_true, decide_eq_true_eq] at h
  exact Nat.not_lt.1 fun longer => h (.inl longer)

theorem best?_eq_none_iff {found : List (Match E)} : best? found = none ↔ found = [] := by
  cases found <;> simp [best?]

/-- **The match that is taken is a longest one.** -/
theorem best?_spec {found : List (Match E)} {best : Match E} (h : best? found = some best) :
    best ∈ found ∧ ∀ other ∈ found, other.size ≤ best.size := by
  cases found with
  | nil => exact nomatch h
  | cons first others =>
    obtain rfl := Option.some.inj h
    clear h
    induction others generalizing first with
    | nil => simp
    | cons second others ih =>
      obtain ⟨mem, longest⟩ := ih (if second.beats first then second else first)
      have start := longest _ List.mem_cons_self
      have behind := fun other memOthers => longest other (List.mem_cons_of_mem _ memOthers)
      rw [List.foldl_cons]
      by_cases beats : second.beats first = true
      · rw [if_pos beats] at mem start behind ⊢
        refine ⟨List.mem_cons_of_mem _ mem, List.forall_mem_cons.2 ⟨?_, ?_⟩⟩
        · exact (Match.size_le_of_beats beats).trans start
        · exact List.forall_mem_cons.2 ⟨start, behind⟩
      · rw [if_neg beats] at mem start behind ⊢
        refine ⟨?_, List.forall_mem_cons.2 ⟨start, List.forall_mem_cons.2 ⟨?_, behind⟩⟩⟩
        · exact (List.cons_subset_cons first (List.subset_cons_self second others)) mem
        · exact (Match.size_le_of_not_beats beats).trans start

/-! ## Answers -/

/-- **What the lexer refuses here**: a text where no expected pattern matches, or none but with the
empty text. -/
inductive Refuses (here : Lexer) (expected : List (Pattern E)) : ParseError (Pattern E) → Prop
  | unexpected (unmatched : ∀ pattern ∈ expected, pattern.matchLength? here.rest = none) :
      Refuses here expected (.unexpected here.offset expected)
  | emptyToken (matched : ∃ pattern ∈ expected, pattern.matchLength? here.rest = some 0)
      (empty : ∀ pattern ∈ expected, ∀ length,
        pattern.matchLength? here.rest = some length → length = 0) :
      Refuses here expected (.emptyToken here.offset)

/-- **What the lexer takes here**: the match of an expected pattern, not empty, and a longest
one. -/
structure Takes (here : Lexer) (expected : List (Pattern E)) (pattern : Pattern E) (length : Nat) :
    Prop where
  mem : pattern ∈ expected
  matched : pattern.matchLength? here.rest = some length
  pos : 0 < length
  longest : ∀ other ∈ expected, ∀ length',
    other.matchLength? here.rest = some length' → length' ≤ length

/-- The token for a match. -/
def tokenOf (here : Lexer) (pattern : Pattern E) (length : Nat) : Token (Pattern E) where
  kind := pattern
  text := String.ofList (here.rest.take length)
  start := here.offset
  next := (here.drop length).offset

/-- The token for a match that is not empty has a text. -/
theorem isEmpty_text_tokenOf (pattern : Pattern E) (pos : 0 < length) (further : here.rest ≠ []) :
    (here.tokenOf pattern length).text.isEmpty = false := by
  have some : here.rest.take length ≠ [] := by
    rw [ne_eq, List.take_eq_nil_iff]
    exact not_or.2 ⟨pos.ne', further⟩
  simpa [tokenOf] using some

/-- **The answers of the lexer**: the end, a refusal or a token. -/
theorem scan_cases (lexer : Lexer) (expected : List (Pattern E)) :
    lexer.skipBlanks.rest = [] ∧ lexer.scan expected = (.ok none, lexer.skipBlanks)
      ∨ lexer.skipBlanks.rest ≠ [] ∧ ((∃ error, lexer.skipBlanks.Refuses expected error
            ∧ lexer.scan expected = (.error error, lexer.skipBlanks))
          ∨ ∃ pattern length, lexer.skipBlanks.Takes expected pattern length
            ∧ lexer.scan expected = (.ok (some ⟨lexer.skipBlanks.tokenOf pattern length,
                some (placesOf (lexer.skipBlanks.tokenOf pattern length) expected)⟩),
                lexer.skipBlanks.drop length)) := by
  simp only [scan, next]
  generalize lexer.skipBlanks = here
  by_cases ends : here.rest = []
  · exact .inl ⟨ends, by simp [ends]⟩
  refine .inr ⟨ends, ?_⟩
  have further : here.rest.isEmpty = false := by simpa using ends
  simp only [further]
  cases best : best? (matchesOf here.rest expected) with
  | none =>
    refine .inl ⟨_, .unexpected fun pattern mem => ?_, rfl⟩
    rw [Pattern.matchLength?_eq_none_iff]
    cases matched : pattern.matchEnd? here.rest with
    | none => rfl
    | some size =>
      have found : ⟨size, pattern⟩ ∈ matchesOf here.rest expected :=
        mem_matchesOf.2 ⟨mem, matched⟩
      rw [best?_eq_none_iff.1 best] at found
      exact absurd found List.not_mem_nil
  | some found =>
    obtain ⟨size, pattern⟩ := found
    obtain ⟨found, greatest⟩ := best?_spec best
    obtain ⟨mem, matched⟩ := mem_matchesOf.1 found
    obtain ⟨length, le, rfl⟩ := Pattern.exists_count_of_matchEnd? matched
    have longest : ∀ other ∈ expected, ∀ length',
        other.matchLength? here.rest = some length' → length' ≤ length := by
      intro other mem length' matched
      obtain ⟨le', matched⟩ := Pattern.matchLength?_eq_some_iff.1 matched
      rw [← charCount_byteLength_take le', ← charCount_byteLength_take le]
      exact charCount_mono (greatest ⟨_, other⟩ (mem_matchesOf.2 ⟨mem, matched⟩))
    have matched := Pattern.matchLength?_eq_some_iff.2 ⟨le, matched⟩
    by_cases empty : byteLength (here.rest.take length) = 0
    · obtain rfl : length = 0 := by
        rw [← charCount_byteLength_take le, empty, charCount_zero]
      exact .inl ⟨_, .emptyToken ⟨pattern, mem, matched⟩ fun other mem length' matched =>
        Nat.le_zero.1 (longest other mem length' matched), rfl⟩
    · have pos : 0 < length := Nat.pos_of_ne_zero fun zero => empty (by rw [zero]; rfl)
      refine .inr ⟨pattern, length, ⟨mem, matched, pos, longest⟩, ?_⟩
      simp only [if_neg empty, Bool.false_eq_true, if_false, pass_byteLength_take le,
        charCount_byteLength_take le]
      rfl

/-! ## One kind -/

/-- **A token is read as its own pattern and as no other**, where that is expected. -/
theorem selected_placesOf {token : Token (Pattern E)} {equals : String → Pattern E → Bool}
    (nodup : expected.Nodup) (mem : token.kind ∈ expected) :
    Scan.selected equals ⟨token, some (placesOf token expected)⟩ expected = [token.kind] := by
  have own : ∀ entry ∈ expected.zipIdx,
      decide (entry.2 ∈ placesOf token expected) = decide (entry.1 = token.kind) := by
    rintro ⟨pattern, place⟩ memEntry
    refine decide_eq_decide.2 ⟨fun memPlace => ?_, fun same => ?_⟩
    · obtain ⟨other, memOther, place'⟩ := List.mem_map.1 memPlace
      obtain ⟨memOther, same⟩ := List.mem_filter.1 memOther
      have atPlace := List.mem_zipIdx_iff_getElem?.1 memEntry
      have atPlace' := List.mem_zipIdx_iff_getElem?.1 memOther
      rw [place'] at atPlace'
      exact (Option.some.inj (atPlace.symm.trans atPlace')).trans (of_decide_eq_true same)
    · exact List.mem_map.2 ⟨_, List.mem_filter.2 ⟨memEntry, decide_eq_true same⟩, rfl⟩
  have single : expected.filter (fun pattern => decide (pattern = token.kind)) = [token.kind] := by
    rw [List.filter_eq, List.count_eq_one_of_mem nodup mem]
    rfl
  change (expected.zipIdx.filter fun entry => entry.2 ∈ placesOf token expected).map _ = _
  rw [List.filter_congr own, ← single]
  nth_rewrite 2 [← List.zipIdx_map_fst 0 expected]
  rw [List.filter_map]
  rfl

/-! ## Tokens in a text -/

/-- **A lexer is behind tokens**: they stand in the text one after the other from its beginning on,
with only blanks between them and their offsets counted in bytes, and the lexer is behind the
last. -/
inductive Behind (text : List Char) : Lexer → List (Token (Pattern E)) → Prop
  | start : Behind text ⟨0, text⟩ []
  | token {lexer here : Lexer} {tokens : List (Token (Pattern E))} {token : Token (Pattern E)}
      {rest : List Char} (before : Behind text lexer tokens) (skips : lexer.Skips here)
      (split : here.rest = token.text.toList ++ rest) (nonempty : token.text ≠ "")
      (start : token.start = here.offset)
      (next : token.next = here.offset + byteLength token.text.toList) :
      Behind text ⟨token.next, rest⟩ (tokens ++ [token])

/-- **Offsets count the bytes** before them. -/
theorem Skips.exists_before {text : List Char} (h : lexer.Skips here)
    (before : ∃ read, text = read ++ lexer.rest ∧ lexer.offset = byteLength read) :
    ∃ read, text = read ++ here.rest ∧ here.offset = byteLength read := by
  obtain ⟨read, rfl, offset⟩ := before
  obtain ⟨blanks, split, -, offset'⟩ := h.exists_blanks
  refine ⟨read ++ blanks, by rw [split, List.append_assoc], ?_⟩
  rw [offset', offset, byteLength_append]

theorem Behind.exists_before {text : List Char} {tokens : List (Token (Pattern E))}
    (h : Behind text lexer tokens) :
    ∃ read, text = read ++ lexer.rest ∧ lexer.offset = byteLength read := by
  induction h with
  | start => exact ⟨[], rfl, rfl⟩
  | @token _ _ _ token rest _ skips split _ _ next ih =>
    obtain ⟨read, same, offset⟩ := skips.exists_before ih
    refine ⟨read ++ token.text.toList, by rw [same, split, List.append_assoc], ?_⟩
    rw [next, offset, byteLength_append]

/-- The token that is taken comes next. -/
theorem Behind.push {text : List Char} {tokens : List (Token (Pattern E))}
    (h : Behind text lexer tokens) (takes : lexer.skipBlanks.Takes expected pattern length)
    (further : lexer.skipBlanks.rest ≠ []) :
    Behind text (lexer.skipBlanks.drop length)
      (tokens ++ [lexer.skipBlanks.tokenOf pattern length]) := by
  have present := isEmpty_text_tokenOf pattern takes.pos further
  change Behind text ⟨(lexer.skipBlanks.tokenOf pattern length).next, _⟩ _
  refine .token h lexer.skips_skipBlanks ?_ (by simpa using present) rfl ?_
  · simp [tokenOf]
  · simp [tokenOf, drop]

end Lexer

end Earley
