import Earley.Proofs.Lexer
import Earley.Regex.Engine
import Mathlib.Data.List.Induction
import Mathlib.Data.Prod.Lex

/-!
# Proofs/Lexer/Choice — the lexer takes the greatest match

Matches are compared by their size and then by whether the pattern is a literal (`Match.key`).  One
match beats another exactly if its key is greater, so that one pass over the matches comes to the
first of those with the greatest key (`firstGreatest_of_best?`).  With the place in the expected
list as the last criterion, the taken entry is the greatest of all (`Wins`).

The order of the expected list decides only between patterns of one sort, and two literals that
match the same number of bytes are the same.  So it matters for two regular expressions at most.
-/

namespace Earley

namespace Lexer

variable {E : Engine} {text : List Char} {expected expected' : List (Pattern E)}
  {index index' : Nat} {found found' : Match E}

/-! ## Keys -/

/-- The size of a match, and whether its pattern is a literal. -/
def Match.key (found : Match E) : ℕ ×ₗ Bool := toLex (found.size, found.pattern.isLiteral)

/-- **A match beats another if its key is greater.** -/
theorem Match.beats_iff {later earlier : Match E} :
    later.beats earlier = true ↔ earlier.key < later.key := by
  simp only [beats, key, Prod.Lex.toLex_lt_toLex, Bool.or_eq_true, Bool.and_eq_true,
    decide_eq_true_eq, Bool.not_eq_true', Bool.lt_iff, and_assoc]
  rw [eq_comm, and_comm (a := later.pattern.isLiteral = true)]

/-- **The first match with the greatest key.** -/
def FirstGreatest (matched : List (Match E)) (best : Match E) : Prop :=
  ∃ before after, matched = before ++ best :: after
    ∧ (∀ other ∈ before, other.key < best.key) ∧ ∀ other ∈ after, other.key ≤ best.key

theorem FirstGreatest.key_le {matched : List (Match E)} {best other : Match E}
    (h : FirstGreatest matched best) (mem : other ∈ matched) : other.key ≤ best.key := by
  obtain ⟨before, after, rfl, less, le⟩ := h
  rcases List.mem_append.1 mem with mem | mem
  · exact (less other mem).le
  · rcases List.mem_cons.1 mem with rfl | mem
    · exact le_rfl
    · exact le other mem

/-- **One pass comes to the first match with the greatest key.**  The induction is on the end of the
list, where the pass makes its last decision. -/
theorem firstGreatest_of_best? {matched : List (Match E)} {best : Match E}
    (h : best? matched = some best) : FirstGreatest matched best := by
  cases matched with
  | nil => exact nomatch h
  | cons first others =>
    obtain rfl := Option.some.inj h
    clear h
    induction others using List.reverseRecOn with
    | nil => exact ⟨[], [], rfl, by simp, by simp⟩
    | append_singleton others last ih =>
      rw [List.foldl_append, List.foldl_cons, List.foldl_nil]
      generalize others.foldl _ first = best at ih ⊢
      by_cases beats : last.beats best = true
      · rw [if_pos beats]
        have greater := Match.beats_iff.1 beats
        exact ⟨first :: others, [], rfl, fun other mem => (ih.key_le mem).trans_lt greater, by simp⟩
      · rw [if_neg beats]
        obtain ⟨before, after, split, less, le⟩ := ih
        have last_le : last.key ≤ best.key := not_lt.1 (mt Match.beats_iff.2 beats)
        refine ⟨before, after ++ [last], ?_, less, fun other mem => ?_⟩
        · rw [← List.cons_append, split, List.append_assoc, List.cons_append]
        · rcases List.mem_append.1 mem with mem | mem
          · exact le other mem
          · exact List.mem_singleton.1 mem ▸ last_le

/-! ## Entries of the expected list -/

/-- The entry at an index of the expected list matches. -/
structure MatchesAt (text : List Char) (expected : List (Pattern E)) (index : Nat)
    (found : Match E) : Prop where
  place : expected[index]? = some found.pattern
  matched : found.pattern.matchEnd? text = some found.size

/-- **The rank of an entry**: the length of its match, then whether it is a literal, then its place,
earlier ones first. -/
def Match.rank (found : Match E) (index : Nat) : (ℕ ×ₗ Bool) ×ₗ ℕᵒᵈ :=
  toLex (found.key, OrderDual.toDual index)

theorem Match.rank_le_iff : found.rank index ≤ found'.rank index'
    ↔ found.key < found'.key ∨ found.key = found'.key ∧ index' ≤ index :=
  Prod.Lex.toLex_le_toLex

/-- **The entry that wins** is the one with the greatest rank of those that match. -/
structure Wins (text : List Char) (expected : List (Pattern E)) (index : Nat) (found : Match E) :
    Prop extends MatchesAt text expected index found where
  greatest : ∀ index' found', MatchesAt text expected index' found' →
    found'.rank index' ≤ found.rank index

/-- **Only one entry wins.** -/
theorem Wins.unique (h : Wins text expected index found) (h' : Wins text expected index' found') :
    index' = index ∧ found' = found := by
  have same := le_antisymm (h.greatest _ _ h'.toMatchesAt) (h'.greatest _ _ h.toMatchesAt)
  obtain ⟨-, places⟩ := Prod.mk.inj (toLex_inj.1 same)
  obtain rfl := OrderDual.toDual_inj.1 places
  obtain ⟨size, pattern⟩ := found
  obtain ⟨size', pattern'⟩ := found'
  obtain rfl : pattern = pattern' := Option.some.inj (h.place.symm.trans h'.place)
  obtain rfl : size = size' := Option.some.inj (h.matched.symm.trans h'.matched)
  exact ⟨rfl, rfl⟩

/-- **The match that is taken is that of the winning entry.** -/
theorem exists_wins_of_best? (h : best? (matchesOf text expected) = some found) :
    ∃ index, Wins text expected index found := by
  obtain ⟨before, after, split, less, le⟩ := firstGreatest_of_best? h
  obtain ⟨front, back, rfl, front_eq, back_eq⟩ := List.filterMap_eq_append_iff.1 split
  obtain ⟨passed, pattern, later, rfl, unmatched, own, later_eq⟩ :=
    List.filterMap_eq_cons_iff.1 back_eq
  obtain ⟨size, matched, rfl⟩ := Option.map_eq_some_iff.1 own
  rw [← List.append_assoc]
  refine ⟨(front ++ passed).length, ⟨by simp, matched⟩, ?_⟩
  rintro index' ⟨size', pattern'⟩ ⟨place, matched'⟩
  have own' : (pattern'.matchEnd? text).map (Match.mk · pattern') = some ⟨size', pattern'⟩ :=
    congrArg (Option.map _) matched'
  rw [Match.rank_le_iff]
  rcases Nat.lt_trichotomy index' (front ++ passed).length with lt | rfl | gt
  · rw [List.getElem?_append_left lt] at place
    rcases List.mem_append.1 (List.mem_of_getElem? place) with mem | mem
    · exact .inl (less _ (front_eq ▸ List.mem_filterMap.2 ⟨pattern', mem, own'⟩))
    · exact nomatch (unmatched pattern' mem).symm.trans own'
  · obtain rfl : pattern = pattern' := by simpa using place
    obtain rfl : size = size' := Option.some.inj (matched.symm.trans matched')
    exact .inr ⟨rfl, le_rfl⟩
  · obtain ⟨offset, rfl⟩ := Nat.exists_eq_add_of_lt gt
    have mem : pattern' ∈ later := by
      rw [List.getElem?_append_right (by omega), Nat.add_assoc, Nat.add_sub_cancel_left,
        List.getElem?_cons_succ] at place
      exact List.mem_of_getElem? place
    have key_le := le _ (later_eq ▸ List.mem_filterMap.2 ⟨pattern', mem, own'⟩)
    exact key_le.lt_or_eq.imp_right fun same => ⟨same, gt.le⟩

/-- Where an expected pattern matches, an entry wins. -/
theorem exists_wins {pattern : Pattern E} {size : Nat} (mem : pattern ∈ expected)
    (matched : pattern.matchEnd? text = some size) :
    ∃ index found, Wins text expected index found := by
  cases best : best? (matchesOf text expected) with
  | none =>
    have listed : ⟨size, pattern⟩ ∈ matchesOf text expected := mem_matchesOf.2 ⟨mem, matched⟩
    rw [best?_eq_none_iff.1 best] at listed
    exact absurd listed List.not_mem_nil
  | some found =>
    obtain ⟨index, wins⟩ := exists_wins_of_best? best
    exact ⟨index, found, wins⟩

/-- **Where something matches, one entry wins.** -/
theorem exists_matched_iff :
    (∃ pattern ∈ expected, ∃ size, pattern.matchEnd? text = some size)
      ↔ ∃! entry : Nat × Match E, Wins text expected entry.1 entry.2 := by
  constructor
  · rintro ⟨pattern, mem, size, matched⟩
    obtain ⟨index, found, wins⟩ := exists_wins mem matched
    refine ⟨(index, found), wins, fun entry wins' => ?_⟩
    obtain ⟨place, same⟩ := wins.unique wins'
    exact Prod.ext place same
  · rintro ⟨⟨index, found⟩, wins, -⟩
    exact ⟨found.pattern, List.mem_of_getElem? wins.place, found.size, wins.matched⟩

namespace Wins

theorem mem (h : Wins text expected index found) : found.pattern ∈ expected :=
  List.mem_of_getElem? h.place

theorem not_unmatched (h : Wins text expected index found) :
    ¬ ∀ pattern ∈ expected, pattern.matchEnd? text = none := fun unmatched =>
  absurd h.matched (by simp [unmatched _ h.mem])

/-- The winning entry has the greatest key. -/
theorem key_le (h : Wins text expected index found) {pattern : Pattern E} {size : Nat}
    (mem : pattern ∈ expected) (matched : pattern.matchEnd? text = some size) :
    (Match.mk size pattern).key ≤ found.key := by
  obtain ⟨index', place⟩ := List.mem_iff_getElem?.1 mem
  rcases Match.rank_le_iff.1 (h.greatest index' ⟨size, pattern⟩ ⟨place, matched⟩) with lt | same
  · exact lt.le
  · exact same.1.le

theorem size_le (h : Wins text expected index found) {pattern : Pattern E} {size : Nat}
    (mem : pattern ∈ expected) (matched : pattern.matchEnd? text = some size) :
    size ≤ found.size :=
  (Prod.Lex.toLex_le_toLex.1 (h.key_le mem matched)).elim Nat.le_of_lt fun same => same.1.le

end Wins

/-! ## Answers -/

section Answers

variable {lexer : Lexer}

theorem next_of_end (ends : lexer.skipBlanks.rest = []) :
    lexer.next expected = (.ok none, lexer.skipBlanks) := by
  simp [next, ends]

theorem next_of_unmatched (further : lexer.skipBlanks.rest ≠ [])
    (unmatched : ∀ pattern ∈ expected, pattern.matchEnd? lexer.skipBlanks.rest = none) :
    lexer.next expected
      = (.error (.unexpected lexer.skipBlanks.offset expected), lexer.skipBlanks) := by
  have none_found : matchesOf lexer.skipBlanks.rest expected = [] := by
    refine List.filterMap_eq_nil_iff.2 fun pattern mem => ?_
    rw [unmatched pattern mem]
    rfl
  simp [next, further, none_found, best?]

/-- The token for a match. -/
def Match.tokenAt (found : Match E) (here : Lexer) : Token (Pattern E) where
  kind := found.pattern
  text := String.ofList (here.rest.take (charCount here.rest found.size))
  start := here.offset
  next := here.offset + found.size

/-- **The winning entry gives the token**, unless its match is empty. -/
theorem next_of_wins (further : lexer.skipBlanks.rest ≠ [])
    (wins : Wins lexer.skipBlanks.rest expected index found) :
    lexer.next expected =
      if found.size = 0 then (.error (.emptyToken lexer.skipBlanks.offset), lexer.skipBlanks)
      else (.ok (some (found.tokenAt lexer.skipBlanks)),
        lexer.skipBlanks.pass found.size) := by
  have best : best? (matchesOf lexer.skipBlanks.rest expected) = some found := by
    cases best : best? (matchesOf lexer.skipBlanks.rest expected) with
    | none =>
      have listed : found ∈ matchesOf lexer.skipBlanks.rest expected :=
        mem_matchesOf.2 ⟨wins.mem, wins.matched⟩
      rw [best?_eq_none_iff.1 best] at listed
      exact absurd listed List.not_mem_nil
    | some other =>
      obtain ⟨_, wins'⟩ := exists_wins_of_best? best
      rw [(wins.unique wins').2]
  simp only [next, best, List.isEmpty_iff, further, if_false]
  rfl

/-- **An answer of the lexer**, by what the expected patterns match. -/
inductive Answers (here : Lexer) (expected : List (Pattern E)) :
    Except (ParseError (Pattern E)) (Option (Token (Pattern E))) → Prop
  | ends (ends : here.rest = []) : Answers here expected (.ok none)
  | unexpected (further : here.rest ≠ [])
      (unmatched : ∀ pattern ∈ expected, pattern.matchEnd? here.rest = none) :
      Answers here expected (.error (.unexpected here.offset expected))
  | emptyToken {index : Nat} {found : Match E} (further : here.rest ≠ [])
      (wins : Wins here.rest expected index found) (empty : found.size = 0) :
      Answers here expected (.error (.emptyToken here.offset))
  | token {index : Nat} {found : Match E} (further : here.rest ≠ [])
      (wins : Wins here.rest expected index found) (pos : 0 < found.size) :
      Answers here expected (.ok (some (found.tokenAt here)))

namespace Answers

variable {here : Lexer} {answer : Except (ParseError (Pattern E)) (Option (Token (Pattern E)))}

theorem eq_end_iff (h : here.Answers expected answer) : answer = .ok none ↔ here.rest = [] := by
  cases h with
  | ends ends => exact iff_of_true rfl ends
  | unexpected further => exact iff_of_false (by simp) further
  | emptyToken further => exact iff_of_false (by simp) further
  | token further => exact iff_of_false (by simp) further

theorem eq_unexpected_iff (h : here.Answers expected answer) :
    answer = .error (.unexpected here.offset expected)
      ↔ here.rest ≠ [] ∧ ∀ pattern ∈ expected, pattern.matchEnd? here.rest = none := by
  cases h with
  | ends ends => exact iff_of_false (by simp) fun other => other.1 ends
  | unexpected further unmatched => exact iff_of_true rfl ⟨further, unmatched⟩
  | emptyToken _ wins => exact iff_of_false (by simp) fun other => wins.not_unmatched other.2
  | token _ wins => exact iff_of_false (by simp) fun other => wins.not_unmatched other.2

theorem eq_emptyToken_iff (h : here.Answers expected answer) :
    answer = .error (.emptyToken here.offset) ↔ here.rest ≠ []
      ∧ (∃ pattern ∈ expected, ∃ size, pattern.matchEnd? here.rest = some size)
      ∧ ∀ pattern ∈ expected, ∀ size,
          pattern.matchEnd? here.rest = some size → size = 0 := by
  cases h with
  | ends ends => exact iff_of_false (by simp) fun other => other.1 ends
  | unexpected _ unmatched =>
    refine iff_of_false (by simp) ?_
    rintro ⟨-, ⟨pattern, mem, size, matched⟩, -⟩
    exact absurd matched (by simp [unmatched pattern mem])
  | emptyToken further wins empty =>
    refine iff_of_true rfl ⟨further, ⟨_, wins.mem, _, wins.matched⟩, ?_⟩
    exact fun pattern mem size matched => Nat.le_zero.1 (empty ▸ wins.size_le mem matched)
  | token _ wins pos =>
    exact iff_of_false (by simp) fun other => pos.ne' (other.2.2 _ wins.mem _ wins.matched)

theorem eq_token_iff (h : here.Answers expected answer) {token : Token (Pattern E)} :
    answer = .ok (some token) ↔ ∃ index found part rest,
      Wins here.rest expected index found ∧ 0 < found.size
        ∧ here.rest = part ++ rest ∧ byteLength part = found.size
        ∧ token = ⟨found.pattern, String.ofList part, here.offset, here.offset + found.size⟩ := by
  constructor
  · rintro rfl
    cases h with
    | @token index found _ wins pos =>
      exact ⟨index, found, _, _, wins, pos, (List.take_append_drop _ _).symm,
        Pattern.byteLength_take_charCount wins.matched, rfl⟩
  · rintro ⟨index, found, part, rest, wins, pos, split, bytes, rfl⟩
    have some : here.rest ≠ [] := by
      rintro none
      obtain ⟨rfl, -⟩ := List.append_eq_nil_iff.1 (split.symm.trans none)
      exact pos.ne bytes
    cases h with
    | ends ends => exact absurd ends some
    | unexpected _ unmatched => exact absurd unmatched wins.not_unmatched
    | emptyToken _ wins' empty => exact absurd ((wins.unique wins').2 ▸ empty) pos.ne'
    | token _ wins' =>
      rw [(wins.unique wins').2, Match.tokenAt, split, ← bytes, charCount_byteLength_append,
        List.take_left]

end Answers

theorem answers_next (lexer : Lexer) (expected : List (Pattern E)) :
    lexer.skipBlanks.Answers expected (lexer.next expected).1 := by
  by_cases ends : lexer.skipBlanks.rest = []
  · rw [next_of_end ends]
    exact .ends ends
  by_cases unmatched : ∀ pattern ∈ expected, pattern.matchEnd? lexer.skipBlanks.rest = none
  · rw [next_of_unmatched ends unmatched]
    exact .unexpected ends unmatched
  · simp only [not_forall, Option.ne_none_iff_exists'] at unmatched
    obtain ⟨pattern, mem, size, matched⟩ := unmatched
    obtain ⟨index, found, wins⟩ := exists_wins mem matched
    rw [next_of_wins ends wins]
    by_cases empty : found.size = 0
    · rw [if_pos empty]
      exact .emptyToken ends wins empty
    · rw [if_neg empty]
      exact .token ends wins (Nat.pos_of_ne_zero empty)

end Answers

/-! ## The order of the expected list -/

/-- **Two regular expressions tie**: they have longest matches of one length, and no literal has one
as long. -/
def RegexTie (text : List Char) (expected : List (Pattern E)) : Prop :=
  ∃ pattern ∈ expected, ∃ other ∈ expected, pattern ≠ other
    ∧ pattern.isLiteral = false ∧ other.isLiteral = false
    ∧ ∃ size, pattern.matchEnd? text = some size ∧ other.matchEnd? text = some size
      ∧ ∀ third ∈ expected, ∀ size', third.matchEnd? text = some size' →
          size' ≤ size ∧ (size' = size → third.isLiteral = false)

/-- **Two literals with matches of one length are the same.** -/
theorem eq_of_isLiteral {pattern other : Pattern E} {size : Nat}
    (literal : pattern.isLiteral = true) (literal' : other.isLiteral = true)
    (matched : pattern.matchEnd? text = some size)
    (matched' : other.matchEnd? text = some size) : pattern = other := by
  cases pattern with
  | regex => exact absurd literal Bool.false_ne_true
  | literal expected =>
    cases other with
    | regex => exact absurd literal' Bool.false_ne_true
    | literal expected' =>
      obtain ⟨rest, split, length⟩ := Pattern.matchLength?_literal.1
        (congrArg (Option.map (charCount text)) matched)
      obtain ⟨rest', split', length'⟩ := Pattern.matchLength?_literal.1
        (congrArg (Option.map (charCount text)) matched')
      exact congrArg Pattern.literal (String.toList_inj.1
        (List.append_inj_left (split.symm.trans split') (length.symm.trans length')))

/-- **Where the order of the expected list matters, two regular expressions tie.** -/
theorem Wins.eq_or_regexTie (perm : expected'.Perm expected)
    (h : Wins text expected index found) (h' : Wins text expected' index' found') :
    found' = found ∨ RegexTie text expected := by
  have mem' : found'.pattern ∈ expected := perm.subset h'.mem
  have key : found'.key = found.key :=
    le_antisymm (h.key_le mem' h'.matched) (h'.key_le (perm.symm.subset h.mem) h.matched)
  obtain ⟨size, sort⟩ := Prod.mk.inj (toLex_inj.1 key)
  have matched' : found'.pattern.matchEnd? text = some found.size := size ▸ h'.matched
  by_cases same : found'.pattern = found.pattern
  · obtain ⟨_, _⟩ := found
    obtain ⟨_, _⟩ := found'
    exact .inl (congrArg₂ Match.mk size same)
  · have regex : found.pattern.isLiteral = false := by
      by_contra literal
      rw [Bool.not_eq_false] at literal
      exact same (eq_of_isLiteral (sort.trans literal) literal matched' h.matched)
    refine .inr ⟨found.pattern, h.mem, found'.pattern, mem', Ne.symm same, regex,
      sort.trans regex, found.size, h.matched, matched', ?_⟩
    refine fun third mem size' matched => ⟨h.size_le mem matched, fun longest => ?_⟩
    rcases Prod.Lex.toLex_le_toLex.1 (h.key_le mem matched) with shorter | ⟨-, le⟩
    · exact absurd longest shorter.ne
    · exact Bool.eq_false_of_le_false (regex ▸ le)

/-- **The order of the expected list** changes nothing, apart from the list in an error, unless two
regular expressions tie. -/
theorem next_perm (lexer : Lexer) (perm : expected'.Perm expected) :
    lexer.next expected' = lexer.next expected
      ∨ (∀ pattern ∈ expected, pattern.matchEnd? lexer.skipBlanks.rest = none)
        ∧ lexer.next expected'
          = (.error (.unexpected lexer.skipBlanks.offset expected'), lexer.skipBlanks)
        ∧ lexer.next expected
          = (.error (.unexpected lexer.skipBlanks.offset expected), lexer.skipBlanks)
      ∨ RegexTie lexer.skipBlanks.rest expected := by
  by_cases ends : lexer.skipBlanks.rest = []
  · exact .inl ((next_of_end ends).trans (next_of_end ends).symm)
  by_cases unmatched : ∀ pattern ∈ expected, pattern.matchEnd? lexer.skipBlanks.rest = none
  · exact .inr (.inl ⟨unmatched, next_of_unmatched ends fun pattern mem =>
      unmatched pattern (perm.subset mem), next_of_unmatched ends unmatched⟩)
  · simp only [not_forall, Option.ne_none_iff_exists'] at unmatched
    obtain ⟨pattern, mem, size, matched⟩ := unmatched
    obtain ⟨index, found, wins⟩ := exists_wins mem matched
    obtain ⟨index', found', wins'⟩ := exists_wins (perm.symm.subset mem) matched
    rcases wins.eq_or_regexTie perm wins' with rfl | tie
    · exact .inl ((next_of_wins ends wins').trans (next_of_wins ends wins).symm)
    · exact .inr (.inr tie)

/-- **The lexer takes the greatest match.**  Behind the blanks the lexer is at the end if nothing is
left there.  Otherwise it fails with all expected patterns if none of them matches.  If some do, one
entry of the list is greater than all others, by the length of its match, then as a literal, then by
its place.  If its match has a length, it is the token; if not, no match has one.

The order of the expected list changes nothing, apart from the list in an error, unless two regular
expressions tie. -/
theorem next_greatest (lexer : Lexer) (expected : List (Pattern E)) :
    let text := lexer.rest.dropWhile Unicode.isBlank
    let start := lexer.offset + byteLength (lexer.rest.takeWhile Unicode.isBlank)
    let answer := (lexer.next expected).1
    (answer = .ok none ↔ text = [])
      ∧ (answer = .error (.unexpected start expected)
          ↔ text ≠ [] ∧ ∀ pattern ∈ expected, pattern.matchEnd? text = none)
      ∧ ((∃ pattern ∈ expected, ∃ size, pattern.matchEnd? text = some size)
          ↔ ∃! entry : Nat × Match E, Wins text expected entry.1 entry.2)
      ∧ (answer = .error (.emptyToken start)
          ↔ text ≠ [] ∧ (∃ pattern ∈ expected, ∃ size, pattern.matchEnd? text = some size)
            ∧ ∀ pattern ∈ expected, ∀ size, pattern.matchEnd? text = some size → size = 0)
      ∧ (∀ token, answer = .ok (some token) ↔ ∃ index found part rest,
          Wins text expected index found ∧ 0 < found.size
            ∧ text = part ++ rest ∧ byteLength part = found.size
            ∧ token = {
                kind := found.pattern
                text := String.ofList part
                start := start
                next := start + found.size })
      ∧ ∀ expected', expected'.Perm expected →
          lexer.next expected' = lexer.next expected
            ∨ (∀ pattern ∈ expected, pattern.matchEnd? text = none)
              ∧ lexer.next expected' = (.error (.unexpected start expected'), ⟨start, text⟩)
              ∧ lexer.next expected = (.error (.unexpected start expected), ⟨start, text⟩)
            ∨ RegexTie text expected := by
  rw [← rest_skipBlanks, ← offset_skipBlanks]
  have answers := lexer.answers_next expected
  exact ⟨answers.eq_end_iff, answers.eq_unexpected_iff, exists_matched_iff,
    answers.eq_emptyToken_iff, fun _ => answers.eq_token_iff, fun _ => next_perm lexer⟩

/-- Of two regular expressions that tie, the first one is taken. -/
example : let wide : Pattern .standard := .ofSource "[a-z]+"
    let narrow : Pattern .standard := .ofSource "[ab]+"
    ((ofString "ab").next [wide, narrow]).1 = .ok (some ⟨wide, "ab", 0, 2⟩)
      ∧ ((ofString "ab").next [narrow, wide]).1 = .ok (some ⟨narrow, "ab", 0, 2⟩) := by
  decide +kernel

end Lexer

end Earley
