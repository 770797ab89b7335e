import Earley.Proofs.RuleText.Patterns
import Earley.Proofs.Regex.Engine

/-!
# Proofs/RuleText/Slashes — a regular expression is known by its source

Between slashes a text is a row of escapes: a backslash takes the character behind it along, and
every other character stands for itself.  Reading makes a bare slash of every escaped one and leaves
all other escapes as they are (`escapes_unescapeSlashes`).  The pattern for regular expressions
leaves no bare slash between its slashes (`exists_inside_of_accepts`), and so the bare slashes of a
source are those that were escaped: with a backslash before each of them the text is back.
-/

namespace Earley.RuleText

open Regex Relation

/-! ## Escapes -/

/-- A character that stands for itself, or a backslash with the character behind it. -/
inductive Escape where
  | plain (c : Char)
  | pair (c : Char)
  deriving DecidableEq

namespace Escape

/-- An escape as it is written. -/
def text : Escape → List Char
  | plain c => [c]
  | pair c => ['\\', c]

/-- Without the backslash before a slash. -/
def bare : Escape → Escape
  | pair '/' => plain '/'
  | escape => escape

/-- With a backslash before a slash. -/
def guarded : Escape → Escape
  | plain '/' => pair '/'
  | escape => escape

theorem bare_ne (escape : Escape) : escape.bare ≠ pair '/' := by
  rw [bare.eq_def]
  split
  · exact Escape.noConfusion
  · assumption

/-- A bare slash is guarded again. -/
theorem guarded_bare {escape : Escape} (h : escape ≠ plain '/') : escape.bare.guarded = escape := by
  rw [bare.eq_def]
  split
  · rfl
  · rw [guarded.eq_def]
    split
    · exact absurd rfl h
    · rfl

end Escape

/-- **A text read in escapes**, from the left.  A backslash at its end has nothing to take along. -/
def escapes : List Char → List Escape
  | [] => []
  | ['\\'] => [.plain '\\']
  | '\\' :: c :: rest => .pair c :: escapes rest
  | c :: rest => .plain c :: escapes rest

/-- A source with a backslash before every slash that is not part of an escape. -/
def guardSlashes (source : List Char) : List Char :=
  (escapes source).flatMap fun escape => escape.guarded.text

variable {text rest : List Char} {quote c : Char} {i j : Nat}

theorem escapes_cons (plain : c ≠ '\\') : escapes (c :: rest) = .plain c :: escapes rest := by
  rw [escapes] <;> simp [plain]

/-- **Escapes make up the text** that they are read from. -/
theorem flatMap_text_escapes (text : List Char) : (escapes text).flatMap Escape.text = text := by
  fun_induction escapes text with
  | case1 => rfl
  | case2 => rfl
  | case3 c rest ih =>
    rw [List.flatMap_cons, ih]
    rfl
  | case4 c rest _ _ ih =>
    rw [List.flatMap_cons, ih]
    rfl

/-- **Reading bares the slashes** and leaves every other escape as it is. -/
theorem escapes_unescapeSlashes (text : List Char) :
    escapes (unescapeSlashes text) = (escapes text).map Escape.bare := by
  fun_induction escapes text with
  | case1 => rfl
  | case2 => rfl
  | case3 c rest ih =>
    rw [unescapeSlashes_backslash, regexEscape, List.map_cons, ← ih]
    split
    · rename_i slash
      subst slash
      exact escapes_cons (by decide)
    · rename_i other
      have kept : Escape.bare (.pair c) = .pair c := by
        rw [Escape.bare]
        simpa using other
      rw [kept]
      rfl
  | case4 c rest single pair ih =>
    have plain : c ≠ '\\' := by
      rintro rfl
      cases rest with
      | nil => exact single rfl rfl
      | cons d rest => exact pair d rest rfl rfl
    rw [unescapeSlashes_cons plain, escapes_cons plain, List.map_cons, ih]
    rfl

/-- **With its slashes guarded a source is the text** that it was read from, if none was bare. -/
theorem guardSlashes_unescapeSlashes (h : .plain '/' ∉ escapes text) :
    guardSlashes (unescapeSlashes text) = text := by
  rw [guardSlashes, escapes_unescapeSlashes, List.flatMap_map]
  refine (List.flatMap_congr fun escape mem => ?_).trans (flatMap_text_escapes text)
  rw [Escape.guarded_bare fun same => h (same ▸ mem)]

/-! ## What the pattern accepts -/

/-- **A round between quotes** goes over a plain character or over a pair. -/
theorem leads_unit (h : (unit quote).Leads text i j) :
    (∃ c, text[i]? = some c ∧ c ≠ quote ∧ c ≠ '\\' ∧ j = i + 1)
      ∨ ∃ c, text[i]? = some '\\' ∧ text[i + 1]? = some c ∧ j = i + 2 := by
  rcases h with ⟨rfl, one⟩ | ⟨_, ⟨rfl, first⟩, ⟨rfl, second⟩⟩
  · obtain ⟨c, place, inside⟩ := (Option.any_eq_true _ _).1 one
    rw [contains_plain, decide_eq_true_eq] at inside
    exact .inl ⟨c, place, inside.1, inside.2, rfl⟩
  · obtain ⟨c, place, backslash⟩ := (Option.any_eq_true _ _).1 first
    obtain ⟨d, behind, -⟩ := (Option.any_eq_true _ _).1 second
    rw [CharSet.contains_single, decide_eq_true_eq] at backslash
    exact .inr ⟨d, backslash ▸ place, behind, rfl⟩

theorem drop_take_eq_cons (place : text[i]? = some c) (lt : i < j) :
    (text.take j).drop i = c :: (text.take j).drop (i + 1) := by
  have bound := (List.getElem?_eq_some_iff.1 place).1
  rw [List.drop_eq_getElem_cons (by rw [List.length_take]; omega), List.getElem_take]
  rw [List.getElem?_eq_getElem bound, Option.some.injEq] at place
  rw [place]

/-- **No quote stands bare** in what the rounds between quotes go over. -/
theorem not_mem_escapes_of_rounds (h : ReflTransGen ((unit quote).Leads text) i j) :
    .plain quote ∉ escapes ((text.take j).drop i) := by
  induction h using ReflTransGen.head_induction_on with
  | refl =>
    rw [List.drop_eq_nil_of_le (List.length_take_le j text)]
    exact List.not_mem_nil
  | head round further ih =>
    have le := Leads.le (r := loop (unit quote) true) further
    rcases leads_unit round with ⟨c, place, inside, other, rfl⟩ | ⟨c, place, behind, rfl⟩
    · rw [drop_take_eq_cons place (by omega), escapes_cons other]
      exact List.not_mem_cons_of_ne_of_not_mem
        (fun same => inside (Escape.plain.inj same).symm) ih
    · rw [drop_take_eq_cons place (by omega), drop_take_eq_cons behind (by omega), escapes]
      exact List.not_mem_cons_of_ne_of_not_mem Escape.noConfusion ih

/-- **An expression between both ends** leads over the whole text. -/
theorem leads_whole_of_isMatch {r : Regex}
    (h : (seq (seq (look .textStart) r) (look .textEnd)).isMatch text = true) :
    r.Leads text 0 text.length := by
  obtain ⟨start, _, le, stop, ⟨_, ⟨rfl, first⟩, leads⟩, rfl, last⟩ := leads_of_isMatch h
  have none : text.take start = [] := by simpa [Look.holds, Cursor.spot] using first
  have rest : text.length ≤ stop := by simpa [Look.holds, Cursor.spot] using last
  have begins : start = 0 := by
    have length := congrArg List.length none
    rw [List.length_take, List.length_nil] at length
    have := leads.le
    omega
  rwa [begins, Nat.le_antisymm le rest] at leads

/-- **A regular expression as it is written** has no bare slash between its slashes. -/
theorem exists_inside_of_accepts {text : String} (h : slashed.accepts text = true) :
    ∃ raw, text.toList = '/' :: (raw ++ ['/']) ∧ .plain '/' ∉ escapes raw := by
  have read : Regex.read? ("^(?:".toList ++ "/(?:[^/\\\\]|\\\\.)*/".toList ++ ")$".toList)
      = some (seq (seq (look .textStart) (quoted '/')) (look .textEnd)) := rfl
  rw [slashed, Pattern.accepts_ofSource read] at h
  obtain ⟨last, ⟨_, ⟨rfl, opened⟩, rounds⟩, length, closed⟩ := leads_whole_of_isMatch h
  obtain ⟨c, begins, slash⟩ := (Option.any_eq_true _ _).1 opened
  obtain ⟨d, ends, slash'⟩ := (Option.any_eq_true _ _).1 closed
  rw [CharSet.contains_single, decide_eq_true_eq] at slash slash'
  subst slash slash'
  have le := Leads.le (r := loop (unit '/') true) rounds
  refine ⟨(text.toList.take last).drop 1, ?_, not_mem_escapes_of_rounds rounds⟩
  have split := drop_take_eq_cons begins (show 0 < last by omega)
  rw [List.drop_zero, Nat.zero_add] at split
  rw [← List.cons_append, ← split, ← Option.toList_some, ← ends, ← List.take_add_one, length,
    List.take_length]

/-! ## Reading undone -/

/-- **A regular expression is known by its source.**  A text that the pattern for regular
expressions accepts as a whole is its source with a backslash before every slash outside of
escapes, between slashes.  So no two texts have the same source.  Read in escapes from the left, the
source has those of the text, all as they were but for the escaped slashes, and it has no escaped
slash. -/
theorem slashes_restored {text : String} (h : slashed.accepts text = true) :
    String.ofList ('/' :: (guardSlashes (unslash text).toList ++ ['/'])) = text
      ∧ (∀ other, slashed.accepts other = true → unslash other = unslash text → other = text)
      ∧ escapes (unslash text).toList = (escapes (inside text.toList)).map Escape.bare
      ∧ .pair '/' ∉ escapes (unslash text).toList := by
  have restored : ∀ text, slashed.accepts text = true →
      String.ofList ('/' :: (guardSlashes (unslash text).toList ++ ['/'])) = text := by
    intro text accepts
    obtain ⟨raw, same, guarded⟩ := exists_inside_of_accepts accepts
    have inner : inside text.toList = raw := by simp [inside, same]
    rw [unslash, String.toList_ofList, inner, guardSlashes_unescapeSlashes guarded, ← same,
      String.ofList_toList]
  have kept : escapes (unslash text).toList = (escapes (inside text.toList)).map Escape.bare := by
    rw [unslash, String.toList_ofList, escapes_unescapeSlashes]
  refine ⟨restored text h, fun other accepts same => ?_, kept, ?_⟩
  · rw [← restored other accepts, same, restored text h]
  · rw [kept, List.mem_map]
    rintro ⟨escape, -, same⟩
    exact escape.bare_ne same

/-- Behind an escaped backslash a slash is escaped on its own. -/
theorem slashes_restored_backslashes :
    slashed.accepts "/a\\\\\\/\\d/" = true ∧ unslash "/a\\\\\\/\\d/" = "a\\\\/\\d"
      ∧ String.ofList ('/' :: (guardSlashes "a\\\\/\\d".toList ++ ['/'])) = "/a\\\\\\/\\d/" := by
  have accepts : slashed.accepts "/a\\\\\\/\\d/" = true := by decide +kernel
  have source : unslash "/a\\\\\\/\\d/" = "a\\\\/\\d" := by decide +kernel
  refine ⟨accepts, source, ?_⟩
  rw [← source]
  exact (slashes_restored accepts).1

end Earley.RuleText
