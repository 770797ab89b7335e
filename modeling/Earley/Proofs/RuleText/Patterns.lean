import Earley.Proofs.Lexer
import Earley.Proofs.Regex.Engine
import Earley.Proofs.RuleText.Scanner

/-!
# Proofs/RuleText/Patterns — the patterns of rules match what the scanner reads

The regular expressions for names and for quoted texts leave no choice: a name goes as far as its
characters do, and between quotes each round takes a plain character or a backslash with the
character behind it.  So each of the patterns that may come next matches exactly where the scanner
reads a lexeme of its kind, and just as far (`Progress.scan?_of_match`,
`Progress.exists_match_of_scan?`).
-/

namespace Earley

open Regex

/-! ## Quoted texts -/

namespace RuleText

/-- The rounds between quotes: a plain character, or a backslash and a character behind it. -/
def unit (quote : Char) : Regex :=
  alt (oneOf (.compl (.union (.union .none (.single quote)) (.single '\\'))))
    (seq (oneOf (.single '\\')) (oneOf (.compl (.single '\n'))))

/-- Rounds between quotes. -/
def quoted (quote : Char) : Regex :=
  seq (seq (oneOf (.single quote)) (loop (unit quote) true)) (oneOf (.single quote))

/-- A letter or an underscore, and any number of those and of digits. -/
def nameRegex : Regex :=
  seq (oneOf (.union (.union (.union .none (.range 'a' 'z')) (.range 'A' 'Z')) (.single '_')))
    (loop (oneOf (.union (.union (.union (.union .none (.range 'a' 'z')) (.range 'A' 'Z'))
      (.range '0' '9')) (.single '_'))) true)

variable {quote : Char} {escape : Char → List Char} {address : Address} {pos : Nat}
  {before : Option Char} {rest : List Char} {passed : List Address}

theorem contains_plain {c : Char} :
    (CharSet.compl (.union (.union .none (.single quote)) (.single '\\'))).contains c
      = decide (c ≠ quote ∧ c ≠ '\\') := by
  simp [CharSet.contains, CharSet.contains_single]

/-- **A round between quotes** leads on to one cursor or nowhere. -/
theorem ends_unit (h : address ∉ passed) :
    (unit quote).ends address ⟨pos, before, rest, some passed⟩
      = match rest with
        | [] => []
        | c :: rest =>
          if c = '\\' then
            match rest with
            | [] => []
            | escaped :: rest =>
              if escaped = '\n' then [] else [⟨pos + 2, some escaped, rest, some []⟩]
          else if c = quote then [] else [⟨pos + 1, some c, rest, some []⟩] := by
  have pass : Cursor.pass? address ⟨pos, before, rest, some passed⟩
      = some ⟨pos, before, rest, some (address :: passed)⟩ := if_neg h
  rw [unit, ends, pass]
  cases rest with
  | nil => rfl
  | cons c rest =>
    have compl : ∀ x, (CharSet.compl (.single '\n')).contains x = decide (x ≠ '\n') := by
      simp [CharSet.contains, CharSet.contains_single]
    rcases eq_or_ne c '\\' with rfl | plain
    · cases rest with
      | nil => simp [ends, Cursor.step, CharSet.contains_single, contains_plain]
      | cons escaped rest =>
        rcases eq_or_ne escaped '\n' with rfl | inside
        · simp [ends, Cursor.step, CharSet.contains_single, contains_plain, compl]
        · simp [ends, Cursor.step, CharSet.contains_single, contains_plain, compl, inside]
    · rcases eq_or_ne c quote with rfl | inside
      · simp [ends, Cursor.step, CharSet.contains_single, contains_plain, plain]
      · simp [ends, Cursor.step, CharSet.contains_single, contains_plain, plain, inside]

/-- **Cursors come to a quote** only from the best of them, and it leads there. -/
def ClosesAt (quote : Char) (cursors closing : List Cursor) : Prop :=
  ∃ best others, cursors = best :: others ∧ (∀ other ∈ others, other.step (.single quote) = [])
    ∧ best.step (.single quote) = closing

theorem closesAt_singleton {c : Cursor} : ClosesAt quote [c] (c.step (.single quote)) :=
  ⟨c, [], rfl, fun _ mem => absurd mem List.not_mem_nil, rfl⟩

theorem ClosesAt.append {cursors closing : List Cursor} (h : ClosesAt quote cursors closing)
    {c : Cursor} (idle : c.step (.single quote) = []) :
    ClosesAt quote (cursors ++ [c]) closing := by
  obtain ⟨best, others, rfl, idles, closes⟩ := h
  refine ⟨best, others ++ [c], rfl, fun other mem => ?_, closes⟩
  rcases List.mem_append.1 mem with mem | mem
  · exact idles other mem
  · rw [List.mem_singleton.1 mem, idle]

/-- Nothing else comes of them behind the quote. -/
theorem ClosesAt.flatMap_eq {cursors closing : List Cursor} (h : ClosesAt quote cursors closing) :
    (Cursor.distinct cursors).flatMap (Cursor.step (.single quote)) = closing := by
  obtain ⟨best, others, rfl, idles, rfl⟩ := h
  obtain ⟨others', same, subset⟩ := Cursor.exists_distinct_cons best others
  rw [same, List.flatMap_cons, List.flatMap_eq_nil_iff.2 fun c mem => idles c (subset mem),
    List.append_nil]

/-- The cursor behind the closing quote, if the scanner finds one in a text that ends at `stop`. -/
def closing (quote : Char) (escape : Char → List Char) (stop : Nat) (rest : List Char) :
    List Cursor :=
  ((scanQuoted quote escape rest).map fun scanned =>
    ⟨stop - scanned.2.length, some quote, scanned.2, some []⟩).toList

section Rounds

variable {round : Cursor → List Cursor} {steps : Nat}

theorem closesAt_rounds_of_stuck {closing : List Cursor}
    (stuck : round ⟨pos, before, rest, some [address]⟩ = [])
    (closes : Cursor.step (.single quote) ⟨pos, before, rest, some [address]⟩ = closing) :
    ClosesAt quote (rounds round address true (steps + 1) [] ⟨pos, before, rest, some []⟩)
      closing := by
  rw [rounds_of_stuck stuck, ← closes]
  exact closesAt_singleton

theorem closesAt_rounds_of_next {next : Cursor} {closing : List Cursor}
    (h : round ⟨pos, before, rest, some [address]⟩ = [next]) (lt : pos < next.pos)
    (idle : Cursor.step (.single quote) ⟨pos, before, rest, some [address]⟩ = [])
    (further : ClosesAt quote (rounds round address true steps [] next) closing) :
    ClosesAt quote (rounds round address true (steps + 1) [] ⟨pos, before, rest, some []⟩)
      closing := by
  rw [rounds_of_next h lt]
  exact further.append idle

end Rounds

theorem step_quote_of_ne {c : Char} {passed : Option (List Address)} (other : c ≠ quote) :
    Cursor.step (.single quote) ⟨pos, before, c :: rest, passed⟩ = [] :=
  Cursor.step_of_not_contains (by simp [CharSet.contains_single, other])

/-- **The rounds between quotes close** where the scanner finds the closing quote. -/
theorem closesAt_rounds {steps stop : Nat} (plain : quote ≠ '\\') (enough : rest.length < steps)
    (ends : pos + rest.length = stop) :
    ClosesAt quote (rounds ((unit quote).ends (0 :: address)) address true steps []
      ⟨pos, before, rest, some []⟩) (closing quote escape stop rest) := by
  have fresh : 0 :: address ∉ [address] := by simp
  obtain ⟨steps, rfl⟩ := Nat.exists_eq_add_one_of_ne_zero (Nat.ne_zero_of_lt enough)
  rw [closing]
  fun_induction scanQuoted quote escape rest generalizing pos before steps with
  | case1 => exact closesAt_rounds_of_stuck (ends_unit fresh) (Cursor.step_nil)
  | case2 rest =>
    have stuck : (unit quote).ends (0 :: address) ⟨pos, before, quote :: rest, some [address]⟩
        = [] := by
      rw [ends_unit fresh]
      simp [plain]
    obtain rfl : pos + 1 + rest.length = stop := by
      rw [← ends, List.length_cons]
      omega
    refine closesAt_rounds_of_stuck stuck ?_
    rw [Cursor.step_of_contains (by simp [CharSet.contains_single])]
    simp
  | case3 =>
    have stuck : (unit quote).ends (0 :: address) ⟨pos, before, ['\\'], some [address]⟩ = [] := by
      rw [ends_unit fresh]
      simp
    exact closesAt_rounds_of_stuck stuck (step_quote_of_ne plain.symm)
  | case4 rest =>
    have stuck : (unit quote).ends (0 :: address)
        ⟨pos, before, '\\' :: '\n' :: rest, some [address]⟩ = [] := by
      rw [ends_unit fresh]
      simp
    exact closesAt_rounds_of_stuck stuck (step_quote_of_ne plain.symm)
  | case5 escaped rest inside _ ih =>
    rw [List.length_cons, List.length_cons] at enough ends
    have next : (unit quote).ends (0 :: address)
        ⟨pos, before, '\\' :: escaped :: rest, some [address]⟩
          = [⟨pos + 2, some escaped, rest, some []⟩] := by
      rw [ends_unit fresh]
      simp [inside]
    obtain ⟨steps, rfl⟩ := Nat.exists_eq_add_one_of_ne_zero
      (Nat.ne_zero_of_lt (Nat.lt_of_succ_lt_succ enough))
    rw [Option.map_map]
    exact closesAt_rounds_of_next next (Nat.lt_add_of_pos_right Nat.two_pos)
      (step_quote_of_ne plain.symm) (ih (by omega) steps (by omega))
  | case6 c rest other escapes ih =>
    rw [List.length_cons] at enough ends
    have next : (unit quote).ends (0 :: address) ⟨pos, before, c :: rest, some [address]⟩
          = [⟨pos + 1, some c, rest, some []⟩] := by
      rw [ends_unit fresh]
      simp [other, escapes]
    obtain ⟨steps, rfl⟩ := Nat.exists_eq_add_one_of_ne_zero
      (Nat.ne_zero_of_lt (Nat.lt_of_succ_lt_succ enough))
    rw [Option.map_map]
    exact closesAt_rounds_of_next next (Nat.lt_succ_self pos) (step_quote_of_ne other)
      (ih (by omega) steps (by omega))

/-- **A quoted text is matched** exactly where the scanner reads one, and as far. -/
theorem matchLength?_quoted {source : String}
    {valid : (Matcher.compile .standard source).toOption.isSome = true} (plain : quote ≠ '\\')
    (escape : Char → List Char)
    (read : Regex.read? ("^(?:".toList ++ source.toList ++ ")".toList)
      = some (seq (look .textStart) (quoted quote))) {text : List Char} {length : Nat} :
    (Pattern.ofSource source valid).matchLength? text = some length
      ↔ ∃ rest inside after, text = quote :: rest
        ∧ scanQuoted quote escape rest = some (inside, after)
        ∧ length = text.length - after.length := by
  rw [Pattern.matchLength?_ofSource read, find?_textStart, quoted]
  cases text with
  | nil => simp [ends, Cursor.step]
  | cons c rest =>
    rcases eq_or_ne c quote with rfl | other
    · have inside : (CharSet.single c).contains c = true := by simp [CharSet.contains_single]
      have closes : ClosesAt c ((loop (unit c) true).ends [1, 0, 1] ⟨1, some c, rest, some []⟩)
          (closing c escape (1 + rest.length) rest) :=
        closesAt_rounds plain (Nat.lt_succ_self _) rfl
      rw [ends, ends_seq_oneOf inside, Cursor.head?_distinct]
      change ((Cursor.distinct _).flatMap (Cursor.step _)).head?.map _ = _ ↔ _
      rw [Nat.zero_add, closes.flatMap_eq, closing]
      cases scanned : scanQuoted c escape rest with
      | none => simp [scanned]
      | some found =>
        obtain ⟨inside, after⟩ := found
        simp [scanned, Nat.add_comm 1, eq_comm]
    · have outside : (CharSet.single quote).contains c = false := by
        simp [CharSet.contains_single, other]
      rw [ends, ends_seq_oneOf_of_not outside]
      simp [other]

theorem contains_nameStart {c : Char} : CharSet.contains (.union (.union (.union .none
    (.range 'a' 'z')) (.range 'A' 'Z')) (.single '_')) c = isNameStart c := by
  simp [CharSet.contains, CharSet.contains_single, isNameStart]

theorem contains_nameRest : CharSet.contains (.union (.union (.union (.union .none
    (.range 'a' 'z')) (.range 'A' 'Z')) (.range '0' '9')) (.single '_')) = isNameRest := by
  funext c
  simp only [CharSet.contains, CharSet.contains_single, isNameRest, isNameStart, Bool.false_or]
  rw [Bool.or_right_comm]

/-- **A name is matched** exactly where the scanner reads one, and as far. -/
theorem matchLength?_identifier {text : List Char} {length : Nat} :
    identifier.matchLength? text = some length ↔ ∃ c rest, text = c :: rest
      ∧ isNameStart c = true ∧ length = (rest.takeWhile isNameRest).length + 1 := by
  have read : Regex.read? ("^(?:".toList ++ "[a-zA-Z_][a-zA-Z0-9_]*".toList ++ ")".toList)
      = some (seq (look .textStart) nameRegex) := rfl
  rw [identifier, Pattern.matchLength?_ofSource read, find?_textStart, nameRegex]
  cases text with
  | nil => simp [ends, Cursor.step]
  | cons c rest =>
    cases start : isNameStart c with
    | false =>
      rw [ends_seq_oneOf_of_not (contains_nameStart.trans start)]
      simp [start]
    | true =>
      obtain ⟨best, others, same, run⟩ := exists_ends_loop_oneOf (.union (.union (.union
        (.union .none (.range 'a' 'z')) (.range 'A' 'Z')) (.range '0' '9')) (.single '_')) [1, 1]
          (0 + 1) (some c) rest
      have place := run.pos_eq
      rw [contains_nameRest] at place
      rw [ends_seq_oneOf (contains_nameStart.trans start), same, Cursor.head?_distinct,
        List.head?_cons, Option.map_some, place, Option.some.injEq]
      constructor
      · rintro rfl
        exact ⟨c, rest, rfl, start, Nat.add_comm 1 _⟩
      · rintro ⟨_, _, split, -, rfl⟩
        obtain ⟨-, rfl⟩ := List.cons.inj split
        exact Nat.add_comm 1 _

/-! ## Decoding -/

/-- **What the scanner decodes** is decoded by any function that follows the same rules. -/
theorem exists_raw_of_scanQuoted {decode : List Char → List Char} (nil : decode [] = [])
    (plain : ∀ c rest, c ≠ '\\' → decode (c :: rest) = c :: decode rest)
    (escaped : ∀ c rest, decode ('\\' :: c :: rest) = escape c ++ decode rest)
    {content after : List Char} (h : scanQuoted quote escape rest = some (content, after)) :
    ∃ raw, rest = raw ++ quote :: after ∧ decode raw = content := by
  fun_induction scanQuoted quote escape rest generalizing content with
  | case1 => cases h
  | case2 rest =>
    obtain ⟨rfl, rfl⟩ := Prod.mk.inj (Option.some.inj h)
    exact ⟨[], rfl, nil⟩
  | case3 => cases h
  | case4 => cases h
  | case5 c rest _ _ ih =>
    obtain ⟨content, found, rfl⟩ := map_prodMap_eq_some_iff.1 h
    obtain ⟨raw, rfl, rfl⟩ := ih found
    exact ⟨'\\' :: c :: raw, rfl, escaped c raw⟩
  | case6 c rest _ other ih =>
    obtain ⟨content, found, rfl⟩ := map_prodMap_eq_some_iff.1 h
    obtain ⟨raw, rfl, rfl⟩ := ih found
    exact ⟨c :: raw, rfl, plain c raw other⟩

theorem unescape_cons {c : Char} (plain : c ≠ '\\') :
    unescape (c :: rest) = c :: unescape rest := by
  rw [unescape] <;> simp [plain]

theorem unescapeSlashes_cons {c : Char} (plain : c ≠ '\\') :
    unescapeSlashes (c :: rest) = c :: unescapeSlashes rest := by
  rw [unescapeSlashes] <;> simp [plain]

theorem unescapeSlashes_backslash {c : Char} :
    unescapeSlashes ('\\' :: c :: rest) = regexEscape c ++ unescapeSlashes rest := by
  rw [unescapeSlashes, regexEscape]
  split <;> rfl

/-- **Between quotes** a token holds what the scanner decodes, and ends where it does. -/
theorem quoted_token (decode : List Char → List Char) (nil : decode [] = [])
    (plain : ∀ c rest, c ≠ '\\' → decode (c :: rest) = c :: decode rest)
    (escaped : ∀ c rest, decode ('\\' :: c :: rest) = escape c ++ decode rest)
    {content after : List Char} (h : scanQuoted quote escape rest = some (content, after)) :
    decode (inside ((quote :: rest).take ((quote :: rest).length - after.length))) = content
      ∧ (quote :: rest).drop ((quote :: rest).length - after.length) = after := by
  obtain ⟨raw, rfl, decoded⟩ := exists_raw_of_scanQuoted nil plain escaped h
  have split : quote :: (raw ++ quote :: after) = (quote :: raw ++ [quote]) ++ after := by simp
  have length : (quote :: (raw ++ quote :: after)).length - after.length
      = (quote :: raw ++ [quote]).length := by
    rw [split, List.length_append, Nat.add_sub_cancel]
  rw [length, split, List.take_left, List.drop_left]
  exact ⟨by simp [inside, decoded], rfl⟩

/-! ## Tokens -/

/-- The lexeme that a token stands for. -/
def lexemeOf (token : Token (Pattern .standard)) : Lexeme :=
  if token.kind = .literal "|" then .bar
  else if token.kind = identifier then .symbol (.name token.text)
  else if token.kind = slashed then .symbol (.regex (unslash token.text))
  else .symbol (.literal (unquote token.text))

/-- How far a rule was read with one more token. -/
def Progress.push : Progress → Token (Pattern .standard) → Progress
  | start, token => named token.text
  | named name, _ => body name [[]]
  | body name sequences, token => body name (addLexeme sequences (lexemeOf token))

variable {token : Token (Pattern .standard)} {text : List Char} {length : Nat}

/-- The kinds of lexemes are told apart. -/
theorem nodup_lexemeKinds : lexemeKinds.Nodup := by
  simp [lexemeKinds, identifier, doubleQuoted, singleQuoted, slashed]

theorem lexemeOf_bar (h : token.kind = .literal "|") : lexemeOf token = .bar := if_pos h

theorem lexemeOf_identifier (h : token.kind = identifier) :
    lexemeOf token = .symbol (.name token.text) := by
  have bar : identifier ≠ .literal "|" := Pattern.ofSource_ne_literal
  rw [lexemeOf, h, if_neg bar, if_pos rfl]

theorem lexemeOf_slashed (h : token.kind = slashed) :
    lexemeOf token = .symbol (.regex (unslash token.text)) := by
  have bar : slashed ≠ .literal "|" := Pattern.ofSource_ne_literal
  have name : slashed ≠ identifier := by simp [slashed, identifier]
  rw [lexemeOf, h, if_neg bar, if_neg name, if_pos rfl]

theorem lexemeOf_quoted (h : token.kind = doubleQuoted ∨ token.kind = singleQuoted) :
    lexemeOf token = .symbol (.literal (unquote token.text)) := by
  have others : ∀ kind, kind = doubleQuoted ∨ kind = singleQuoted →
      kind ≠ .literal "|" ∧ kind ≠ identifier ∧ kind ≠ slashed := by
    rintro _ (rfl | rfl) <;> simp [doubleQuoted, singleQuoted, identifier, slashed]
  obtain ⟨bar, name, slashes⟩ := others _ h
  rw [lexemeOf, if_neg bar, if_neg name, if_neg slashes]

/-- Names are matched as the scanner reads them. -/
theorem scanName?_of_match (matched : identifier.matchLength? text = some length) :
    scanName? text = some (String.ofList (text.take length), text.drop length) := by
  obtain ⟨c, rest, rfl, start, rfl⟩ := matchLength?_identifier.1 matched
  rw [scanName?, if_pos start, List.take_succ_cons, List.drop_succ_cons, take_length_takeWhile,
    drop_length_takeWhile]

theorem exists_match_of_scanName? {name : String} {after : List Char}
    (h : scanName? text = some (name, after)) :
    ∃ length, identifier.matchLength? text = some length := by
  cases text with
  | nil => exact nomatch h
  | cons c rest =>
    rw [scanName?] at h
    split_ifs at h with start
    exact ⟨_, matchLength?_identifier.2 ⟨c, rest, rfl, start, rfl⟩⟩

theorem matchLength?_doubleQuoted (escape : Char → List Char) :
    doubleQuoted.matchLength? text = some length ↔ ∃ rest content after, text = '"' :: rest
      ∧ scanQuoted '"' escape rest = some (content, after)
      ∧ length = text.length - after.length :=
  matchLength?_quoted (by decide) escape rfl

theorem matchLength?_singleQuoted (escape : Char → List Char) :
    singleQuoted.matchLength? text = some length ↔ ∃ rest content after, text = '\'' :: rest
      ∧ scanQuoted '\'' escape rest = some (content, after)
      ∧ length = text.length - after.length :=
  matchLength?_quoted (by decide) escape rfl

theorem matchLength?_slashed (escape : Char → List Char) :
    slashed.matchLength? text = some length ↔ ∃ rest content after, text = '/' :: rest
      ∧ scanQuoted '/' escape rest = some (content, after)
      ∧ length = text.length - after.length :=
  matchLength?_quoted (by decide) escape rfl

/-- Where a name begins no other lexeme does. -/
theorem scanLexeme?_of_name {c : Char} (start : isNameStart c = true) :
    scanLexeme? (c :: rest)
      = (scanName? (c :: rest)).map (Prod.map (fun name => .symbol (.name name)) id) := by
  have other : ∀ x, isNameStart x = false → c ≠ x := by
    rintro _ no rfl
    exact Bool.false_ne_true (no.symm.trans start)
  rw [scanLexeme?, if_neg (other '|' (by decide)),
    if_neg (not_or.2 ⟨other '"' (by decide), other '\'' (by decide)⟩),
    if_neg (other '/' (by decide))]

/-- A quoted literal is read as the text between its quotes. -/
theorem scanLexeme?_of_quote (quotes : quote = '"' ∨ quote = '\'')
    (own : token.kind = doubleQuoted ∨ token.kind = singleQuoted) {content after : List Char}
    (scanned : scanQuoted quote literalEscape rest = some (content, after))
    (same : token.text
      = String.ofList ((quote :: rest).take ((quote :: rest).length - after.length))) :
    scanLexeme? (quote :: rest)
      = some (lexemeOf token, (quote :: rest).drop ((quote :: rest).length - after.length)) := by
  have bar : quote ≠ '|' := by
    rintro rfl
    exact absurd quotes (by decide)
  obtain ⟨decoded, behind⟩ := quoted_token unescape rfl (fun _ _ => unescape_cons)
    (fun _ _ => rfl) scanned
  rw [lexemeOf_quoted own, unquote, same, String.toList_ofList, decoded, behind, scanLexeme?,
    if_neg bar, if_pos quotes, scanned]
  rfl

/-- **A lexeme is read** where a pattern for one matches, and as far. -/
theorem scanLexeme?_of_match
    (mem : token.kind ∈ lexemeKinds) (matched : token.kind.matchLength? text = some length)
    (same : token.text = String.ofList (text.take length)) :
    scanLexeme? text = some (lexemeOf token, text.drop length) := by
  simp only [lexemeKinds, List.mem_cons, List.not_mem_nil, or_false] at mem
  rcases mem with bar | name | double | single | slashes
  · rw [bar] at matched
    obtain ⟨rest, rfl, rfl⟩ := Pattern.matchLength?_literal.1 matched
    rw [lexemeOf_bar bar]
    rfl
  · rw [name] at matched
    obtain ⟨c, rest, rfl, start, -⟩ := matchLength?_identifier.1 matched
    rw [lexemeOf_identifier name, scanLexeme?_of_name start, scanName?_of_match matched, same]
    rfl
  · rw [double, matchLength?_doubleQuoted literalEscape] at matched
    obtain ⟨rest, content, after, rfl, scanned, rfl⟩ := matched
    exact scanLexeme?_of_quote (.inl rfl) (.inl double) scanned same
  · rw [single, matchLength?_singleQuoted literalEscape] at matched
    obtain ⟨rest, content, after, rfl, scanned, rfl⟩ := matched
    exact scanLexeme?_of_quote (.inr rfl) (.inr single) scanned same
  · rw [slashes, matchLength?_slashed regexEscape] at matched
    obtain ⟨rest, content, after, rfl, scanned, rfl⟩ := matched
    obtain ⟨decoded, behind⟩ := quoted_token unescapeSlashes rfl
      (fun _ _ => unescapeSlashes_cons) (fun _ _ => unescapeSlashes_backslash) scanned
    rw [lexemeOf_slashed slashes, unslash, same, String.toList_ofList, decoded, behind,
      scanLexeme?, scanned]
    rfl

/-- **Where a lexeme is read, a pattern for one matches.** -/
theorem exists_match_of_scanLexeme? {lexeme : Lexeme} {after : List Char}
    (h : scanLexeme? text = some (lexeme, after)) :
    ∃ pattern ∈ lexemeKinds, ∃ length, pattern.matchLength? text = some length := by
  cases text with
  | nil => exact nomatch h
  | cons c rest =>
    rw [scanLexeme?] at h
    split_ifs at h with bar quote slash
    · subst bar
      exact ⟨.literal "|", by simp [lexemeKinds], 1,
        Pattern.matchLength?_literal.2 ⟨rest, rfl, rfl⟩⟩
    · obtain ⟨content, scanned, -⟩ := map_prodMap_eq_some_iff.1 h
      rcases quote with rfl | rfl
      · exact ⟨doubleQuoted, by simp [lexemeKinds], _,
          (matchLength?_doubleQuoted literalEscape).2 ⟨_, _, _, rfl, scanned, rfl⟩⟩
      · exact ⟨singleQuoted, by simp [lexemeKinds], _,
          (matchLength?_singleQuoted literalEscape).2 ⟨_, _, _, rfl, scanned, rfl⟩⟩
    · obtain ⟨content, scanned, -⟩ := map_prodMap_eq_some_iff.1 h
      subst slash
      exact ⟨slashed, by simp [lexemeKinds], _,
        (matchLength?_slashed regexEscape).2 ⟨_, _, _, rfl, scanned, rfl⟩⟩
    · obtain ⟨name, found, -⟩ := map_prodMap_eq_some_iff.1 h
      exact ⟨identifier, by simp [lexemeKinds], exists_match_of_scanName? found⟩

namespace Progress

variable {progress further : Progress}

/-- **The scanner reads what the lexer takes**, and as far. -/
theorem scan?_of_match (mem : token.kind ∈ progress.admissible)
    (matched : token.kind.matchLength? text = some length)
    (same : token.text = String.ofList (text.take length)) :
    progress.scan? text = some (progress.push token, text.drop length) := by
  cases progress with
  | start =>
    rw [List.mem_singleton.1 mem] at matched
    rw [scan?, scanName?_of_match matched, push, same]
    rfl
  | named name =>
    rw [List.mem_singleton.1 mem] at matched
    obtain ⟨rest, rfl, rfl⟩ := Pattern.matchLength?_literal.1 matched
    rfl
  | body name sequences =>
    rw [scan?, scanLexeme?_of_match mem matched same]
    rfl

/-- **Where the scanner reads on, an admissible pattern matches.** -/
theorem exists_match_of_scan? {after : List Char}
    (h : progress.scan? text = some (further, after)) :
    ∃ pattern ∈ progress.admissible, ∃ length, pattern.matchLength? text = some length := by
  fun_cases scan? progress text with
  | case1 =>
    obtain ⟨name, found, -⟩ := map_prodMap_eq_some_iff.1 h
    exact ⟨identifier, List.mem_singleton_self _, exists_match_of_scanName? found⟩
  | case2 name rest =>
    exact ⟨.literal "->", List.mem_singleton_self _, 2,
      Pattern.matchLength?_literal.2 ⟨rest, rfl, rfl⟩⟩
  | case3 name _ other =>
    rw [scan?] at h
    · cases h
    · exact other
  | case4 =>
    obtain ⟨lexeme, found, -⟩ := map_prodMap_eq_some_iff.1 h
    exact exists_match_of_scanLexeme? found

/-- Where no admissible pattern matches, the scanner is stuck. -/
theorem scan?_eq_none (unmatched : ∀ pattern ∈ progress.admissible,
    pattern.matchLength? text = none) : progress.scan? text = none := by
  by_contra some
  obtain ⟨⟨further, after⟩, scanned⟩ := Option.ne_none_iff_exists'.1 some
  obtain ⟨pattern, mem, length, matched⟩ := exists_match_of_scan? scanned
  rw [unmatched pattern mem] at matched
  cases matched

/-- **No admissible pattern matches the empty text**, for the scanner always goes on. -/
theorem matchLength_pos {pattern : Pattern .standard} (mem : pattern ∈ progress.admissible)
    (matched : pattern.matchLength? text = some length) : 0 < length := by
  have read : progress.scan? text = some (progress.push ⟨pattern, String.ofList (text.take length),
      0, 0⟩, text.drop length) := scan?_of_match mem matched rfl
  have lt := length_lt_of_scan? read
  rw [List.length_drop] at lt
  omega

end Progress

end RuleText

end Earley
