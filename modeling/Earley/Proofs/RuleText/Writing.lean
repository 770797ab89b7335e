import Earley.Proofs.RuleText.Agreement
import Earley.RuleText.Productions

/-!
# Proofs/RuleText/Writing — rules that are written out and read again

A rule is written as its name, an arrow and its alternatives between bars; a literal stands between
quotes of either kind, a regular expression between slashes, and a backslash goes before every
character that would end them (`spelling`).  Blanks may stand anywhere between these parts, and
there is at least one between two symbols (`Written`).  Whatever is written in this way is read
again as the productions that it was written from.
-/

namespace Earley.RuleText

open Unicode (isBlank)

variable {E : Engine}

/-! ## Writing -/

/-- A text with a backslash before each of some characters. -/
def protect (special : List Char) (text : List Char) : List Char :=
  text.flatMap fun c => if c ∈ special then ['\\', c] else [c]

/-- **Names** of productions and nonterminals. -/
def IsName (name : String) : Prop :=
  ∃ c rest, name.toList = c :: rest ∧ isNameStart c = true ∧ ∀ d ∈ rest, isNameRest d = true

/-- **Sources that may stand between slashes**: every backslash has a character behind it, and that
is neither a slash nor the end of a line. -/
def isSlashable : List Char → Bool
  | [] => true
  | ['\\'] => false
  | '\\' :: c :: rest => c != '/' && c != '\n' && isSlashable rest
  | _ :: rest => isSlashable rest

/-- **Symbols that can be written**: names, all literals, and regular expressions with a source that
may stand between slashes. -/
def Writable : Symbol (Pattern E) → Prop
  | .nonterminal name => IsName name
  | .terminal (.literal _) => True
  | .terminal (.regex matcher) => isSlashable matcher.source.toList = true

/-- **A symbol as it is written**, a literal between quotes of the given kind. -/
def spelling (quote : Char) : Symbol (Pattern E) → List Char
  | .nonterminal name => name.toList
  | .terminal (.literal text) => quote :: (protect ['\\', quote] text.toList ++ [quote])
  | .terminal (.regex matcher) => '/' :: (protect ['/'] matcher.source.toList ++ ['/'])

/-- **A written sequence**: its symbols with blanks before each of them, at least one between
two. -/
inductive WrittenSequence : List (Symbol (Pattern E)) → List Char → Prop
  | nil : WrittenSequence [] []
  | cons {symbol : Symbol (Pattern E)} {symbols : List (Symbol (Pattern E))} {gap text : List Char}
      {quote : Char} (blank : AllBlank gap) (writable : Writable symbol)
      (quotes : quote = '"' ∨ quote = '\'') (rest : WrittenSequence symbols text)
      (apart : ∀ c ∈ text.head?, isBlank c = true) :
      WrittenSequence (symbol :: symbols) (gap ++ (spelling quote symbol ++ text))

/-- **Written alternatives**: sequences with bars between them. -/
inductive WrittenBody : List (List (Symbol (Pattern E))) → List Char → Prop
  | one {symbols : List (Symbol (Pattern E))} {text : List Char}
      (sequence : WrittenSequence symbols text) : WrittenBody [symbols] text
  | more {symbols : List (Symbol (Pattern E))} {sequences : List (List (Symbol (Pattern E)))}
      {text gap rest : List Char} (sequence : WrittenSequence symbols text) (blank : AllBlank gap)
      (others : WrittenBody sequences rest) :
      WrittenBody (symbols :: sequences) (text ++ (gap ++ '|' :: rest))

/-- **A written rule**: its name, an arrow and its alternatives, with blanks around them. -/
inductive Written (name : String) (sequences : List (List (Symbol (Pattern E)))) : List Char → Prop
  | rule {lead gap body trail : List Char} (named : IsName name) (leads : AllBlank lead)
      (blank : AllBlank gap) (inner : WrittenBody sequences body) (trails : AllBlank trail) :
      Written name sequences
        (lead ++ (name.toList ++ (gap ++ '-' :: '>' :: body) ++ trail))

/-- The atom that a symbol is read as. -/
def atomOf : Symbol (Pattern E) → Atom
  | .nonterminal name => .name name
  | .terminal (.literal text) => .literal text
  | .terminal (.regex matcher) => .regex matcher.source

variable {symbol : Symbol (Pattern E)} {symbols : List (Symbol (Pattern E))} {name : String}
  {sequences : List (List (Symbol (Pattern E)))} {quote c : Char} {escape : Char → List Char}
  {special text tail rest : List Char}

/-! ## Reading what stands between quotes -/

theorem protect_cons_of_mem (h : c ∈ special) :
    protect special (c :: text) = '\\' :: c :: protect special text := by
  rw [protect, List.flatMap_cons, if_pos h]
  rfl

theorem protect_cons_of_not_mem (h : c ∉ special) :
    protect special (c :: text) = c :: protect special text := by
  rw [protect, List.flatMap_cons, if_neg h]
  rfl

theorem scanQuoted_quote : scanQuoted quote escape (quote :: rest) = some ([], rest) := by
  rw [scanQuoted.eq_def]
  exact if_pos rfl

theorem scanQuoted_backslash (plain : quote ≠ '\\') (inside : c ≠ '\n') :
    scanQuoted quote escape ('\\' :: c :: rest)
      = (scanQuoted quote escape rest).map (Prod.map (escape c ++ ·) id) := by
  rw [scanQuoted.eq_def]
  simp only [if_neg plain.symm, if_true, if_neg inside]

theorem scanQuoted_plain (inside : c ≠ quote) (plain : c ≠ '\\') :
    scanQuoted quote escape (c :: rest)
      = (scanQuoted quote escape rest).map (Prod.map (c :: ·) id) := by
  rw [scanQuoted.eq_def]
  simp only [if_neg inside, if_neg plain]

/-- **A protected literal** is scanned up to its closing quote. -/
theorem scanQuoted_protect_literal (plain : quote ≠ '\\') (line : quote ≠ '\n')
    (text : List Char) :
    scanQuoted quote literalEscape (protect ['\\', quote] text ++ quote :: tail)
      = some (text, tail) := by
  induction text with
  | nil => exact scanQuoted_quote
  | cons c text ih =>
    by_cases special : c ∈ ['\\', quote]
    · have inside : c ≠ '\n' := by
        rintro rfl
        rcases List.mem_pair.1 special with same | same
        · exact absurd same (by decide)
        · exact line same.symm
      rw [protect_cons_of_mem special, List.cons_append, List.cons_append,
        scanQuoted_backslash plain inside, ih]
      rfl
    · obtain ⟨other, inside⟩ := not_or.1 (mt List.mem_pair.2 special)
      rw [protect_cons_of_not_mem special, List.cons_append, scanQuoted_plain inside other, ih]
      rfl

/-- **A protected source** is scanned up to the closing slash. -/
theorem scanQuoted_protect_source {source : List Char} (h : isSlashable source = true) :
    scanQuoted '/' regexEscape (protect ['/'] source ++ '/' :: tail) = some (source, tail) := by
  have plain : '/' ≠ '\\' := by decide
  fun_induction isSlashable source with
  | case1 => exact scanQuoted_quote
  | case2 => exact nomatch h
  | case3 c rest ih =>
    obtain ⟨⟨slash, line⟩, further⟩ : (c ≠ '/' ∧ c ≠ '\n') ∧ isSlashable rest = true := by
      simpa using h
    rw [protect_cons_of_not_mem (by decide), protect_cons_of_not_mem (by simpa using slash),
      List.cons_append, List.cons_append, scanQuoted_backslash plain line, ih further, regexEscape,
      if_neg slash]
    rfl
  | case4 c rest single pair ih =>
    by_cases slash : c = '/'
    · rw [slash, protect_cons_of_mem (List.mem_singleton_self _), List.cons_append,
        List.cons_append, scanQuoted_backslash plain (by decide), ih h]
      rfl
    · have other : c ≠ '\\' := by
        rintro rfl
        cases rest with
        | nil => exact single rfl rfl
        | cons d rest => exact pair d rest rfl rfl
      rw [protect_cons_of_not_mem (by simpa using slash), List.cons_append,
        scanQuoted_plain slash other, ih h]
      rfl

/-! ## Reading symbols -/

theorem isBlank_of_isNameRest (h : isNameRest c = true) : isBlank c = false := by
  have code : 48 ≤ c.toNat ∧ c.toNat < 0x80 := by
    simp only [isNameRest, isNameStart, Bool.or_eq_true, Bool.and_eq_true, decide_eq_true_eq,
      Char.le_def, UInt32.le_iff_toNat_le] at h
    rcases h with ((⟨low, high⟩ | ⟨low, high⟩) | rfl) | ⟨low, high⟩
    · exact ⟨le_trans (by decide) low, lt_of_le_of_lt high (by decide)⟩
    · exact ⟨le_trans (by decide) low, lt_of_le_of_lt high (by decide)⟩
    · decide
    · exact ⟨low, lt_of_le_of_lt high (by decide)⟩
  have space : c ≠ ' ' := by
    rintro rfl
    exact absurd code.1 (by decide)
  have control : ¬ c.toNat ≤ 13 := by omega
  simp [isBlank, code.2, space, control]

theorem not_isNameRest_of_isBlank (h : isBlank c = true) : isNameRest c = false := by
  cases inName : isNameRest c with
  | false => rfl
  | true => exact nomatch (isBlank_of_isNameRest inName).symm.trans h

theorem isNameRest_of_isNameStart (h : isNameStart c = true) : isNameRest c = true := by
  rw [isNameRest, h, Bool.true_or]

/-- **A symbol begins** with a character that is not blank. -/
theorem Writable.exists_head (h : Writable symbol) (quotes : quote = '"' ∨ quote = '\'') :
    ∃ c rest, spelling quote symbol = c :: rest ∧ isBlank c = false := by
  rcases symbol with (text | matcher) | name
  · refine ⟨quote, _, rfl, ?_⟩
    rcases quotes with rfl | rfl <;> decide
  · exact ⟨'/', _, rfl, by decide⟩
  · obtain ⟨c, rest, same, start, -⟩ := h
    exact ⟨c, rest, same, isBlank_of_isNameRest (isNameRest_of_isNameStart start)⟩

/-- **A symbol ends** with a character that is not blank. -/
theorem Writable.exists_last (h : Writable symbol) (quotes : quote = '"' ∨ quote = '\'') :
    ∃ rest c, spelling quote symbol = rest ++ [c] ∧ isBlank c = false := by
  rcases symbol with (text | matcher) | name
  · refine ⟨quote :: protect ['\\', quote] text.toList, quote, rfl, ?_⟩
    rcases quotes with rfl | rfl <;> decide
  · exact ⟨'/' :: protect ['/'] matcher.source.toList, '/', rfl, by decide⟩
  · obtain ⟨c, rest, same, start, others⟩ := h
    have all : ∀ d ∈ name.toList, isNameRest d = true := by
      rw [same]
      exact List.forall_mem_cons.2 ⟨isNameRest_of_isNameStart start, others⟩
    have some : name.toList ≠ [] := by simp [same]
    exact ⟨_, _, (List.dropLast_append_getLast some).symm,
      isBlank_of_isNameRest (all _ (List.getLast_mem some))⟩

/-- **A name is read** as far as it goes. -/
theorem IsName.scanName? (h : IsName name) (stop : ∀ c ∈ tail.head?, isNameRest c = false) :
    scanName? (name.toList ++ tail) = some (name, tail) := by
  obtain ⟨c, rest, same, start, others⟩ := h
  rw [same, List.cons_append, RuleText.scanName?, if_pos start,
    takeWhile_append_of_stop others stop, dropWhile_append_of_stop others stop, ← same,
    String.ofList_toList]

/-- **A symbol is read as its atom**, if no name goes on behind it. -/
theorem Writable.scanLexeme? (h : Writable symbol) (quotes : quote = '"' ∨ quote = '\'')
    (stop : ∀ c ∈ tail.head?, isNameRest c = false) :
    scanLexeme? (spelling quote symbol ++ tail) = some (.symbol (atomOf symbol), tail) := by
  rcases symbol with (text | matcher) | name
  · have plain : quote ≠ '\\' ∧ quote ≠ '\n' ∧ quote ≠ '|' := by
      rcases quotes with rfl | rfl <;> decide
    rw [spelling, List.cons_append, List.append_assoc, List.singleton_append,
      RuleText.scanLexeme?, if_neg plain.2.2, if_pos quotes,
      scanQuoted_protect_literal plain.1 plain.2.1]
    simp [atomOf]
  · rw [spelling, List.cons_append, List.append_assoc, List.singleton_append,
      RuleText.scanLexeme?, if_neg (by decide), if_neg (by decide), if_pos rfl,
      scanQuoted_protect_source h]
    simp [atomOf]
  · have read := IsName.scanName? h stop
    obtain ⟨c, rest, same, start, -⟩ := h
    rw [same, List.cons_append] at read
    rw [spelling, same, List.cons_append, scanLexeme?_of_name start, read]
    rfl

/-! ## Reading rules -/

/-- Behind blanks no name goes on. -/
theorem not_isNameRest_behind_blanks {gap : List Char} (blank : AllBlank gap)
    (other : ∀ c ∈ rest.head?, isNameRest c = false) :
    ∀ c ∈ (gap ++ rest).head?, isNameRest c = false := by
  cases gap with
  | nil => exact other
  | cons d gap =>
    intro c first
    obtain rfl : d = c := Option.some.inj first
    exact not_isNameRest_of_isBlank (blank d List.mem_cons_self)

/-- **A sequence is read to its end.** -/
theorem WrittenSequence.finish (h : WrittenSequence symbols text)
    (stop : ∀ c ∈ tail.head?, isNameRest c = false) (done : List (List Atom))
    (front : List Atom) :
    (Progress.body name (done ++ [front])).finish (text ++ tail)
      = (Progress.body name (done ++ [front ++ symbols.map atomOf])).finish tail := by
  induction h generalizing front with
  | nil => simp
  | @cons symbol symbols gap text quote blank writable quotes rest apart ih =>
    obtain ⟨c, further, head, solid⟩ := writable.exists_head quotes
    have ahead : (gap ++ (spelling quote symbol ++ text) ++ tail).dropWhile isBlank
        = spelling quote symbol ++ (text ++ tail) := by
      rw [List.append_assoc, List.append_assoc]
      refine dropWhile_append_of_stop blank ?_
      simp [head, solid]
    have stops : ∀ c ∈ (text ++ tail).head?, isNameRest c = false := by
      cases text with
      | nil => exact stop
      | cons c text =>
        intro d first
        exact not_isNameRest_of_isBlank (apart d first)
    have read : (Progress.body name (done ++ [front])).scan?
          (spelling quote symbol ++ (text ++ tail))
        = some (.body name (done ++ [front ++ [atomOf symbol]]), text ++ tail) := by
      rw [Progress.scan?, writable.scanLexeme? quotes stops]
      simp [addLexeme]
    rw [Progress.finish_of_some ahead read, ih]
    simp

/-- **Alternatives are read to their end.** -/
theorem WrittenBody.finish (h : WrittenBody sequences text) (blank : AllBlank tail)
    (done : List (List Atom)) :
    (Progress.body name (done ++ [[]])).finish (text ++ tail)
      = .complete name (done ++ sequences.map (List.map atomOf)) := by
  induction h generalizing done with
  | one sequence =>
    have stop : ∀ c ∈ tail.head?, isNameRest c = false := by
      rw [← List.append_nil tail]
      exact not_isNameRest_behind_blanks blank nofun
    rw [sequence.finish stop, Progress.finish_of_blank (List.dropWhile_eq_nil_iff.2 blank)]
    rfl
  | @more symbols sequences text gap rest sequence blank' _ ih =>
    have stop : ∀ c ∈ (gap ++ '|' :: (rest ++ tail)).head?, isNameRest c = false :=
      not_isNameRest_behind_blanks blank' (by
        rintro _ ⟨⟩
        decide)
    have read : (Progress.body name (done ++ [symbols.map atomOf])).scan? ('|' :: (rest ++ tail))
        = some (.body name (done ++ [symbols.map atomOf] ++ [[]]), rest ++ tail) := rfl
    have ahead : (gap ++ '|' :: (rest ++ tail)).dropWhile isBlank = '|' :: (rest ++ tail) :=
      dropWhile_append_of_stop blank' (by
        rintro _ ⟨⟩
        decide)
    rw [List.append_assoc, List.append_assoc, List.cons_append, sequence.finish stop,
      List.nil_append, Progress.finish_of_some ahead read, ih]
    simp

/-- **A rule is read to its end.** -/
theorem Written.scanRule {text : String} (h : Written name sequences text.toList) :
    scanRule text = .complete name (sequences.map (List.map atomOf)) := by
  rw [RuleText.scanRule]
  generalize text.toList = text at h
  obtain @⟨lead, gap, body, trail, named, leads, blank, inner, trails⟩ := h
  obtain ⟨first, others, same, start, -⟩ := id named
  have solid : isBlank first = false := isBlank_of_isNameRest (isNameRest_of_isNameStart start)
  have atName : (lead ++ (name.toList ++ (gap ++ '-' :: '>' :: body) ++ trail)).dropWhile isBlank
      = name.toList ++ (gap ++ '-' :: '>' :: (body ++ trail)) := by
    rw [List.append_assoc, List.append_assoc, List.cons_append, List.cons_append]
    refine dropWhile_append_of_stop leads ?_
    simp [same, solid]
  have stop : ∀ c ∈ (gap ++ '-' :: '>' :: (body ++ trail)).head?, isNameRest c = false :=
    not_isNameRest_behind_blanks blank (by
      rintro _ ⟨⟩
      decide)
  have readName : Progress.start.scan? (name.toList ++ (gap ++ '-' :: '>' :: (body ++ trail)))
      = some (.named name, gap ++ '-' :: '>' :: (body ++ trail)) := by
    rw [Progress.scan?, named.scanName? stop]
    rfl
  have atArrow : (gap ++ '-' :: '>' :: (body ++ trail)).dropWhile isBlank
      = '-' :: '>' :: (body ++ trail) := dropWhile_append_of_stop blank (by
    rintro _ ⟨⟩
    decide)
  rw [Progress.finish_of_some atName readName, Progress.finish_of_some atArrow rfl]
  exact inner.finish trails []

end Earley.RuleText
