import Earley.Regex.Read

/-!
# Proofs/Regex/Reading — escapes and classes before a dollar sign

A dollar sign is appended to the text that an expression is read from.  Whatever is read before its
end is read as it was, and the sign is appended to what is left (`Keeps`).  A reader that stops at
the end fails there, or it is one that skips blanks: then the sign is left over in its place, or a
comment has taken it (`Trails`).

No reader is told how long the text is, apart from the steps that bound its recursion, and with more
steps it comes to the same.
-/

namespace Earley.Regex

variable {flags : Flags} {rest after : List Char} {p : Char → Bool}

/-- Up to a place where it stops, a run is the same before a dollar sign. -/
theorem span_dollar (rest : List Char) (stops : rest.dropWhile p ≠ [] ∨ p '$' = false) :
    (rest ++ ['$']).takeWhile p = rest.takeWhile p
      ∧ (rest ++ ['$']).dropWhile p = rest.dropWhile p ++ ['$'] := by
  induction rest with
  | nil =>
    have stops : p '$' = false := stops.resolve_left (· rfl)
    simp [stops]
  | cons c rest ih =>
    by_cases passes : p c = true
    · rw [List.dropWhile_cons_of_pos passes] at stops
      simp [passes, ih stops]
    · simp [passes]

theorem span_dollar_of_cons {c : Char} (stop : rest.dropWhile p = c :: after) :
    (rest ++ ['$']).takeWhile p = rest.takeWhile p
      ∧ (rest ++ ['$']).dropWhile p = c :: (after ++ ['$']) := by
  have span := span_dollar rest (.inl (stop ▸ List.cons_ne_nil c after))
  rwa [stop, List.cons_append] at span

/-- **What is left of a text, and of the same text before a dollar sign**: the sign stands at the
end, unless a comment there has taken it. -/
def Trails (after longer : List Char) : Prop := longer = after ++ ['$'] ∨ after = [] ∧ longer = []

/-- Blanks and comments are dropped alike. -/
theorem dropBlanks_dollar (comment : Bool) (rest : List Char) :
    Trails (dropBlanks comment rest) (dropBlanks comment (rest ++ ['$'])) := by
  induction rest generalizing comment with
  | nil =>
    cases comment with
    | false => exact .inl (by decide)
    | true => exact .inr (by decide)
  | cons c rest ih =>
    rw [List.cons_append, dropBlanks, dropBlanks]
    split
    · exact ih _
    · split
      · exact ih _
      · split
        · exact ih _
        · exact .inl rfl

theorem skip_nil (flags : Flags) : flags.skip [] = [] := by
  rw [Flags.skip]
  split <;> rfl

theorem skip_dollar (flags : Flags) (rest : List Char) :
    Trails (flags.skip rest) (flags.skip (rest ++ ['$'])) := by
  rw [Flags.skip, Flags.skip]
  split
  · exact dropBlanks_dollar false rest
  · exact .inl rfl

theorem Trails.skip {longer : List Char} (h : Trails rest longer) (flags : Flags) :
    Trails (flags.skip rest) (flags.skip longer) := by
  rcases h with rfl | ⟨rfl, rfl⟩
  · exact skip_dollar flags rest
  · exact .inr ⟨skip_nil flags, skip_nil flags⟩

/-- What stands behind the blanks still stands there before a dollar sign. -/
theorem skip_dollar_of_cons {c : Char} (h : flags.skip rest = c :: after) :
    flags.skip (rest ++ ['$']) = c :: (after ++ ['$']) := by
  rcases skip_dollar flags rest with same | ⟨nothing, -⟩
  · rw [same, h, List.cons_append]
  · exact absurd (nothing.symm.trans h) (List.cons_ne_nil c after).symm

/-- **A reader that succeeds reads the same before a dollar sign.** -/
def Keeps {α : Type} (read : List Char → Option (α × List Char)) : Prop :=
  ∀ rest a after, read rest = some (a, after) → read (rest ++ ['$']) = some (a, after ++ ['$'])

/-- What is made of the result does not matter. -/
theorem Keeps.map {α β : Type} {read : List Char → Option (α × List Char)} (h : Keeps read)
    (f : α → β) : Keeps fun rest => (read rest).map fun (a, after) => (f a, after) := by
  intro rest b after mapped
  obtain ⟨⟨a, after⟩, value, same⟩ := Option.map_eq_some_iff.1 mapped
  obtain ⟨rfl, rfl⟩ := Prod.mk.inj same
  exact Option.map_eq_some_iff.2 ⟨_, h _ _ _ value, rfl⟩

/-- A text that does not begin with a character does not before a dollar sign either. -/
theorem ne_cons_dollar {c : Char} (other : c ≠ '$') (h : ∀ after, rest = c :: after → False) :
    ∀ after, rest ++ ['$'] = c :: after → False := by
  cases rest with
  | nil => exact fun after same => other (List.cons.inj same).1.symm
  | cons d rest => exact fun after same => h rest (by rw [(List.cons.inj same).1])

theorem ne_cons_cons_dollar {c d : Char} (other : c ≠ '$') (other' : d ≠ '$')
    (h : ∀ after, rest = c :: d :: after → False) :
    ∀ after, rest ++ ['$'] = c :: d :: after → False := by
  match rest with
  | [] => exact fun after same => other (List.cons.inj same).1.symm
  | [_] => exact fun after same => other' (List.cons.inj (List.cons.inj same).2).1.symm
  | _ :: _ :: rest =>
    intro after same
    have same := List.cons.inj same
    have same' := List.cons.inj same.2
    exact h rest (by rw [same.1, same'.1])

/-! ## Escapes -/

theorem keeps_readHex (width : Nat) : Keeps (readHex width) := by
  intro rest c after h
  fun_cases readHex width rest with
  | case1 rest none => simp [readHex, none] at h
  | case2 rest _ more stop =>
    simp only [readHex, stop, Option.map_eq_some_iff, Prod.mk.injEq] at h
    obtain ⟨_, value, rfl, rfl⟩ := h
    simp [readHex, span_dollar_of_cons stop, value]
  | case3 rest brace short =>
    rw [readHex, if_pos short] at h
    · cases h
    · exact brace
  | case4 rest brace short =>
    have long : ¬ (rest ++ ['$']).length < width := by
      rw [List.length_append]
      omega
    rw [readHex, if_neg short] at h
    · obtain ⟨_, value, same⟩ := Option.map_eq_some_iff.1 h
      obtain ⟨rfl, rfl⟩ := Prod.mk.inj same
      rw [readHex, if_neg long, List.take_append_of_le_length (Nat.not_lt.1 short), value,
        List.drop_append_of_le_length (Nat.not_lt.1 short)]
      · rfl
      · exact ne_cons_dollar (by decide) brace
    · exact brace

theorem keeps_readProperty (flags : Flags) (negated : Bool) :
    Keeps (readProperty flags negated) := by
  intro rest set after h
  fun_cases readProperty flags negated rest with
  | case1 rest none => simp [readProperty, none] at h
  | case2 rest _ more stop name inverted =>
    simp only [readProperty, stop] at h
    obtain ⟨set, value, same⟩ := Option.map_eq_some_iff.1 h
    obtain ⟨rfl, rfl⟩ := Prod.mk.inj same
    simp only [readProperty, List.cons_append, span_dollar_of_cons stop, value, Option.map_some]
  | case3 rest brace =>
    rw [readProperty] at h
    · cases h
    · exact brace

theorem keeps_readBoundary : Keeps readBoundary := by
  intro rest escape after h
  fun_cases readBoundary rest with
  | case1 c rest isNameChar letter behind stop =>
    have span := span_dollar_of_cons stop
    rw [List.cons_append] at span
    simp only [readBoundary, List.cons_append]
    rw [if_pos letter, span.2, span.1]
    rw [readBoundary, if_pos letter, stop] at h
    obtain ⟨condition, named, same⟩ := Option.map_eq_some_iff.1 h
    obtain ⟨rfl, rfl⟩ := Prod.mk.inj same
    exact Option.map_eq_some_iff.2 ⟨condition, named, rfl⟩
  | case2 c rest isNameChar letter none =>
    rw [readBoundary, if_pos letter] at h
    split at h
    · rename_i stop
      exact (none _ stop).elim
    · cases h
  | case3 c rest isNameChar other =>
    rw [readBoundary, if_neg other] at h
    obtain ⟨rfl, rfl⟩ := Prod.mk.inj (Option.some.inj h)
    simp only [readBoundary, List.cons_append]
    rw [if_neg other]
  | case4 => cases h
  | case5 rest brace single =>
    rw [readBoundary] at h
    · obtain ⟨rfl, rfl⟩ := Prod.mk.inj (Option.some.inj h)
      cases rest with
      | nil => rfl
      | cons c rest =>
        have other : c ≠ '\x7b' := by
          rintro rfl
          cases rest with
          | nil => exact single rfl
          | cons d rest => exact brace d rest rfl
        rw [readBoundary]
        · exact fun _ _ same => other (List.cons.inj same).1
        · exact fun same => other (List.cons.inj same).1
    · exact brace
    · exact single

theorem keeps_readEscape (flags : Flags) : Keeps (readEscape flags) := by
  intro rest escape after h
  fun_cases readEscape flags rest with
  | case1 => cases h
  | case2 rest => exact (keeps_readHex 2).map Escape.char rest _ _ h
  | case3 rest => exact (keeps_readHex 4).map Escape.char rest _ _ h
  | case4 rest => exact (keeps_readHex 8).map Escape.char rest _ _ h
  | case5 rest => exact (keeps_readProperty flags false).map Escape.chars rest _ _ h
  | case6 rest => exact (keeps_readProperty flags true).map Escape.chars rest _ _ h
  | case21 rest => exact keeps_readBoundary rest _ _ h
  | case25 c rest =>
    rename_i escapable
    rw [List.cons_append]
    rw [readEscape, if_pos escapable] at h ⊢ <;> try assumption
    obtain ⟨rfl, rfl⟩ := Prod.mk.inj (Option.some.inj h)
    rfl
  | case26 c rest =>
    rename_i other
    rw [readEscape, if_neg other] at h <;> try assumption
    cases h
  | _ rest =>
    obtain ⟨rfl, rfl⟩ := Prod.mk.inj (Option.some.inj h)
    rfl

/-! ## Classes -/

/-- **A reader fails or succeeds alike before a dollar sign.** -/
def Commutes {α : Type} (read : List Char → Option (α × List Char)) : Prop :=
  ∀ rest, read (rest ++ ['$']) = (read rest).map fun (a, after) => (a, after ++ ['$'])

theorem commutes_readSetOp? : Commutes readSetOp? := by
  intro rest
  fun_cases readSetOp? rest with
  | case4 rest inter diff symmDiff =>
    rw [readSetOp?]
    · rfl
    · exact ne_cons_cons_dollar (by decide) (by decide) inter
    · exact ne_cons_cons_dollar (by decide) (by decide) diff
    · exact ne_cons_cons_dollar (by decide) (by decide) symmDiff
  | _ => rfl

theorem head?_dollar {c : Char} (other : c ≠ '$') (rest : List Char) :
    ((rest ++ ['$']).head? == some c) = (rest.head? == some c) := by
  cases rest with
  | nil => simpa using Ne.symm other
  | cons d rest => rfl

/-- What follows a sign that may be missing. -/
theorem drop_dollar {c : Char} (rest : List Char) :
    (if rest.head? == some c then (rest ++ ['$']).drop 1 else rest ++ ['$'])
      = (if rest.head? == some c then rest.drop 1 else rest) ++ ['$'] := by
  cases rest with
  | nil => rfl
  | cons d rest =>
    split
    · rfl
    · rfl

theorem commutes_readAsciiClass? (flags : Flags) : Commutes (readAsciiClass? flags) := by
  intro rest
  fun_cases readAsciiClass? flags rest with
  | case1 rest negated body after stop =>
    have span := span_dollar_of_cons stop
    dsimp only [body, negated] at span ⊢
    simp only [readAsciiClass?, List.cons_append, head?_dollar (show '^' ≠ '$' by decide),
      drop_dollar, span, Option.map_map]
    rfl
  | case2 rest negated body other =>
    have other' : ∀ after, (body ++ ['$']).dropWhile (· != ':') = ':' :: ']' :: after → False := by
      by_cases stop : body.dropWhile (· != ':') = []
      · simp [List.dropWhile_append, stop]
      · rw [(span_dollar body (.inl stop)).2]
        exact ne_cons_cons_dollar (by decide) (by decide) other
    simp only [readAsciiClass?, List.cons_append, head?_dollar (show '^' ≠ '$' by decide),
      drop_dollar]
    split
    · rename_i after stop
      exact (other' after stop).elim
    · rfl
  | case3 rest colon =>
    rw [readAsciiClass?]
    · rfl
    · exact ne_cons_dollar (by decide) colon

theorem keeps_readClassItem (flags : Flags) : Keeps (readClassItem flags) := by
  intro rest escape after h
  cases rest with
  | nil => cases h
  | cons c rest =>
    by_cases slash : c = '\\'
    · subst slash
      exact keeps_readEscape flags rest _ _ h
    · rw [List.cons_append]
      rw [readClassItem] at h ⊢ <;> try assumption
      obtain ⟨rfl, rfl⟩ := Prod.mk.inj (Option.some.inj h)
      rfl

theorem length_dropBlanks_le (comment : Bool) (rest : List Char) :
    (dropBlanks comment rest).length ≤ rest.length := by
  induction rest generalizing comment with
  | nil => exact Nat.le_refl _
  | cons c rest ih =>
    rw [dropBlanks]
    split
    · exact Nat.le_succ_of_le (ih _)
    · split
      · exact Nat.le_succ_of_le (ih _)
      · split
        · exact Nat.le_succ_of_le (ih _)
        · exact Nat.le_refl _

theorem length_skip_le (flags : Flags) (rest : List Char) :
    (flags.skip rest).length ≤ rest.length := by
  rw [Flags.skip]
  split
  · exact length_dropBlanks_le false rest
  · exact Nat.le_refl _

theorem hyphens_dollar {set set' : CharSet} {c : Char} {fuel fuel' : Nat}
    (enough : rest.length ≤ fuel) (enough' : rest.length ≤ fuel')
    (h : readClassHead.hyphens flags set fuel rest = (set', c :: after)) :
    readClassHead.hyphens flags set fuel' (rest ++ ['$']) = (set', c :: (after ++ ['$'])) := by
  induction fuel generalizing fuel' set rest with
  | zero =>
    obtain rfl := List.eq_nil_of_length_eq_zero (Nat.le_zero.1 enough)
    cases h
  | succ fuel ih =>
    cases rest with
    | nil => cases h
    | cons d rest =>
      obtain ⟨fuel', rfl⟩ := Nat.exists_eq_add_of_le' (Nat.lt_of_lt_of_le (Nat.succ_pos _) enough')
      by_cases hyphen : d = '-'
      · subst hyphen
        have shorter := length_skip_le flags rest
        simp only [List.length_cons] at enough enough'
        simp only [List.cons_append, readClassHead.hyphens] at h ⊢
        rcases skip_dollar flags rest with same | ⟨nothing, -⟩
        · rw [same]
          exact ih (by omega) (by omega) h
        · rw [nothing] at h
          cases fuel <;> cases h
      · rw [readClassHead.hyphens] at h ⊢
        · obtain ⟨rfl, same⟩ := Prod.mk.inj h
          rw [same, List.cons_append]
        · exact fun _ _ _ same => hyphen (List.cons.inj same).1
        · exact fun _ _ _ same => hyphen (List.cons.inj same).1

theorem readClassHead_dollar {negated : Bool} {set : CharSet} {c : Char}
    (h : readClassHead flags rest = (negated, set, c :: after)) :
    readClassHead flags (rest ++ ['$']) = (negated, set, c :: (after ++ ['$'])) := by
  rw [readClassHead] at h ⊢
  cases stop : flags.skip rest with
  | nil => simp [stop, readClassHead.hyphens] at h
  | cons x rest =>
    rw [stop] at h
    rw [skip_dollar_of_cons stop]
    simp only [List.head?_cons, List.drop_succ_cons, List.drop_zero] at h ⊢
    have body : (if some x == some '^' then flags.skip (rest ++ ['$']) else x :: (rest ++ ['$']))
        = (if some x == some '^' then flags.skip rest else x :: rest) ++ ['$']
          ∨ (if some x == some '^' then flags.skip rest else x :: rest) = [] := by
      split
      · exact (skip_dollar flags rest).imp_right And.left
      · exact .inl rfl
    rcases body with same | nothing
    · rw [same]
      split at h
      · rename_i rest' hyphens
        rw [hyphens_dollar (Nat.le_refl _) (by simp) hyphens]
        simp only [Prod.mk.injEq] at h ⊢
        obtain ⟨rfl, rfl, stop⟩ := h
        exact ⟨rfl, rfl, skip_dollar_of_cons stop⟩
      · rename_i set' rest' bracket hyphens
        obtain ⟨rfl, rfl, rfl⟩ : _ ∧ set' = set ∧ rest' = c :: after := by simpa using h
        rw [hyphens_dollar (Nat.le_refl _) (by simp) hyphens]
        split
        · rename_i rest' same
          simp only [Prod.mk.injEq, List.cons.injEq] at same
          obtain ⟨rfl, rfl, -⟩ := same
          exact (bracket after rfl rfl).elim
        · rename_i same
          obtain ⟨rfl, rfl⟩ := Prod.mk.inj same
          rfl
    · rw [nothing] at h
      cases h

theorem keeps_readClassRange (flags : Flags) : Keeps (readClassRange flags) := by
  intro rest set after h
  simp only [readClassRange, Option.bind_eq_bind, Option.bind_eq_some_iff] at h ⊢
  obtain ⟨⟨first, rest'⟩, item, h⟩ := h
  refine ⟨_, keeps_readClassItem flags _ _ _ item, ?_⟩
  dsimp only at h ⊢
  cases stop : flags.skip rest' with
  | nil => simp [stop] at h
  | cons c rest =>
    rw [stop] at h
    rw [skip_dollar_of_cons stop]
    clear stop
    by_cases hyphen : c = '-'
    · subst hyphen
      simp only at h ⊢
      cases stop : flags.skip rest with
      | nil => simp [stop, readClassItem] at h
      | cons d rest =>
        rw [stop] at h
        rw [skip_dollar_of_cons stop]
        clear stop
        by_cases single : d = ']' ∨ d = '-'
        · rcases single with rfl | rfl
          · cases first <;> grind
          · cases first <;> grind
        · obtain ⟨other, other'⟩ := not_or.1 single
          simp only [other, other', imp_self, implies_true, List.cons.injEq, false_and] at h ⊢
          obtain ⟨⟨last, after'⟩, item, h⟩ := Option.bind_eq_some_iff.1 h
          rw [← List.cons_append, keeps_readClassItem flags _ _ _ item]
          cases first <;> cases last <;> grind
    · simp only [hyphen, imp_self, implies_true, List.cons.injEq, false_and] at h ⊢
      cases first <;> grind

/-- There is nothing to read of a class at the end. -/
theorem readClass_nil (flags : Flags) (fuel : Nat) (frames : List ClassFrame) (here : CharSet) :
    readClass flags fuel frames here [] = none := by
  cases fuel with
  | zero => rfl
  | succ fuel =>
    rw [readClass, skip_nil]

theorem readClass_dollar {fuel fuel' : Nat} {frames : List ClassFrame} {here set : CharSet}
    (le : fuel ≤ fuel') (h : readClass flags fuel frames here rest = some (set, after)) :
    readClass flags fuel' frames here (rest ++ ['$']) = some (set, after ++ ['$']) := by
  induction fuel generalizing fuel' frames here rest with
  | zero => cases h
  | succ fuel ih =>
    obtain ⟨fuel', rfl⟩ := Nat.exists_eq_add_of_le' (Nat.lt_of_lt_of_le (Nat.succ_pos _) le)
    have le := Nat.le_of_succ_le_succ le
    rw [readClass] at h ⊢
    cases stop : flags.skip rest with
    | nil => simp [stop] at h
    | cons c rest =>
      rw [stop] at h
      rw [skip_dollar_of_cons stop]
      clear stop
      by_cases opens : c = '['
      · subst opens
        simp only at h ⊢
        rw [commutes_readAsciiClass? flags rest]
        cases named : readAsciiClass? flags rest with
        | some result =>
          rw [named] at h
          exact ih le h
        | none =>
          rw [named] at h
          rcases head : readClassHead flags rest with ⟨negated, set', rest'⟩
          simp only [Option.map_none, head] at h ⊢
          cases rest' with
          | nil => simp [readClass_nil] at h
          | cons d rest' =>
            rw [readClassHead_dollar head]
            exact ih le h
      by_cases closes : c = ']'
      · subst closes
        simp only at h ⊢
        split at h
        · split at h
          · rename_i done
            obtain ⟨rfl, rfl⟩ := Prod.mk.inj (Option.some.inj h)
            rw [if_pos done]
          · rename_i more
            rw [if_neg more]
            exact ih le h
        · cases h
      simp only [opens, closes, imp_self, implies_true, List.cons.injEq, false_and] at h ⊢
      rw [← List.cons_append, commutes_readSetOp? (c :: rest)]
      cases op : readSetOp? (c :: rest) with
      | some result =>
        rw [op] at h
        exact ih le h
      | none =>
        rw [op] at h
        simp only [Option.map_none] at h ⊢
        cases range : readClassRange flags (c :: rest) with
        | none => simp [range] at h
        | some result =>
          rw [range] at h
          rw [keeps_readClassRange flags _ _ _ range]
          exact ih le h

theorem keeps_readBracketed (flags : Flags) : Keeps (readBracketed flags) := by
  intro rest set after h
  rcases head : readClassHead flags rest with ⟨negated, set', rest'⟩
  rw [readBracketed, head] at h
  cases rest' with
  | nil => simp [readClass_nil] at h
  | cons c rest' =>
    rw [readBracketed, readClassHead_dollar head]
    exact readClass_dollar (by simp) h

end Earley.Regex
