import Earley.Proofs.Regex.Cut
import Earley.Proofs.Regex.Reading

/-!
# Proofs/Regex/Framing — what a dollar sign behind an expression adds

The two frames of a source differ in a dollar sign at the end.  The items of the source are read
alike in both (`Reader.readItem_dollar`), and the sign becomes a condition at the end of what is
then the last alternative of the outermost group, which need not be one that the source began with;
a comment that is open takes it away (`Closing`).  The condition holds at the end of a text, and so
whatever leads to the end in the frame at the beginning does so in the frame at both ends
(`leads_whole`).
-/

namespace Earley.Regex

variable {flags : Flags} {rest after : List Char}

/-! ## Flags, names and repetitions -/

theorem keeps_readFlags (flags : Flags) (seen : List Char) : Keeps (readFlags flags seen) := by
  intro rest flags' after h
  induction rest generalizing flags seen with
  | nil => cases h
  | cons c rest ih =>
    rw [readFlags] at h
    rw [List.cons_append, readFlags]
    split at h
    · rename_i ends
      rw [if_pos ends]
      split at h
      · cases h
      · rename_i letters
        obtain ⟨rfl, rfl⟩ := Prod.mk.inj (Option.some.inj h)
        rw [if_neg letters]
        rfl
    · rename_i letter
      rw [if_neg letter]
      split at h
      · cases h
      · rename_i unseen
        rw [if_neg unseen]
        split at h
        · rename_i hyphen
          rw [if_pos hyphen]
          exact ih _ _ h
        · rename_i other
          rw [if_neg other]
          split at h
          · exact ih _ _ h
          · cases h

theorem keeps_readName (names : List (List Char)) : Keeps (readName names) := by
  intro rest name after h
  rw [readName] at h ⊢
  cases stop : rest.dropWhile (· != '>') with
  | nil => simp [stop] at h
  | cons c rest' =>
    have span := span_dollar_of_cons stop
    rw [span.1, span.2]
    rw [stop] at h
    obtain ⟨valid, same⟩ := Option.ite_none_right_eq_some.1 h
    obtain ⟨rfl, rfl⟩ := Prod.mk.inj (Option.some.inj same)
    exact if_pos valid

theorem readNumber_dollar (rest : List Char) :
    readNumber (rest ++ ['$']) = ((readNumber rest).1, (readNumber rest).2 ++ ['$']) := by
  have blank : Unicode.isBlank '$' = false := by decide
  have digit : Char.isDigit '$' = false := by decide
  simp only [readNumber, (span_dollar _ (.inr blank)).2, span_dollar _ (.inr digit)]

theorem readGreed_dollar (flags : Flags) (rest : List Char) :
    readGreed flags (rest ++ ['$'])
      = ((readGreed flags rest).1, (readGreed flags rest).2 ++ ['$']) := by
  fun_cases readGreed flags rest with
  | case1 => rfl
  | case2 rest mark =>
    rw [readGreed]
    exact ne_cons_dollar (by decide) mark

theorem readBounds_dollar {least : Nat} {most : Option Nat}
    (h : readBounds flags rest = some (least, most, after)) :
    readBounds flags (rest ++ ['$']) = some (least, most, after ++ ['$']) := by
  rcases skip_dollar flags rest with same | ⟨nothing, -⟩
  · rw [readBounds] at h ⊢
    rw [same, readNumber_dollar]
    split at h
    · rename_i first rest' number
      simp only [Option.some.injEq, Prod.mk.injEq] at h
      obtain ⟨rfl, rfl, rfl⟩ := h
      rw [number]
      rfl
    · rename_i first rest' number
      rw [number]
      simp only [List.cons_append]
      split at h
      · rename_i rest' stop
        simp only [Option.some.injEq, Prod.mk.injEq] at h
        obtain ⟨rfl, rfl, rfl⟩ := h
        rw [skip_dollar_of_cons stop]
        rfl
      · rename_i brace
        rcases skip_dollar flags rest' with same' | ⟨nothing, -⟩
        · rw [same']
          split at h
          · rename_i last rest' number'
            obtain ⟨valid, same⟩ := Option.ite_none_right_eq_some.1 h
            simp only [Option.some.injEq, Prod.mk.injEq] at same
            obtain ⟨rfl, rfl, rfl⟩ := same
            split
            · rename_i stop
              exact (ne_cons_dollar (by decide) brace _ stop).elim
            · rw [readNumber_dollar, number']
              exact if_pos valid
          · cases h
        · rw [nothing] at h
          cases h
    · cases h
  · rw [readBounds, nothing] at h
    cases h

/-! ## Items -/

namespace Reader

variable {reader reader' : Reader}

theorem keeps_readOpening (reader : Reader) : Keeps reader.readOpening := by
  intro rest reader' after h
  -- a group with a name is read alike behind either sign
  have named := (keeps_readName reader.names).map fun name =>
    ({ reader.openGroup with names := name :: reader.names } : Reader)
  fun_cases reader.readOpening rest with
  | case1 | case2 | case3 | case4 => cases h
  | case5 rest => exact named rest _ _ h
  | case6 rest =>
    rw [List.cons_append, List.cons_append]
    rw [readOpening] at h ⊢ <;> try assumption
    · exact named rest _ _ h
    · exact ne_cons_dollar (by decide) (by assumption)
    · exact ne_cons_dollar (by decide) (by assumption)
  | case7 rest =>
    rename_i letters
    rw [readOpening, letters] at h <;> try assumption
    obtain ⟨rfl, rfl⟩ := Prod.mk.inj (Option.some.inj h)
    rw [List.cons_append, readOpening, keeps_readFlags _ _ _ _ _ letters]
    · rfl
    all_goals
      first
      | exact ne_cons_dollar (by decide) (by assumption)
      | exact ne_cons_cons_dollar (by decide) (by decide) (by assumption)
  | case8 rest =>
    rename_i letters unset
    rw [readOpening, letters] at h <;> try assumption
    simp [unset] at h
  | case9 rest =>
    rename_i letters set
    rw [readOpening, letters] at h <;> try assumption
    obtain ⟨-, same⟩ := Option.ite_none_left_eq_some.1 h
    obtain ⟨rfl, rfl⟩ := Prod.mk.inj (Option.some.inj same)
    rw [← head?_dollar (by decide)] at set
    rw [List.cons_append, readOpening, keeps_readFlags _ _ _ _ _ letters]
    · exact if_neg set
    all_goals
      first
      | exact ne_cons_dollar (by decide) (by assumption)
      | exact ne_cons_cons_dollar (by decide) (by decide) (by assumption)
  | case10 rest =>
    rename_i opening setting
    rw [readOpening] at h <;> try assumption
    split at h
    · rename_i letters
      exact (opening _ _ letters).elim
    · rename_i letters
      exact (setting _ _ letters).elim
    · cases h
  | case11 rest =>
    rename_i mark
    rw [readOpening] at h <;> try assumption
    obtain ⟨rfl, rfl⟩ := Prod.mk.inj (Option.some.inj h)
    have mark := ne_cons_dollar (by decide) mark
    rw [readOpening]
    all_goals exact fun _ same => mark _ same

/-- The repetition of the last item. -/
theorem repeatLast_dollar {least : Nat} {most : Option Nat} {longer : List Char}
    (trails : Trails rest longer)
    (h : (reader.repeatLast (readGreed flags rest).1 least most).map
      (·, (readGreed flags rest).2) = some (reader', after)) :
    ∃ longer', (reader.repeatLast (readGreed flags longer).1 least most).map
      (·, (readGreed flags longer).2) = some (reader', longer') ∧ Trails after longer' := by
  rcases trails with rfl | ⟨rfl, rfl⟩
  · rw [readGreed_dollar]
    obtain ⟨_, value, same⟩ := Option.map_eq_some_iff.1 h
    obtain ⟨rfl, rfl⟩ := Prod.mk.inj same
    exact ⟨_, Option.map_eq_some_iff.2 ⟨_, value, rfl⟩, .inl rfl⟩
  · obtain ⟨_, value, same⟩ := Option.map_eq_some_iff.1 h
    obtain ⟨rfl, rfl⟩ := Prod.mk.inj same
    exact ⟨_, h, .inr ⟨rfl, rfl⟩⟩

/-- **An item is read alike before a dollar sign.** -/
theorem readItem_dollar {c : Char} (h : reader.readItem c rest = some (reader', after)) :
    ∃ longer, reader.readItem c (rest ++ ['$']) = some (reader', longer) ∧ Trails after longer := by
  -- an item of a single character
  have add {reader'' : Reader} (h : some (reader'', rest) = some (reader', after)) :
      ∃ longer, some (reader'', rest ++ ['$']) = some (reader', longer) ∧ Trails after longer := by
    obtain ⟨rfl, rfl⟩ := Prod.mk.inj (Option.some.inj h)
    exact ⟨_, rfl, .inl rfl⟩
  fun_cases reader.readItem c rest with
  | case1 =>
    rw [readItem] at h ⊢
    rcases skip_dollar reader.flags rest with same | ⟨nothing, nothing'⟩
    · rw [same]
      exact ⟨_, keeps_readOpening reader _ _ _ h, .inl rfl⟩
    · rw [nothing']
      rw [nothing] at h
      obtain ⟨rfl, rfl⟩ := Prod.mk.inj (Option.some.inj h)
      exact ⟨_, rfl, .inr ⟨rfl, rfl⟩⟩
  | case2 =>
    rw [readItem] at h ⊢
    obtain ⟨_, value, same⟩ := Option.map_eq_some_iff.1 h
    obtain ⟨rfl, rfl⟩ := Prod.mk.inj same
    exact ⟨_, Option.map_eq_some_iff.2 ⟨_, value, rfl⟩, .inl rfl⟩
  | case3 | case10 | case11 | case12 => exact add h
  | case4 =>
    have keeps := (keeps_readBracketed reader.flags).map fun chars => reader.push (oneOf chars)
    exact ⟨_, keeps _ _ _ h, .inl rfl⟩
  | case5 | case6 | case7 => exact repeatLast_dollar (.inl rfl) h
  | case8 =>
    rename_i bounds
    rw [readItem, bounds] at h
    rw [readItem, readBounds_dollar bounds]
    exact repeatLast_dollar (skip_dollar reader.flags _) h
  | case9 =>
    rename_i none
    rw [readItem, none] at h
    cases h
  | case13 =>
    rw [readItem] at h ⊢
    obtain ⟨⟨escape, after'⟩, value, same⟩ := Option.map_eq_some_iff.1 h
    refine ⟨after' ++ ['$'], Option.map_eq_some_iff.2 ⟨_, keeps_readEscape _ _ _ _ value, ?_⟩, ?_⟩
    · cases escape <;> rw [← (Prod.mk.inj same).1]
    · cases escape <;> exact .inl (by rw [← (Prod.mk.inj same).2])
  | case14 =>
    rw [readItem] at h ⊢ <;> try assumption
    exact add h

/-- At the end there is nothing to read. -/
theorem close_of_readFrom_nil {steps : Nat} {r : Regex} (h : reader.readFrom steps [] = some r) :
    r = reader.group.close := by
  cases steps with
  | zero => cases h
  | succ steps =>
    rw [readFrom, skip_nil] at h
    exact (Option.some.inj (Option.ite_none_right_eq_some.1 h).2).symm

end Reader

/-- The conditions that a dollar sign stands for. -/
inductive Dollar : Look → Prop
  | textEnd : Dollar .textEnd
  | lineEnd (crlf : Bool) : Dollar (.lineEnd crlf)

/-- **An expression, and the same one read before a dollar sign**: a comment has taken the sign, or
it is a condition at the end of the last alternative. -/
inductive Closing : Regex → Regex → Prop
  | same (r : Regex) : Closing r r
  | ends (group : Group) {condition : Look} (dollar : Dollar condition) :
      Closing group.close (group.push (some (look condition))).close

/-- **What a dollar sign behind an expression adds.** -/
theorem Reader.closing_of_readFrom {reader : Reader} {steps steps' : Nat} {longer : List Char}
    {r w : Regex} (trails : Trails rest longer) (h : reader.readFrom steps rest = some r)
    (h' : reader.readFrom steps' longer = some w) : Closing r w := by
  induction steps generalizing steps' reader rest longer with
  | zero => cases h
  | succ steps ih =>
    cases steps' with
    | zero => cases h'
    | succ steps' =>
      rw [readFrom] at h h'
      rcases trails.skip reader.flags with same | ⟨nothing, nothing'⟩
      · rw [same] at h'
        cases stop : reader.flags.skip rest with
        | nil =>
          -- the sign is the last item
          rw [stop] at h h'
          obtain rfl := Option.some.inj (Option.ite_none_right_eq_some.1 h).2
          obtain rfl := close_of_readFrom_nil h'
          refine .ends reader.group ?_
          split
          · exact .lineEnd _
          · exact .textEnd
        | cons c rest =>
          rw [stop] at h h'
          simp only [List.cons_append] at h h'
          split at h
          · rename_i reader' after item
            obtain ⟨longer, item', trails⟩ := readItem_dollar item
            rw [item'] at h'
            exact ih trails h h'
          · cases h
      · rw [nothing] at h
        rw [nothing', h] at h'
        obtain rfl := Option.some.inj h'
        exact .same r

theorem closing_of_read? {source : List Char} {r w : Regex} (h : read? source = some r)
    (h' : read? (source ++ ['$']) = some w) : Closing r w :=
  Reader.closing_of_readFrom (.inl rfl) (Option.filter_eq_some_iff.1 h).1
    (Option.filter_eq_some_iff.1 h').1

/-! ## The two frames of a source -/

variable {text : List Char} {rs : List Regex} {r : Regex} {i j : Nat}

theorem leads_seqAll_concat :
    (seqAll (rs ++ [r])).Leads text i j
      ↔ ∃ mid, (seqAll rs).Leads text i mid ∧ r.Leads text mid j := by
  cases rs with
  | nil => simp [seqAll, Leads]
  | cons first rs =>
    have split : seqAll (first :: rs ++ [r]) = seq (seqAll (first :: rs)) r := by
      simp [seqAll]
    rw [split, Leads]

theorem leads_altAll_concat :
    (altAll (rs ++ [r])).Leads text i j ↔ (∃ q ∈ rs, q.Leads text i j) ∨ r.Leads text i j := by
  induction rs with
  | nil => simp [altAll]
  | cons q rs ih =>
    have split : altAll (q :: rs ++ [r]) = alt q (altAll (rs ++ [r])) := by
      cases rs <;> rfl
    rw [split, Leads, ih]
    simp [or_assoc]

/-- What a dollar sign stands for holds at the end of a text. -/
theorem Dollar.holds {condition : Look} (dollar : Dollar condition) (text : List Char) :
    condition.holds (.spot text text.length) = true := by
  cases dollar <;> simp [Look.holds, Cursor.spot]

/-- **A condition at the end of the last alternative** changes nothing at a place where it holds. -/
theorem Group.leads_push_look {group : Group} {condition : Look}
    (holds : condition.holds (.spot text j) = true) (h : group.close.Leads text i j) :
    (group.push (some (look condition))).close.Leads text i j := by
  have last : (group.push (some (look condition))).sequence.Leads text i j
      ↔ group.sequence.Leads text i j ∧ condition.holds (.spot text j) = true := by
    rw [sequence, push]
    simp only [List.filterMap_cons, id_eq, List.reverse_cons]
    rw [leads_seqAll_concat]
    simp [Leads, sequence]
  rw [close, List.reverse_cons, leads_altAll_concat] at h ⊢
  exact h.imp_right fun h => last.2 ⟨h, holds⟩

/-- At the end of a text the sign changes nothing. -/
theorem Closing.leads {r w : Regex} (h : Closing r w) (leads : r.Leads text i text.length) :
    w.Leads text i text.length := by
  cases h with
  | same => exact leads
  | ends group dollar => exact group.leads_push_look (dollar.holds text) leads

/-- **What matches in the frame at the beginning matches in the frame at both ends**, where the
match ends with the text. -/
theorem leads_whole {source : List Char} {r w : Regex}
    (h : read? ("^(?:".toList ++ source ++ ")".toList) = some r)
    (h' : read? ("^(?:".toList ++ source ++ ")$".toList) = some w)
    (leads : r.Leads text i text.length) : w.Leads text i text.length := by
  rw [show ")$".toList = ")".toList ++ ['$'] from rfl, ← List.append_assoc] at h'
  exact (closing_of_read? h h').leads leads

end Earley.Regex
