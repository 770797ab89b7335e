import Earley.Proofs.Lexer

/-!
# Proofs/Lexer/Calls — what holds of a lexer through any calls

A lexer may be called again and again, for the next token alone or for the way it is read as well,
with whatever patterns expected, also after an error and behind the end of the text.  Every call
moves it over blanks, and then over a token if it is answered with one (`Lexer.Moves`).  So a lexer
stays between two characters of its text, what it has passed is tokens with blanks between them
(`Lexer.Covers`), and at the end of the text it stays where it is.
-/

namespace Earley

/-! ## Bytes -/

theorem byteLength_toList (text : String) : byteLength text.toList = text.utf8ByteSize := by
  obtain ⟨chars, rfl⟩ := text.exists_eq_ofList
  rw [String.toList_ofList]
  induction chars with
  | nil => rfl
  | cons c chars ih =>
    change c.utf8Size + byteLength chars = _
    rw [ih, ← List.singleton_append, String.ofList_append, String.utf8ByteSize_append,
      ← String.singleton_eq_ofList, String.utf8ByteSize_singleton]

namespace Lexer

/-- **The bytes of a text between two offsets** are those of `part`. -/
structure Stretch (text : String) (start stop : Nat) (part : String) : Prop where
  le : start ≤ stop
  extract_eq : text.toByteArray.extract start stop = part.toByteArray

/-- **Only blanks** stand in a text between two offsets. -/
def Blank (text : String) (start stop : Nat) : Prop :=
  ∃ gap, Stretch text start stop gap ∧ ∀ c ∈ gap.toList, Unicode.isBlank c = true

variable {E : Engine} {text part part' : String} {start mid stop : Nat} {lexer here : Lexer}
  {tokens : List (Token (Pattern E))}

theorem Stretch.append (h : Stretch text start mid part) (h' : Stretch text mid stop part') :
    Stretch text start stop (part ++ part') where
  le := h.le.trans h'.le
  extract_eq := by
    rw [ByteArray.extract_eq_extract_append_extract mid h.le h'.le, h.extract_eq, h'.extract_eq,
      String.toByteArray_append]

theorem Blank.refl (text : String) (start : Nat) : Blank text start start :=
  ⟨"", ⟨le_rfl, by simp⟩, by simp⟩

theorem Blank.trans (h : Blank text start mid) (h' : Blank text mid stop) :
    Blank text start stop := by
  obtain ⟨gap, stretch, blank⟩ := h
  obtain ⟨gap', stretch', blank'⟩ := h'
  refine ⟨gap ++ gap', stretch.append stretch', fun c mem => ?_⟩
  rw [String.toList_append] at mem
  exact (List.mem_append.1 mem).elim (blank c) (blank' c)

/-! ## Places in a text -/

/-- **A lexer is in a text** if its offset counts the bytes before the characters behind it. -/
def In (text : String) (lexer : Lexer) : Prop :=
  ∃ read, text.toList = read ++ lexer.rest ∧ lexer.offset = byteLength read

theorem in_ofString (text : String) : (ofString text).In text := ⟨[], rfl, rfl⟩

/-- **A lexer is between two characters** of its text. -/
theorem In.isValid (h : lexer.In text) : (⟨lexer.offset⟩ : String.Pos.Raw).IsValid text := by
  obtain ⟨read, split, offset⟩ := h
  refine String.Pos.Raw.isValid_iff_exists_append.2
    ⟨String.ofList read, String.ofList lexer.rest, ?_, ?_⟩
  · rw [← String.ofList_append, ← split, String.ofList_toList]
  · rw [offset, ← String.toList_ofList (l := read), byteLength_toList, String.toList_ofList]
    rfl

theorem In.drop (h : lexer.In text) (count : Nat) : (lexer.drop count).In text := by
  obtain ⟨read, split, offset⟩ := h
  refine ⟨read ++ lexer.rest.take count, ?_, ?_⟩
  · rw [split, List.append_assoc, Lexer.drop, List.take_append_drop]
  · rw [byteLength_append, ← offset]
    rfl

/-- **What a lexer drops** is what its text holds there. -/
theorem In.stretch_drop (h : lexer.In text) (count : Nat) :
    Stretch text lexer.offset (lexer.drop count).offset
      (String.ofList (lexer.rest.take count)) := by
  obtain ⟨read, split, offset⟩ := h
  have bytes : text.toByteArray = (String.ofList (read ++ lexer.rest.take count)).toByteArray
      ++ (String.ofList (lexer.rest.drop count)).toByteArray := by
    rw [← String.toByteArray_append, ← String.ofList_append, List.append_assoc,
      List.take_append_drop, ← split, String.ofList_toList]
  have size : ∀ chars, byteLength chars = (String.ofList chars).toByteArray.size := by
    intro chars
    rw [String.size_toByteArray, ← byteLength_toList, String.toList_ofList]
  refine ⟨Nat.le_add_right _ _, ?_⟩
  change text.toByteArray.extract lexer.offset (lexer.offset + byteLength _) = _
  rw [offset, ← byteLength_append, size, size, bytes, ByteArray.extract_append_size_left,
    String.ofList_append, String.toByteArray_append]
  exact ByteArray.extract_append_eq_right rfl ByteArray.size_append

/-! ## Calls -/

/-- A call of a lexer, for the next token alone or for the way it is read as well. -/
inductive Call (E : Engine) where
  | next (expected : List (Pattern E))
  | scan (expected : List (Pattern E))

/-- What a call comes to: a token, the end of the text or an error, and the lexer after it. -/
structure Reply (E : Engine) where
  result : Except (ParseError (Pattern E)) (Option (Token (Pattern E)))
  after : Lexer

/-- The token of a reply. -/
def Reply.token? (reply : Reply E) : Option (Token (Pattern E)) := reply.result.toOption.join

/-- The reply to a call. -/
def reply (lexer : Lexer) : Call E → Reply E
  | .next expected => ⟨(lexer.next expected).1, (lexer.next expected).2⟩
  | .scan expected =>
    ⟨(lexer.scan expected).1.map (Option.map Scan.token), (lexer.scan expected).2⟩

/-- **The replies to calls** that are made one after the other. -/
def replies (lexer : Lexer) : List (Call E) → List (Reply E)
  | [] => []
  | call :: calls => lexer.reply call :: (lexer.reply call).after.replies calls

/-- **How a call moves a lexer**: over blanks, and then over a token if it is answered with one.  A
lexer that finds the end of the text is there. -/
inductive Moves (text : String) (lexer : Lexer) : Reply E → Prop
  | ends {after : Lexer} (blank : Blank text lexer.offset after.offset) (rest : after.rest = []) :
      Moves text lexer ⟨.ok none, after⟩
  | fails {after : Lexer} (error : ParseError (Pattern E))
      (blank : Blank text lexer.offset after.offset) : Moves text lexer ⟨.error error, after⟩
  | token {after : Lexer} {token : Token (Pattern E)} (blank : Blank text lexer.offset token.start)
      (stretch : Stretch text token.start token.next token.text) (nonempty : token.text ≠ "")
      (next : token.next = after.offset) : Moves text lexer ⟨.ok (some token), after⟩

/-- The next token is the same, whether it is asked how it is read or not. -/
theorem reply_scan (lexer : Lexer) (expected : List (Pattern E)) :
    lexer.reply (.scan expected) = lexer.reply (.next expected) := by
  rw [reply, reply, scan]
  rcases lexer.next expected with ⟨_ | _ | token, after⟩ <;> rfl

theorem In.blank_skipBlanks (h : lexer.In text) :
    Blank text lexer.offset lexer.skipBlanks.offset := by
  refine ⟨_, h.stretch_drop _, fun c mem => ?_⟩
  rw [String.toList_ofList, take_length_takeWhile] at mem
  exact List.mem_takeWhile_imp mem

/-- **Every call moves a lexer on** in its text. -/
theorem In.reply (h : lexer.In text) (call : Call E) :
    Moves text lexer (lexer.reply call) ∧ (lexer.reply call).after.In text := by
  have scan : ∀ expected : List (Pattern E), Moves text lexer (lexer.reply (.scan expected))
      ∧ (lexer.reply (.scan expected)).after.In text := by
    intro expected
    have here : lexer.skipBlanks.In text := h.drop _
    rw [Lexer.reply]
    rcases lexer.scan_cases expected with
      ⟨ends, same⟩ | ⟨further, ⟨error, -, same⟩ | ⟨pattern, length, takes, same⟩⟩
    · rw [same]
      exact ⟨.ends h.blank_skipBlanks ends, here⟩
    · rw [same]
      exact ⟨.fails error h.blank_skipBlanks, here⟩
    · rw [same]
      have present := isEmpty_text_tokenOf pattern takes.pos further
      exact ⟨.token h.blank_skipBlanks (here.stretch_drop length) (by simpa using present) rfl,
        here.drop length⟩
  cases call with
  | next expected => exact reply_scan lexer expected ▸ scan expected
  | scan expected => exact scan expected

theorem Moves.le {reply : Reply E} (h : Moves text lexer reply) :
    lexer.offset ≤ reply.after.offset := by
  cases h with
  | ends blank =>
    obtain ⟨_, stretch, -⟩ := blank
    exact stretch.le
  | fails _ blank =>
    obtain ⟨_, stretch, -⟩ := blank
    exact stretch.le
  | token blank stretch _ next =>
    obtain ⟨_, gap, -⟩ := blank
    exact next ▸ gap.le.trans stretch.le

/-- **At the end of its text a lexer stays** where it is. -/
theorem reply_of_rest_eq_nil (h : lexer.rest = []) (call : Call E) :
    lexer.reply call = ⟨.ok none, lexer⟩ := by
  have here : lexer.skipBlanks = lexer := by
    obtain ⟨offset, rest⟩ := lexer
    obtain rfl : rest = [] := h
    rfl
  have next : ∀ expected : List (Pattern E), lexer.next expected = (.ok none, lexer) := by
    intro expected
    simp only [Lexer.next, here, h, List.isEmpty_nil, if_true]
  cases call with
  | next expected => rw [Lexer.reply, next]
  | scan expected => rw [reply_scan, Lexer.reply, next]

/-! ## Runs -/

variable {calls : List (Call E)}

/-- The lexer after calls. -/
def afterCalls (lexer : Lexer) (calls : List (Call E)) : Lexer :=
  calls.foldl (fun lexer call => (lexer.reply call).after) lexer

/-- **Tokens cover a text** between two offsets: each of them stands where it says, one after the
other, and only blanks stand before, between and behind them. -/
def Covers (text : String) (start : Nat) : List (Token (Pattern E)) → Nat → Prop
  | [], stop => Blank text start stop
  | token :: tokens, stop => Blank text start token.start
      ∧ Stretch text token.start token.next token.text ∧ Covers text token.next tokens stop

theorem Covers.of_blank (h : Blank text start mid) (covers : Covers text mid tokens stop) :
    Covers text start tokens stop := by
  cases tokens with
  | nil => exact h.trans covers
  | cons token tokens => exact ⟨h.trans covers.1, covers.2⟩

/-- **Covering tokens are in order** and do not overlap. -/
theorem Covers.pairwise (h : Covers text start tokens stop) :
    tokens.Pairwise fun earlier later => earlier.next ≤ later.start := by
  have le : ∀ {start} {tokens : List (Token (Pattern E))}, Covers text start tokens stop →
      ∀ token ∈ tokens, start ≤ token.start := by
    intro start tokens h
    induction tokens generalizing start with
    | nil => exact fun _ mem => absurd mem List.not_mem_nil
    | cons token tokens ih =>
      obtain ⟨⟨_, gap, -⟩, stretch, rest⟩ := h
      refine List.forall_mem_cons.2 ⟨gap.le, fun later mem => ?_⟩
      exact (gap.le.trans stretch.le).trans (ih rest later mem)
  induction tokens generalizing start with
  | nil => exact .nil
  | cons token tokens ih => exact .cons (le h.2.2) (ih h.2.2)

/-- **Every call of a run** is made further on in the text, and moves on from there. -/
theorem In.exists_of_mem_replies (h : lexer.In text) {reply : Reply E}
    (mem : reply ∈ lexer.replies calls) : ∃ before : Lexer, lexer.offset ≤ before.offset
      ∧ Moves text before reply ∧ reply.after.In text := by
  induction calls generalizing lexer with
  | nil => exact absurd mem List.not_mem_nil
  | cons call calls ih =>
    obtain ⟨moves, further⟩ := h.reply call
    rcases List.mem_cons.1 mem with rfl | mem
    · exact ⟨lexer, le_rfl, moves, further⟩
    · obtain ⟨before, le, rest⟩ := ih further mem
      exact ⟨before, moves.le.trans le, rest⟩

/-- **What a run has passed** is its tokens, and blanks. -/
theorem In.covers (h : lexer.In text) (calls : List (Call E)) : Covers text lexer.offset
    ((lexer.replies calls).filterMap Reply.token?) (lexer.afterCalls calls).offset := by
  induction calls generalizing lexer with
  | nil => exact .refl text _
  | cons call calls ih =>
    obtain ⟨moves, further⟩ := h.reply call
    have rest := ih further
    rw [replies, afterCalls, List.foldl_cons]
    generalize lexer.reply call = reply at moves rest
    cases moves with
    | ends blank => exact .of_blank blank rest
    | fails _ blank => exact .of_blank blank rest
    | token blank stretch _ next => exact ⟨blank, stretch, next ▸ rest⟩

theorem eq_of_mem_replies_of_rest_eq_nil (ends : lexer.rest = []) {reply : Reply E}
    (mem : reply ∈ lexer.replies calls) : reply = ⟨.ok none, lexer⟩ := by
  induction calls with
  | nil => exact absurd mem List.not_mem_nil
  | cons call calls ih =>
    rw [replies, reply_of_rest_eq_nil ends] at mem
    exact (List.mem_cons.1 mem).elim id ih

/-- **Once a run has come to the end** of its text it stays there. -/
theorem In.pairwise_replies (h : lexer.In text) (calls : List (Call E)) :
    (lexer.replies calls).Pairwise fun earlier later =>
      earlier.after.offset ≤ later.after.offset
        ∧ (earlier.result = .ok none → later = earlier) := by
  induction calls generalizing lexer with
  | nil => exact .nil
  | cons call calls ih =>
    obtain ⟨moves, further⟩ := h.reply call
    refine .cons (fun later mem => ⟨?_, fun ends => ?_⟩) (ih further)
    · obtain ⟨before, le, moves', -⟩ := further.exists_of_mem_replies mem
      exact le.trans moves'.le
    · generalize lexer.reply call = reply at moves mem ends
      cases moves with
      | ends _ rest => exact eq_of_mem_replies_of_rest_eq_nil rest mem
      | fails => exact nomatch ends
      | token => exact nomatch ends

/-- **A lexer through any calls.**  Its offset never decreases and is always that of a place between
two characters of its text.  A token that it gives is not empty, is what the text holds between the
offsets of the token, and leaves the lexer behind it.  The tokens are in order, without overlaps,
and everything else that was passed is blank.  Once the end of the text was answered, every later
answer is the same, and the lexer stays where it is. -/
theorem invariant_of_replies (text : String) (calls : List (Call E)) :
    let replies := (ofString text).replies calls
    let tokens := replies.filterMap Reply.token?
    (∀ reply ∈ replies, (⟨reply.after.offset⟩ : String.Pos.Raw).IsValid text
        ∧ reply.after.offset ≤ text.utf8ByteSize)
      ∧ (∀ reply ∈ replies, ∀ token, reply.result = .ok (some token) → token.text ≠ ""
          ∧ Stretch text token.start token.next token.text ∧ reply.after.offset = token.next)
      ∧ Covers text 0 tokens ((ofString text).afterCalls calls).offset
      ∧ tokens.Pairwise (fun earlier later => earlier.next ≤ later.start)
      ∧ replies.Pairwise fun earlier later => earlier.after.offset ≤ later.after.offset
          ∧ (earlier.result = .ok none → later = earlier) := by
  intro replies tokens
  have start := in_ofString text
  have covers := start.covers calls
  refine ⟨fun reply mem => ?_, fun reply mem token given => ?_, covers, covers.pairwise,
    start.pairwise_replies calls⟩
  · obtain ⟨_, -, -, place⟩ := start.exists_of_mem_replies mem
    exact ⟨place.isValid, place.isValid.le_utf8ByteSize⟩
  · obtain ⟨_, -, moves, -⟩ := start.exists_of_mem_replies mem
    cases moves with
    | ends => exact nomatch given
    | fails => exact nomatch given
    | token _ stretch nonempty next =>
      obtain rfl := Option.some.inj (Except.ok.inj given)
      exact ⟨nonempty, stretch, next.symm⟩

end Lexer

end Earley
