import Earley.Proofs.Grammar.Derivation
import Mathlib.Logic.Relation

/-!
# Proofs/Grammar/Rewriting — sentential forms, and which kinds may stand at a position

A sentential form is what the entry can be rewritten to, one nonterminal at a time.  Rewriting can
be followed along the tokens in two ways.  `Derives` reads a stretch of them, which is to rewrite to
terminals that stand over the stretch (`derives_iff_exists_rewriting`).  `Awaits` reads a stretch
and stops in front of a terminal, which is to rewrite to such terminals followed by that one and
anything (`awaits_iff_exists_rewriting`): the rest of the form need not derive any text.
-/

namespace Earley

universe u

variable {κ : Type u}

/-- **One step of rewriting**: a nonterminal gives way to the symbols of one of its productions. -/
inductive Rewrites (g : Grammar κ) : List (Symbol κ) → List (Symbol κ) → Prop
  | step {name : String} {id : ProdId} (rule : id ∈ g.productionsOf name)
      (before after : List (Symbol κ)) :
      Rewrites g (before ++ .nonterminal name :: after) (before ++ (g.symbols id ++ after))

/-- **Rewriting** in any number of steps. -/
abbrev RewritesTo (g : Grammar κ) : List (Symbol κ) → List (Symbol κ) → Prop :=
  Relation.ReflTransGen (Rewrites g)

variable {g : Grammar κ} {stands : Nat → κ → Prop} {symbols form before after : List (Symbol κ)}
  {name : String} {id : ProdId} {kind : κ} {pos mid stop : Nat}

theorem Rewrites.append_left (h : Rewrites g symbols form) (before : List (Symbol κ)) :
    Rewrites g (before ++ symbols) (before ++ form) := by
  obtain ⟨rule, left, right⟩ := h
  rw [← List.append_assoc, ← List.append_assoc]
  exact .step rule (before ++ left) right

theorem Rewrites.append_right (h : Rewrites g symbols form) (after : List (Symbol κ)) :
    Rewrites g (symbols ++ after) (form ++ after) := by
  obtain ⟨rule, left, right⟩ := h
  rw [List.append_assoc, List.append_assoc, List.append_assoc, List.cons_append]
  exact .step rule left (right ++ after)

namespace RewritesTo

theorem append_left (h : RewritesTo g symbols form) (before : List (Symbol κ)) :
    RewritesTo g (before ++ symbols) (before ++ form) :=
  h.lift (before ++ ·) fun _ _ step => step.append_left before

theorem append_right (h : RewritesTo g symbols form) (after : List (Symbol κ)) :
    RewritesTo g (symbols ++ after) (form ++ after) :=
  h.lift (· ++ after) fun _ _ step => step.append_right after

/-- A nonterminal in front rewrites to the symbols of its production. -/
theorem rule (rule : id ∈ g.productionsOf name) (after : List (Symbol κ)) :
    RewritesTo g (.nonterminal name :: after) (g.symbols id ++ after) :=
  .single (.step rule [] after)

end RewritesTo

/-! ## Reading a stretch -/

/-- **What a rewritten form derives, the symbols derive.** -/
theorem Derives.of_rewritesTo (h : RewritesTo g symbols form)
    (derives : Derives g stands form pos stop) : Derives g stands symbols pos stop := by
  induction h using Relation.ReflTransGen.head_induction_on with
  | refl => exact derives
  | head step _ ih =>
    obtain ⟨rule, before, after⟩ := step
    obtain ⟨_, first, rest⟩ := ih.split
    obtain ⟨_, inner, last⟩ := rest.split
    exact first.append (.nonterminal rule inner last)

/-- **To derive a stretch is to rewrite to terminals that stand over it.** -/
theorem derives_iff_exists_rewriting : Derives g stands symbols pos stop ↔
    ∃ kinds : List κ, RewritesTo g symbols (kinds.map .terminal)
      ∧ Derives g stands (kinds.map .terminal) pos stop := by
  refine ⟨fun h => ?_, fun ⟨_, rewriting, derives⟩ => derives.of_rewritesTo rewriting⟩
  induction h with
  | nil pos => exact ⟨[], .refl, .nil pos⟩
  | @terminal kind _ _ _ stand _ ih =>
    obtain ⟨kinds, rewriting, derives⟩ := ih
    exact ⟨kind :: kinds, rewriting.append_left [.terminal kind], .terminal stand derives⟩
  | nonterminal rule _ _ ihHead ihTail =>
    obtain ⟨kinds, rewriting, derives⟩ := ihHead
    obtain ⟨kinds', rewriting', derives'⟩ := ihTail
    refine ⟨kinds ++ kinds', ?_, ?_⟩
    · rw [List.map_append]
      exact ((RewritesTo.rule rule _).trans (rewriting.append_right _)).trans
        (rewriting'.append_left _)
    · rw [List.map_append]
      exact derives.append derives'

/-! ## Stopping in front of a terminal -/

/-- **The symbols read the tokens** from the first position up to the second **and await a kind**
there. -/
inductive Awaits (g : Grammar κ) (stands : Nat → κ → Prop) :
    List (Symbol κ) → Nat → Nat → κ → Prop
  | here {kind : κ} {rest : List (Symbol κ)} {pos : Nat} :
      Awaits g stands (.terminal kind :: rest) pos pos kind
  | inside {name : String} {id : ProdId} {rest : List (Symbol κ)} {pos stop : Nat} {kind : κ}
      (rule : id ∈ g.productionsOf name) (head : Awaits g stands (g.symbols id) pos stop kind) :
      Awaits g stands (.nonterminal name :: rest) pos stop kind
  | behind {symbol : Symbol κ} {rest : List (Symbol κ)} {pos mid stop : Nat} {kind : κ}
      (read : Derives g stands [symbol] pos mid) (tail : Awaits g stands rest mid stop kind) :
      Awaits g stands (symbol :: rest) pos stop kind

namespace Awaits

theorem le (h : Awaits g stands symbols pos stop kind) : pos ≤ stop := by
  induction h with
  | here => exact Nat.le_refl _
  | inside _ _ ih => exact ih
  | behind read _ ih => exact Nat.le_trans read.le ih

/-- What is awaited depends on the tokens that were read. -/
theorem imp {stands' : Nat → κ → Prop} (h : Awaits g stands symbols pos stop kind)
    (imp : ∀ index kind, pos ≤ index → index < stop → stands index kind → stands' index kind) :
    Awaits g stands' symbols pos stop kind := by
  induction h with
  | here => exact .here
  | inside rule _ ih => exact .inside rule (ih imp)
  | behind read tail ih =>
    have low := read.le
    have high := tail.le
    exact .behind (read.imp fun index kind le lt => imp index kind le (by omega))
      (ih fun index kind le lt => imp index kind (by omega) lt)

theorem append_right (h : Awaits g stands before pos stop kind) (after : List (Symbol κ)) :
    Awaits g stands (before ++ after) pos stop kind := by
  induction h with
  | here => exact .here
  | inside rule head _ => exact .inside rule head
  | behind read _ ih => exact .behind read ih

/-- Symbols that were read may stand in front. -/
theorem append_left (derives : Derives g stands before pos mid)
    (h : Awaits g stands after mid stop kind) :
    Awaits g stands (before ++ after) pos stop kind := by
  induction derives with
  | nil => exact h
  | terminal stand _ ih => exact .behind (.singleton_terminal stand) (ih h)
  | nonterminal rule head _ _ ih => exact .behind (.singleton_nonterminal rule head) (ih h)

/-- **A kind is awaited in the first symbols or behind them.** -/
theorem of_append (h : Awaits g stands (before ++ after) pos stop kind) :
    Awaits g stands before pos stop kind
      ∨ ∃ mid, Derives g stands before pos mid ∧ Awaits g stands after mid stop kind := by
  induction before generalizing pos with
  | nil => exact .inr ⟨pos, .nil pos, h⟩
  | cons symbol before ih =>
    cases h with
    | here => exact .inl .here
    | inside rule head => exact .inl (.inside rule head)
    | behind read tail =>
      rcases ih tail with first | ⟨mid, derives, rest⟩
      · exact .inl (.behind read first)
      · exact .inr ⟨mid, read.append derives, rest⟩

/-- **What a rewritten form awaits, the symbols await.** -/
theorem of_rewritesTo (h : RewritesTo g symbols form)
    (awaits : Awaits g stands form pos stop kind) : Awaits g stands symbols pos stop kind := by
  induction h using Relation.ReflTransGen.head_induction_on with
  | refl => exact awaits
  | head step _ ih =>
    obtain ⟨rule, before, after⟩ := step
    rcases ih.of_append with first | ⟨_, derives, rest⟩
    · exact first.append_right _
    · refine append_left derives ?_
      rcases rest.of_append with inner | ⟨_, read, last⟩
      · exact .inside rule inner
      · exact .behind (.singleton_nonterminal rule read) last

/-- **What holds of the symbols and is handed down to productions** holds of every kind that is
awaited. -/
theorem induction_on {P : Symbol κ → Prop} (h : Awaits g stands symbols pos stop kind)
    (down : ∀ name, P (.nonterminal name) → ∀ id ∈ g.productionsOf name, ∀ symbol ∈ g.symbols id,
      P symbol) (start : ∀ symbol ∈ symbols, P symbol) : P (.terminal kind) := by
  induction h with
  | here => exact start _ List.mem_cons_self
  | inside rule _ ih => exact ih (down _ (start _ List.mem_cons_self) _ rule)
  | behind _ _ ih => exact ih fun symbol mem => start symbol (List.mem_cons_of_mem _ mem)

/-- **Before each token of a derivation** a kind is awaited that the token is read as. -/
theorem exists_of_derives {index : Nat} (h : Derives g stands symbols pos stop) (low : pos ≤ index)
    (high : index < stop) : ∃ kind, stands index kind ∧ Awaits g stands symbols pos index kind := by
  induction h with
  | nil => omega
  | @terminal kind _ pos _ stand _ ih =>
    rcases Nat.eq_or_lt_of_le low with rfl | behind
    · exact ⟨kind, stand, .here⟩
    · obtain ⟨kind, stands, awaits⟩ := ih behind high
      exact ⟨kind, stands, .behind (.singleton_terminal stand) awaits⟩
  | @nonterminal _ _ _ _ mid _ rule head _ ihHead ihTail =>
    rcases Nat.lt_or_ge index mid with inside | behind
    · obtain ⟨kind, stands, awaits⟩ := ihHead low inside
      exact ⟨kind, stands, .inside rule awaits⟩
    · obtain ⟨kind, stands, awaits⟩ := ihTail behind high
      exact ⟨kind, stands, .behind (.singleton_nonterminal rule head) awaits⟩

end Awaits

/-! ## The first symbol -/

theorem awaits_nil : ¬ Awaits g stands [] pos stop kind := by
  rintro ⟨⟩

theorem awaits_terminal_iff {first : κ} :
    Awaits g stands (.terminal first :: symbols) pos stop kind
      ↔ first = kind ∧ pos = stop
        ∨ stands pos first ∧ Awaits g stands symbols (pos + 1) stop kind := by
  constructor
  · intro h
    cases h with
    | here => exact .inl ⟨rfl, rfl⟩
    | behind read tail =>
      cases read with
      | terminal stand none =>
        obtain ⟨⟩ := none
        exact .inr ⟨stand, tail⟩
  · rintro (⟨rfl, rfl⟩ | ⟨stand, tail⟩)
    · exact .here
    · exact .behind (.singleton_terminal stand) tail

theorem awaits_rule_iff : Awaits g stands [.nonterminal name] pos stop kind
    ↔ ∃ id ∈ g.productionsOf name, Awaits g stands (g.symbols id) pos stop kind := by
  constructor
  · intro h
    cases h with
    | inside rule head => exact ⟨_, rule, head⟩
    | behind _ tail => exact absurd tail awaits_nil
  · rintro ⟨id, rule, head⟩
    exact .inside rule head

/-! ## Awaiting and rewriting -/

/-- **To await a kind is to rewrite to terminals that stand over the tokens read, followed by that
kind.** -/
theorem awaits_iff_exists_rewriting : Awaits g stands symbols pos stop kind ↔
    ∃ (kinds : List κ) (rest : List (Symbol κ)),
      RewritesTo g symbols (kinds.map .terminal ++ .terminal kind :: rest)
        ∧ Derives g stands (kinds.map .terminal) pos stop := by
  constructor
  · intro h
    induction h with
    | @here kind rest pos => exact ⟨[], rest, .refl, .nil pos⟩
    | @inside name id rest pos stop kind rule _ ih =>
      obtain ⟨kinds, rest', rewriting, derives⟩ := ih
      refine ⟨kinds, rest' ++ rest, ?_, derives⟩
      have further := rewriting.append_right rest
      rw [List.append_assoc, List.cons_append] at further
      exact (RewritesTo.rule rule rest).trans further
    | @behind symbol rest pos mid stop kind read _ ih =>
      obtain ⟨kinds, rewriting, derives⟩ := derives_iff_exists_rewriting.1 read
      obtain ⟨kinds', rest', rewriting', derives'⟩ := ih
      refine ⟨kinds ++ kinds', rest', ?_, ?_⟩
      · rw [List.map_append, List.append_assoc]
        exact (rewriting.append_right rest).trans (rewriting'.append_left _)
      · rw [List.map_append]
        exact derives.append derives'
  · rintro ⟨kinds, rest, rewriting, derives⟩
    exact .of_rewritesTo rewriting (.append_left derives .here)

end Earley
