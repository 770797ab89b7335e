import Earley.Grammar

/-!
# Proofs/Grammar/Derivation — which stretches of the tokens a list of symbols derives

Which kinds of terminal a token may be read as is given from outside, by a relation `stands` between
indices of tokens and kinds.  `Derives` lays a list of symbols over the tokens from one position up
to another, without gaps: a terminal takes one token, a nonterminal what the symbols of one of its
productions take.

`LeftReachable` says where a name may begin: the entry at the first token, and every name behind
symbols of a production that begins somewhere and has been read so far.
-/

namespace Earley

universe u

variable {κ : Type u}

@[simp] theorem Grammar.mem_productionsOf {g : Grammar κ} {name : String} {id : ProdId} :
    id ∈ g.productionsOf name ↔ id < g.productions.size ∧ g.name id = name := by
  simp [Grammar.productionsOf]

/-- The symbols of a grammar are those of its productions. -/
theorem Grammar.exists_of_mem_symbols {g : Grammar κ} {id : ProdId} {symbol : Symbol κ}
    (mem : symbol ∈ g.symbols id) : ∃ p ∈ g.productions.toList, symbol ∈ p.symbols := by
  rw [symbols] at mem
  cases place : g.productions[id]? with
  | none =>
    rw [place] at mem
    exact absurd mem List.not_mem_nil
  | some p =>
    rw [place] at mem
    exact ⟨p, Array.mem_toList_iff.2 (Array.mem_of_getElem? place), mem⟩

theorem Grammar.mem_productionsOf_name {g : Grammar κ} {id : ProdId}
    (h : id < g.productions.size) : id ∈ g.productionsOf (g.name id) :=
  mem_productionsOf.2 ⟨h, rfl⟩

/-- **The symbols derive the tokens** from the first position up to the second. -/
inductive Derives (g : Grammar κ) (stands : Nat → κ → Prop) : List (Symbol κ) → Nat → Nat → Prop
  | nil (pos : Nat) : Derives g stands [] pos pos
  | terminal {kind : κ} {rest : List (Symbol κ)} {pos stop : Nat} (stand : stands pos kind)
      (tail : Derives g stands rest (pos + 1) stop) :
      Derives g stands (.terminal kind :: rest) pos stop
  | nonterminal {name : String} {id : ProdId} {rest : List (Symbol κ)} {pos mid stop : Nat}
      (rule : id ∈ g.productionsOf name) (head : Derives g stands (g.symbols id) pos mid)
      (tail : Derives g stands rest mid stop) :
      Derives g stands (.nonterminal name :: rest) pos stop

namespace Derives

variable {g : Grammar κ} {stands : Nat → κ → Prop} {symbols before after : List (Symbol κ)}
  {pos mid stop : Nat}

theorem le (h : Derives g stands symbols pos stop) : pos ≤ stop := by
  induction h with
  | nil => exact Nat.le_refl _
  | terminal _ _ ih => omega
  | nonterminal _ _ _ head tail => exact Nat.le_trans head tail

/-- **Derivations depend on the tokens they lie over** and on no others. -/
theorem imp {stands' : Nat → κ → Prop} (h : Derives g stands symbols pos stop)
    (imp : ∀ index kind, pos ≤ index → index < stop → stands index kind → stands' index kind) :
    Derives g stands' symbols pos stop := by
  induction h with
  | nil pos => exact .nil pos
  | terminal stand tail ih =>
    have := tail.le
    exact .terminal (imp _ _ (Nat.le_refl _) (by omega) stand)
      (ih fun index kind low high => imp index kind (by omega) high)
  | nonterminal rule head tail ihHead ihTail =>
    have := head.le
    have := tail.le
    exact .nonterminal rule (ihHead fun index kind low high => imp index kind low (by omega))
      (ihTail fun index kind low high => imp index kind (by omega) high)

theorem mono {stands' : Nat → κ → Prop} (h : Derives g stands symbols pos stop)
    (imp : ∀ index kind, stands index kind → stands' index kind) :
    Derives g stands' symbols pos stop :=
  h.imp fun index kind _ _ => imp index kind

/-- Where only the first `count` tokens may be read, no derivation goes beyond them. -/
theorem stop_le {count : Nat} (h : Derives g stands symbols pos stop)
    (bound : ∀ index kind, stands index kind → index < count) (le : pos ≤ count) :
    stop ≤ count := by
  induction h with
  | nil => exact le
  | terminal stand _ ih => exact ih (bound _ _ stand)
  | nonterminal _ _ _ head tail => exact tail (head le)

theorem append (h : Derives g stands before pos mid) (h' : Derives g stands after mid stop) :
    Derives g stands (before ++ after) pos stop := by
  induction h with
  | nil => exact h'
  | terminal stand _ ih => exact .terminal stand (ih h')
  | nonterminal rule head _ _ ih => exact .nonterminal rule head (ih h')

/-- **A derivation splits** where its symbols do. -/
theorem split (h : Derives g stands (before ++ after) pos stop) :
    ∃ mid, Derives g stands before pos mid ∧ Derives g stands after mid stop := by
  induction before generalizing pos with
  | nil => exact ⟨pos, .nil pos, h⟩
  | cons symbol before ih =>
    cases h with
    | terminal stand tail =>
      obtain ⟨mid, first, second⟩ := ih tail
      exact ⟨mid, .terminal stand first, second⟩
    | nonterminal rule head tail =>
      obtain ⟨mid, first, second⟩ := ih tail
      exact ⟨mid, .nonterminal rule head first, second⟩

theorem singleton_terminal {kind : κ} (stand : stands pos kind) :
    Derives g stands [.terminal kind] pos (pos + 1) :=
  .terminal stand (.nil _)

theorem singleton_nonterminal {name : String} {id : ProdId} (rule : id ∈ g.productionsOf name)
    (head : Derives g stands (g.symbols id) pos stop) :
    Derives g stands [.nonterminal name] pos stop :=
  .nonterminal rule head (.nil _)

/-- A nonterminal derives what one of its productions derives. -/
theorem exists_rule {name : String} (h : Derives g stands [.nonterminal name] pos stop) :
    ∃ id ∈ g.productionsOf name, Derives g stands (g.symbols id) pos stop := by
  cases h with
  | nonterminal rule head tail =>
    obtain ⟨⟩ := tail
    exact ⟨_, rule, head⟩

end Derives

/-- **The names that may begin at a position**, by what has been read to the left of it. -/
inductive LeftReachable (g : Grammar κ) (stands : Nat → κ → Prop) : String → Nat → Prop
  | entry : LeftReachable g stands g.entry 0
  | step {name next : String} {id : ProdId} {before after : List (Symbol κ)} {origin pos : Nat}
      (above : LeftReachable g stands name origin) (rule : id ∈ g.productionsOf name)
      (split : g.symbols id = before ++ .nonterminal next :: after)
      (read : Derives g stands before origin pos) : LeftReachable g stands next pos

namespace LeftReachable

variable {g : Grammar κ} {stands : Nat → κ → Prop} {name : String} {pos : Nat}

theorem mono {stands' : Nat → κ → Prop} (h : LeftReachable g stands name pos)
    (imp : ∀ index kind, stands index kind → stands' index kind) :
    LeftReachable g stands' name pos := by
  induction h with
  | entry => exact .entry
  | step _ rule split read ih => exact .step ih rule split (read.mono imp)

theorem le {count : Nat} (h : LeftReachable g stands name pos)
    (bound : ∀ index kind, stands index kind → index < count) : pos ≤ count := by
  induction h with
  | entry => exact Nat.zero_le count
  | step _ _ _ read ih => exact read.stop_le bound ih

end LeftReachable

/-- Every name among symbols that begin at `pos` may begin where the symbols before it have been
read. -/
def Awaited (g : Grammar κ) (stands : Nat → κ → Prop) (symbols : List (Symbol κ)) (pos : Nat) :
    Prop :=
  ∀ before name after, symbols = before ++ .nonterminal name :: after →
    ∀ mid, Derives g stands before pos mid → LeftReachable g stands name mid

namespace Awaited

variable {g : Grammar κ} {stands : Nat → κ → Prop} {name : String} {rest : List (Symbol κ)}
  {pos mid : Nat}

/-- The symbols of a production are awaited where its name may begin. -/
theorem of_rule {id : ProdId} (reachable : LeftReachable g stands name pos)
    (rule : id ∈ g.productionsOf name) : Awaited g stands (g.symbols id) pos :=
  fun _ _ _ split _ read => .step reachable rule split read

theorem head (h : Awaited g stands (.nonterminal name :: rest) pos) :
    LeftReachable g stands name pos :=
  h [] name rest rfl pos (.nil pos)

theorem tail {symbol : Symbol κ} (h : Awaited g stands (symbol :: rest) pos)
    (read : Derives g stands [symbol] pos mid) : Awaited g stands rest mid :=
  fun before name after split stop derives =>
    h (symbol :: before) name after (by rw [split, List.cons_append]) stop (read.append derives)

end Awaited

end Earley
