import Earley.Proofs.Grammar.Tree
import Mathlib.Data.List.Nodup
import Mathlib.Logic.Relation

/-!
# Proofs/Grammar/Layer — layers of operators leave no choice

Symbols settle before some kinds if from every position they have one derivation at most behind
which none of these kinds is read (`Settles`).  The kinds are those that a derivation may go on
with, and behind a whole input there are none.

A layer of operators that group to the left is a name with a production that passes on to a tighter
name and one for each operator (`LeftLayer`).  Read from left to right, its derivations begin with a
tighter one and grow by an operator and an operand at a time (`LeftLayer.exists_grows`).  So a layer
settles before its operators and whatever the tighter name settles before (`LeftLayer.settles`).
-/

namespace Earley

universe u

variable {κ : Type u} {g : Grammar κ} {reads : Nat → κ → Prop} {span pos mid stop stop' : Nat}
  {symbols : List (Symbol κ)} {more more' : List κ} {tree : Tree}

theorem Derivation.exists_eq_singleton {name : String} {trees : List Tree}
    (h : Derivation g reads [.nonterminal name] trees pos stop) : ∃ tree, trees = [tree] := by
  obtain ⟨tree, _, _, rfl, -, tail⟩ := derivation_nonterminal_iff.1 h
  obtain ⟨rfl, -⟩ := derivation_nil_iff.1 tail
  exact ⟨tree, rfl⟩

/-- **What symbols begin with** is handed down to the first symbols of productions, and so to the
kind that is read first. -/
theorem Derives.exists_first {P : Symbol κ → Prop} {first : Symbol κ} {rest : List (Symbol κ)}
    (down : ∀ name, P (.nonterminal name) → ∀ id ∈ g.productionsOf name,
      ∃ first rest, g.symbols id = first :: rest ∧ P first)
    (start : P first) (h : Derives g reads (first :: rest) pos stop) :
    ∃ kind, P (.terminal kind) ∧ reads pos kind := by
  generalize same : first :: rest = symbols at h
  induction h generalizing first rest with
  | nil => exact nomatch same
  | terminal stand _ =>
    obtain ⟨rfl, -⟩ := List.cons.inj same
    exact ⟨_, start, stand⟩
  | nonterminal rule _ _ ih =>
    obtain ⟨rfl, -⟩ := List.cons.inj same
    obtain ⟨first, rest, inner, begins⟩ := down _ start _ rule
    exact ih begins inner.symm

/-- None of the kinds is read at a position. -/
def Clear (reads : Nat → κ → Prop) (kinds : List κ) (pos : Nat) : Prop :=
  ∀ kind ∈ kinds, ¬ reads pos kind

/-- **Symbols settle** before kinds: where none of these is read behind them, they have one
derivation from a position at most.  Only derivations that are shorter than the span count, so that
this can be shown by induction. -/
def Settles (g : Grammar κ) (reads : Nat → κ → Prop) (span : Nat) (symbols : List (Symbol κ))
    (more : List κ) : Prop :=
  ∀ ⦃pos stop stop' : Nat⦄ ⦃trees trees' : List Tree⦄, stop < pos + span →
    Derivation g reads symbols trees pos stop → Derivation g reads symbols trees' pos stop' →
      Clear reads more stop → Clear reads more stop' → trees = trees'

theorem settles_zero : Settles g reads 0 symbols more := fun _ _ _ _ _ short h =>
  absurd h.derives.le (Nat.not_le.2 short)

theorem settles_nil : Settles g reads span [] more := by
  intro pos stop stop' trees trees' _ h h' _ _
  rw [(derivation_nil_iff.1 h).1, (derivation_nil_iff.1 h').1]

/-- A name settles if its single trees do. -/
theorem settles_name_iff {name : String} : Settles g reads span [.nonterminal name] more
    ↔ ∀ ⦃pos stop stop' : Nat⦄ ⦃tree tree' : Tree⦄, stop < pos + span →
        Derivation g reads [.nonterminal name] [tree] pos stop →
          Derivation g reads [.nonterminal name] [tree'] pos stop' →
            Clear reads more stop → Clear reads more stop' → tree = tree' ∧ stop = stop' := by
  constructor
  · intro settles pos stop stop' tree tree' short h h' ends ends'
    obtain ⟨rfl, -⟩ := List.cons.inj (settles short h h' ends ends')
    exact ⟨rfl, h.stop_eq h'⟩
  · intro single pos stop stop' trees trees' short h h' ends ends'
    obtain ⟨tree, rfl⟩ := h.exists_eq_singleton
    obtain ⟨tree', rfl⟩ := h'.exists_eq_singleton
    rw [(single short h h' ends ends').1]

/-- Where another kind is read, none of the kinds is. -/
theorem Clear.of_reads {kind : κ}
    (single : ∀ index kind kind', reads index kind → reads index kind' → kind = kind')
    (stand : reads pos kind) (other : kind ∉ more) : Clear reads more pos :=
  fun _ mem stand' => other (single pos _ _ stand stand' ▸ mem)

theorem Clear.mono (h : Clear reads more' pos) (sub : more ⊆ more') : Clear reads more pos :=
  fun kind mem => h kind (sub mem)

/-! ## Layers -/

/-- **A layer of operators** of a grammar that group to the left. -/
structure LeftLayer (g : Grammar κ) where
  name : String
  /-- The tighter name that is passed on to. -/
  base : String
  pass : ProdId
  /-- The productions of the operators, each with the kind of its operator. -/
  operators : List (ProdId × κ)
  /-- What stands behind an operator. -/
  operand : List (Symbol κ)
  productionsOf_eq : g.productionsOf name = pass :: operators.map Prod.fst
  symbols_pass : g.symbols pass = [.nonterminal base]
  symbols_operator : ∀ op ∈ operators,
    g.symbols op.1 = .nonterminal name :: .terminal op.2 :: operand
  nodup : (operators.map Prod.snd).Nodup

namespace LeftLayer

variable (L : LeftLayer g)

/-- **A derivation of a layer** is a tighter one, or one of the layer, an operator and its
operand. -/
theorem derivation_iff : Derivation g reads [.nonterminal L.name] [tree] pos stop
    ↔ (∃ inner, tree = .node L.pass [inner]
        ∧ Derivation g reads [.nonterminal L.base] [inner] pos stop)
      ∨ ∃ op ∈ L.operators, ∃ front mid trees, tree = .node op.1 (front :: .leaf mid :: trees)
        ∧ Derivation g reads [.nonterminal L.name] [front] pos mid ∧ reads mid op.2
        ∧ Derivation g reads L.operand trees (mid + 1) stop := by
  rw [derivation_rule_iff, L.productionsOf_eq]
  constructor
  · rintro ⟨id, rule, children, rfl, inner⟩
    rcases List.mem_cons.1 rule with rfl | rule
    · rw [L.symbols_pass] at inner
      obtain ⟨tree, _, _, rfl, inner, tail⟩ := derivation_nonterminal_iff.1 inner
      obtain ⟨rfl, rfl⟩ := derivation_nil_iff.1 tail
      exact .inl ⟨tree, rfl, inner⟩
    · obtain ⟨op, mem, rfl⟩ := List.mem_map.1 rule
      rw [L.symbols_operator op mem] at inner
      obtain ⟨front, _, mid, rfl, head, inner⟩ := derivation_nonterminal_iff.1 inner
      obtain ⟨trees, rfl, stands, inner⟩ := derivation_terminal_iff.1 inner
      exact .inr ⟨op, mem, front, mid, trees, rfl, head, stands, inner⟩
  · rintro (⟨inner, rfl, head⟩ | ⟨op, mem, front, mid, trees, rfl, head, stands, inner⟩)
    · exact ⟨L.pass, List.mem_cons_self, _, rfl, L.symbols_pass ▸ head⟩
    · refine ⟨op.1, List.mem_cons_of_mem _ (List.mem_map_of_mem mem), _, rfl, ?_⟩
      rw [L.symbols_operator op mem]
      exact derivation_nonterminal_iff.2 ⟨front, _, mid, rfl, head, .leaf stands inner⟩

/-- **A derivation grows** by an operator and its operand; it is given by its tree and its end. -/
inductive Grows (reads : Nat → κ → Prop) : Tree × Nat → Tree × Nat → Prop
  | step {op : ProdId × κ} {front : Tree} {trees : List Tree} {mid stop : Nat}
      (mem : op ∈ L.operators) (stand : reads mid op.2)
      (operand : Derivation g reads L.operand trees (mid + 1) stop) :
      Grows reads (front, mid) (.node op.1 (front :: .leaf mid :: trees), stop)

variable {L}

/-- What a derivation grows to ends further on. -/
theorem le_of_grows {small large : Tree × Nat}
    (h : Relation.ReflTransGen (L.Grows reads) small large) : small.2 ≤ large.2 := by
  induction h with
  | refl => exact Nat.le_refl _
  | tail _ step ih =>
    obtain ⟨-, -, operand⟩ := step
    have := operand.derives.le
    simp only at ih ⊢
    omega

/-- **Derivations of a layer grow** from tighter ones. -/
theorem exists_grows (h : Derivation g reads [.nonterminal L.name] [tree] pos stop) :
    ∃ inner mid, Derivation g reads [.nonterminal L.base] [inner] pos mid
      ∧ Relation.ReflTransGen (L.Grows reads) (.node L.pass [inner], mid) (tree, stop) := by
  induction stop using Nat.strongRecOn generalizing tree with
  | ind stop ih =>
    rcases L.derivation_iff.1 h with
      ⟨inner, rfl, head⟩ | ⟨op, mem, front, mid, trees, rfl, head, stand, operand⟩
    · exact ⟨inner, stop, head, .refl⟩
    · obtain ⟨inner, first, base, grows⟩ := ih mid operand.derives.le head
      exact ⟨inner, first, base, grows.tail (.step mem stand operand)⟩

section Settles

variable (single : ∀ index kind kind', reads index kind → reads index kind' → kind = kind')
  (apart : ∀ op ∈ L.operators, op.2 ∉ more)

include single apart

/-- Where a derivation goes on growing, no operand goes on. -/
theorem clear_of_grows {small large : Tree × Nat}
    (h : Relation.ReflTransGen (L.Grows reads) small large)
    (ends : Clear reads (more ++ L.operators.map Prod.snd) large.2) : Clear reads more small.2 := by
  rcases h.cases_head with rfl | ⟨_, ⟨mem, stand, -⟩, -⟩
  · exact ends.mono (List.subset_append_left _ _)
  · exact .of_reads single stand (apart _ mem)

/-- **There is one way to grow** up to where no operator is read and no operand goes on. -/
theorem eq_of_grows (operand : Settles g reads span L.operand more)
    {start large large' : Tree × Nat} (low : pos ≤ start.2) (short : large.2 < pos + span)
    (h : Relation.ReflTransGen (L.Grows reads) start large)
    (h' : Relation.ReflTransGen (L.Grows reads) start large')
    (ends : Clear reads (more ++ L.operators.map Prod.snd) large.2)
    (ends' : Clear reads (more ++ L.operators.map Prod.snd) large'.2) : large = large' := by
  have idle : ∀ {index : Nat} {op : ProdId × κ},
      Clear reads (more ++ L.operators.map Prod.snd) index → op ∈ L.operators →
        ¬ reads index op.2 :=
    fun clear mem => clear _ (List.mem_append_right _ (List.mem_map_of_mem mem))
  induction h using Relation.ReflTransGen.head_induction_on with
  | refl =>
    rcases h'.cases_head with same | ⟨_, ⟨mem, stand, -⟩, -⟩
    · exact same
    · exact absurd stand (idle ends mem)
  | head step further ih =>
    obtain @⟨op, front, trees, mid, stop, mem, stand, inner⟩ := step
    rcases h'.cases_head with rfl | ⟨_, @⟨op', _, trees', _, stop', mem', stand', inner'⟩, further'⟩
    · exact absurd stand (idle ends' mem)
    · obtain rfl : op = op' :=
        List.inj_on_of_nodup_map L.nodup mem mem' (single mid _ _ stand stand')
      have le := le_of_grows further
      simp only at low le
      obtain rfl := operand (by omega) inner inner' (clear_of_grows single apart further ends)
        (clear_of_grows single apart further' ends')
      obtain rfl := inner.stop_eq inner'
      have := inner.derives.le
      exact ih (by simp only; omega) further'

/-- **A layer settles** before its operators and whatever its parts settle before. -/
theorem settles (base : Settles g reads span [.nonterminal L.base] more)
    (operand : Settles g reads span L.operand more) :
    Settles g reads span [.nonterminal L.name] (more ++ L.operators.map Prod.snd) := by
  refine settles_name_iff.2 fun pos stop stop' tree tree' short h h' ends ends' => ?_
  obtain ⟨inner, mid, first, grows⟩ := exists_grows h
  obtain ⟨inner', mid', first', grows'⟩ := exists_grows h'
  have le : mid ≤ stop := le_of_grows grows
  obtain ⟨rfl, rfl⟩ := settles_name_iff.1 base (by omega) first first'
    (clear_of_grows single apart grows ends) (clear_of_grows single apart grows' ends')
  exact Prod.mk.inj
    (eq_of_grows single apart operand first.derives.le short grows grows' ends ends')

end Settles

end LeftLayer

end Earley
