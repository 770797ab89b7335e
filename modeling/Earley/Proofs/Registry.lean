import Earley.Proofs.Grammar.Nullable
import Earley.Registry
import Mathlib.Data.List.Induction

/-!
# Proofs/Registry — what holds of a registry through any calls

Between two additions a registry may be asked anything, in any order.  Every call leaves it coherent
with the productions added so far (`Registry.Coherent.reply`): these are numbered as they came, the
index is that of the productions, and a table that is kept is the one that would be made now.  So
a reply depends on the productions alone, and not on what was asked before, and it is what the
productions say (`Registry.Answers`).
-/

namespace Earley

universe u

variable {κ : Type u}

/-! ## Ids by name -/

namespace NameTable

variable {table : NameTable} {name other : String} {id : ProdId}

theorem ids_push : ids (push name id table) other
    = if name = other then ids table other ++ [id] else ids table other := by
  fun_induction push name id table with
  | case1 => rfl
  | case2 found table =>
    simp only [ids]
    split <;> rfl
  | case3 first found table differs ih =>
    simp only [ids, ih]
    by_cases same : first = other
    · rw [if_pos same, if_neg fun named => differs (same.trans named.symm), if_pos same]
    · rw [if_neg same, if_neg same]

theorem ids_sorted : ids (sorted table) name = (ids table name).mergeSort (· ≤ ·) := by
  induction table with
  | nil => exact List.mergeSort_nil.symm
  | cons entry table ih =>
    simp only [sorted, List.map_cons, ids]
    split
    · rfl
    · exact ih

end NameTable

/-- An index that gets one production more. -/
theorem tableOf_append_singleton (productions : List (Registered κ)) (p : Registered κ) :
    tableOf (productions ++ [p]) = (tableOf productions).push p.rule.name p.id := by
  rw [tableOf, List.foldl_append]
  rfl

/-- **An index lists the ids of a name** in the order of the productions. -/
theorem ids_tableOf (productions : List (Registered κ)) (name : String) :
    (tableOf productions).ids name
      = (productions.filter (·.rule.name = name)).map Registered.id := by
  induction productions using List.reverseRecOn with
  | nil => rfl
  | append_singleton productions p ih =>
    rw [tableOf_append_singleton, NameTable.ids_push, ih, List.filter_append, List.map_append,
      List.filter_singleton]
    by_cases named : p.rule.name = name
    · rw [if_pos named, decide_eq_true named]
      rfl
    · rw [if_neg named, decide_eq_false named, Bool.cond_false, List.map_nil, List.append_nil]

/-! ## Productions as they come -/

/-- **Productions with their places** as ids. -/
def registered (added : List (Production κ)) : List (Registered κ) :=
  added.zipIdx.map fun (p, id) => ⟨id, p⟩

section Registered

variable {added more : List (Production κ)} {name entry : String} {id : ProdId}

theorem registered_append_singleton (added : List (Production κ)) (p : Production κ) :
    registered (added ++ [p]) = registered added ++ [⟨added.length, p⟩] := by
  rw [registered, List.zipIdx_append, List.map_append, Nat.zero_add]
  rfl

theorem map_rule_registered (added : List (Production κ)) :
    (registered added).map Registered.rule = added := by
  rw [registered, List.map_map]
  exact List.zipIdx_map_fst 0 added

theorem length_registered (added : List (Production κ)) :
    (registered added).length = added.length := by
  rw [registered, List.length_map, List.length_zipIdx]

@[simp] theorem getElem?_registered :
    (registered added)[id]? = added[id]?.map fun p => ⟨id, p⟩ := by
  simp [registered, List.getElem?_zipIdx, Function.comp_def]

namespace Grammar

theorem mem_productionsOf_ofList : id ∈ (ofList entry added).productionsOf name
    ↔ ∃ p, added[id]? = some p ∧ p.name = name := by
  simp only [mem_productionsOf, Grammar.name, ofList, List.size_toArray, List.getElem?_toArray]
  constructor
  · rintro ⟨bound, named⟩
    rw [List.getElem?_eq_getElem bound] at named ⊢
    exact ⟨_, rfl, named⟩
  · rintro ⟨p, place, named⟩
    rw [place]
    exact ⟨(List.getElem?_eq_some_iff.1 place).1, named⟩

theorem symbols_ofList {p : Production κ} (h : added[id]? = some p) :
    (ofList entry added).symbols id = p.symbols := by
  simp only [symbols, ofList, List.getElem?_toArray, h, Option.map_some, Option.getD_some]

end Grammar

/-- What is added later leaves the productions before at their places. -/
theorem getElem?_append_of_eq_some {p : Production κ} (more : List (Production κ))
    (h : added[id]? = some p) : (added ++ more)[id]? = some p :=
  (List.getElem?_append_left (List.getElem?_eq_some_iff.1 h).1).trans h

/-- **Productions added later take nothing back**: what derives the empty text still does. -/
theorem DerivesEmpty.append {symbols : List (Symbol κ)} (more : List (Production κ))
    (h : DerivesEmpty (.ofList entry added) symbols) :
    DerivesEmpty (.ofList entry (added ++ more)) symbols := by
  induction h with
  | nil => exact .nil
  | cons rule _ _ head tail =>
    obtain ⟨p, place, named⟩ := Grammar.mem_productionsOf_ofList.1 rule
    have later := getElem?_append_of_eq_some more place
    refine .cons (Grammar.mem_productionsOf_ofList.2 ⟨p, later, named⟩) ?_ tail
    rw [Grammar.symbols_ofList later]
    rwa [Grammar.symbols_ofList place] at head

end Registered

section Empty

variable {productions : Array (Registered κ)} {added : List (Production κ)}

theorem map_rule_of_toList (numbered : productions.toList = registered added) :
    productions.map Registered.rule = added.toArray :=
  Array.ext' (by rw [Array.toList_map, numbered, map_rule_registered])

/-- The index of productions that are given by their ids. -/
theorem ids_tableOf_filterMap (numbered : productions.toList = registered added)
    (entry name : String) {found : List ProdId} (bound : ∀ id ∈ found, id < added.length) :
    (tableOf (found.filterMap (productions[·]?))).ids name
      = found.filter fun id => (Grammar.ofList entry added).name id = name := by
  rw [ids_tableOf]
  induction found with
  | nil => rfl
  | cons id found ih =>
    obtain ⟨known, others⟩ := List.forall_mem_cons.1 bound
    have place : productions[id]? = some ⟨id, added[id]⟩ := by
      rw [← Array.getElem?_toList, numbered, getElem?_registered, List.getElem?_eq_getElem known,
        Option.map_some]
    have named : (Grammar.ofList entry added).name id = added[id].name := by
      simp [Grammar.name, Grammar.ofList, known]
    rw [List.filterMap_cons_some place, List.filter_cons, List.filter_cons, named, ← ih others]
    split <;> rfl

/-- **The table of the productions that derive the empty text** lists those that the grammar
keeps. -/
theorem ids_emptyTable (numbered : productions.toList = registered added) (entry name : String) :
    (emptyTable productions).ids name = (Grammar.ofList entry added).nullableOf name := by
  let g := Grammar.ofList entry added
  let found := (emptySearch g.productions).1.found
  have bound : ∀ id ∈ found.reverse, id < added.length :=
    fun _ mem => lt_of_mem_found (List.mem_reverse.1 mem)
  have table : (emptyTable productions).ids name
      = (found.reverse.filter fun id => g.name id = name).mergeSort (· ≤ ·) := by
    rw [emptyTable, NameTable.ids_sorted, map_rule_of_toList numbered]
    exact congrArg (·.mergeSort (· ≤ ·)) (ids_tableOf_filterMap numbered entry name bound)
  have kept : g.nullableOf name = (found.mergeSort (· ≤ ·)).filter fun id => g.name id = name := by
    rw [Grammar.nullableOf, g.nullable_eq, emptyProductions]
  rw [table, kept]
  have perm : (found.reverse.filter fun id => g.name id = name).Perm
      ((found.mergeSort (· ≤ ·)).filter fun id => g.name id = name) :=
    (found.reverse_perm.trans (List.mergeSort_perm _ _).symm).filter _
  exact ((List.mergeSort_perm _ _).trans perm).eq_of_pairwise'
    List.sortedLE_mergeSort.pairwise (List.sortedLE_mergeSort.pairwise.filter _)

end Empty

namespace Registry

/-! ## Calls -/

/-- A call of a registry. -/
inductive Call (κ : Type u) where
  | add (p : Production κ)
  | rule (name : String) (symbols : List (Symbol κ))
  | production (id : ProdId)
  | productionsOf (name : String)
  | nullable (name : String)
  | isNullable (name : String)

/-- The productions that a call adds. -/
def Call.adds : Call κ → List (Production κ)
  | .add p => [p]
  | .rule name symbols => [⟨name, symbols⟩]
  | _ => []

/-- What a call comes to. -/
inductive Answer (κ : Type u) where
  | added (id : ProdId)
  | chained
  | production (found : Option (Registered κ))
  | productions (listed : Option (List (Registered κ)))
  | ids (ids : List ProdId)
  | flag (empty : Bool)

/-- The answer to a call, and the registry after it. -/
structure Reply (κ : Type u) where
  answer : Answer κ
  after : Registry κ

/-- The reply to a call. -/
def reply (r : Registry κ) : Call κ → Reply κ
  | .add p => ⟨.added (r.add p).1, (r.add p).2⟩
  | .rule name symbols => ⟨.chained, r.rule name symbols⟩
  | .production id => ⟨.production (r.production? id), r⟩
  | .productionsOf name => ⟨.productions (r.productionsOf? name), r⟩
  | .nullable name => ⟨.ids (r.nullable name).1, (r.nullable name).2⟩
  | .isNullable name => ⟨.flag (r.isNullable name).1, (r.isNullable name).2⟩

/-- The registry after calls. -/
def afterCalls (r : Registry κ) (calls : List (Call κ)) : Registry κ :=
  calls.foldl (fun r call => (r.reply call).after) r

/-- **The productions that calls add**, in their order. -/
def addedBy (calls : List (Call κ)) : List (Production κ) := calls.flatMap Call.adds

/-- **What the answer to a call must be** behind those by which the productions `added` came: it
depends on these productions, and on nothing else. -/
inductive Answers (entry : String) (added : List (Production κ)) : Call κ → Answer κ → Prop
  | add (p : Production κ) : Answers entry added (.add p) (.added added.length)
  | rule (name : String) (symbols : List (Symbol κ)) :
      Answers entry added (.rule name symbols) .chained
  | production (id : ProdId) :
      Answers entry added (.production id) (.production ((registered added)[id]?))
  | productionsOf (name : String) : Answers entry added (.productionsOf name)
      (.productions (some ((registered added).filter (·.rule.name = name))))
  | nullable (name : String) {ids : List ProdId} (sorted : ids.Pairwise (· < ·))
      (exact : ∀ id, id ∈ ids ↔ ∃ p, added[id]? = some p ∧ p.name = name
        ∧ DerivesEmpty (.ofList entry added) p.symbols) :
      Answers entry added (.nullable name) (.ids ids)
  | isNullable (name : String) {empty : Bool}
      (exact : empty = true ↔ DerivesEmpty (.ofList entry added) [.nonterminal name]) :
      Answers entry added (.isNullable name) (.flag empty)

variable {r : Registry κ} {entry name : String} {added : List (Production κ)}

/-- There is one answer at most. -/
theorem Answers.unique {call : Call κ} {answer answer' : Answer κ}
    (h : Answers entry added call answer) (h' : Answers entry added call answer') :
    answer = answer' := by
  cases h with
  | add | rule | production | productionsOf => cases h'; rfl
  | nullable _ sorted exact =>
    cases h' with
    | nullable _ sorted' exact' =>
      rw [sorted.eq_of_mem_iff sorted' fun id => (exact id).trans (exact' id).symm]
  | isNullable _ exact =>
    cases h' with
    | isNullable _ exact' => rw [Bool.eq_iff_iff.2 (exact.trans exact'.symm)]

/-! ## Coherence -/

/-- **A registry is coherent** with the productions that were added: they are numbered as they came,
the index is that of the productions, and a table that is kept is the one that would be made
now. -/
structure Coherent (r : Registry κ) (entry : String) (added : List (Production κ)) : Prop where
  entry_eq : r.entry = entry
  numbered : r.productions.toList = registered added
  indexed : r.byName = tableOf r.productions.toList
  kept : ∀ table, r.nullable? = some table → table = emptyTable r.productions

namespace Coherent

theorem fresh (entry : String) : Coherent (fresh entry : Registry κ) entry [] where
  entry_eq := rfl
  numbered := rfl
  indexed := rfl
  kept := nofun

variable (h : Coherent r entry added)

include h

theorem size_eq : r.productions.size = added.length := by
  rw [← Array.length_toList, h.numbered, length_registered]

theorem add (p : Production κ) : Coherent (r.add p).2 entry (added ++ [p]) where
  entry_eq := h.entry_eq
  numbered := by
    rw [registered_append_singleton, ← h.numbered, ← h.size_eq]
    exact Array.toList_push
  indexed := by
    have index := tableOf_append_singleton r.productions.toList ⟨r.productions.size, p⟩
    rw [← h.indexed] at index
    exact index.symm.trans (congrArg tableOf Array.toList_push.symm)
  kept := nofun

theorem emptyByName_eq : r.emptyByName = emptyTable r.productions := by
  rw [emptyByName]
  cases same : r.nullable? with
  | none => rfl
  | some table => exact h.kept table same

/-- A lookup keeps the table that is made now. -/
theorem nullable (name : String) : Coherent (r.nullable name).2 entry added where
  entry_eq := h.entry_eq
  numbered := h.numbered
  indexed := h.indexed
  kept := fun _ same => (Option.some.inj same).symm.trans h.emptyByName_eq

/-- **Every call leaves the registry coherent** with what has been added now. -/
theorem reply (call : Call κ) :
    Coherent (r.reply call).after entry (added ++ call.adds) := by
  cases call with
  | add p => exact h.add p
  | rule name symbols => exact h.add ⟨name, symbols⟩
  | production | productionsOf => exact (List.append_nil added).symm ▸ h
  | nullable name | isNullable name => exact (List.append_nil added).symm ▸ h.nullable name

/-- **Calls leave the registry coherent.** -/
theorem afterCalls (calls : List (Call κ)) :
    Coherent (r.afterCalls calls) entry (added ++ addedBy calls) := by
  induction calls generalizing r added with
  | nil => exact (List.append_nil added).symm ▸ h
  | cons call calls ih =>
    rw [addedBy, List.flatMap_cons, ← List.append_assoc]
    exact ih (h.reply call)

/-! ## Answers -/

theorem production?_eq (id : ProdId) : r.production? id = (registered added)[id]? := by
  rw [production?, ← Array.getElem?_toList, h.numbered]

/-- Productions are found by their ids. -/
theorem mapM_production? {ps : List (Registered κ)} (sub : ps ⊆ registered added) :
    (ps.map Registered.id).mapM r.production? = some ps := by
  induction ps with
  | nil => rfl
  | cons p ps ih =>
    obtain ⟨mem, others⟩ := List.cons_subset.1 sub
    obtain ⟨id, place⟩ := List.mem_iff_getElem?.1 mem
    obtain ⟨rule, -, rfl⟩ := Option.map_eq_some_iff.1 (getElem?_registered.symm.trans place)
    rw [List.map_cons, List.mapM_cons, ih others, h.production?_eq, place]
    rfl

theorem productionsOf?_eq (name : String) :
    r.productionsOf? name = some ((registered added).filter (·.rule.name = name)) := by
  rw [productionsOf?, h.indexed, ids_tableOf, h.numbered]
  exact h.mapM_production? (List.filter_subset_self _)

theorem nullable_eq (name : String) :
    (r.nullable name).1 = (Grammar.ofList entry added).nullableOf name := by
  rw [← ids_emptyTable h.numbered entry name, ← h.emptyByName_eq]
  rfl

theorem mem_nullable {id : ProdId} : id ∈ (r.nullable name).1 ↔ ∃ p, added[id]? = some p
    ∧ p.name = name ∧ DerivesEmpty (.ofList entry added) p.symbols := by
  rw [h.nullable_eq, Grammar.mem_nullableOf, Grammar.mem_productionsOf_ofList]
  constructor
  · rintro ⟨⟨p, place, named⟩, empty⟩
    exact ⟨p, place, named, Grammar.symbols_ofList place ▸ empty⟩
  · rintro ⟨p, place, named, empty⟩
    exact ⟨⟨p, place, named⟩, (Grammar.symbols_ofList place).symm ▸ empty⟩

theorem isNullable_iff : (r.isNullable name).1 = true
    ↔ DerivesEmpty (.ofList entry added) [.nonterminal name] := by
  rw [← Grammar.isNullable_iff, Grammar.isNullable_eq, ← h.nullable_eq]
  rfl

/-- **A coherent registry answers** as the productions say. -/
theorem answers (call : Call κ) : Answers entry added call (r.reply call).answer := by
  cases call with
  | add p =>
    rw [Registry.reply, Registry.add, h.size_eq]
    exact .add p
  | rule name symbols => exact .rule name symbols
  | production id =>
    rw [Registry.reply, h.production?_eq]
    exact .production id
  | productionsOf name =>
    rw [Registry.reply, h.productionsOf?_eq]
    exact .productionsOf name
  | nullable name =>
    exact .nullable name (h.nullable_eq name ▸ Grammar.pairwise_nullable.filter _) fun _ =>
      h.mem_nullable
  | isNullable name => exact .isNullable name h.isNullable_iff

/-- What is declared is the grammar of the productions. -/
theorem grammar_eq : r.grammar = .ofList entry added := by
  obtain ⟨rfl, numbered, -, -⟩ := h
  simp only [grammar, map_rule_of_toList numbered, Grammar.ofList]

end Coherent

/-- **A registry through any calls.**  Behind any calls of a fresh registry every call is answered
as the productions say that these calls added.  What was added keeps its number and its place
whatever is called later; a call that is made again with no production added since is answered as
before; and no production that derives the empty text ever stops doing so. -/
theorem coherence_of_calls (entry : String) (before : List (Call κ)) :
    let r := (fresh entry).afterCalls before
    let added := addedBy before
    r.grammar = .ofList entry added
      ∧ (∀ call, Answers entry added call (r.reply call).answer)
      ∧ (∀ more id p, added[id]? = some p →
          (r.afterCalls more).production? id = some ⟨id, p⟩)
      ∧ (∀ call more, addedBy more = [] →
          ((r.afterCalls more).reply call).answer = (r.reply call).answer)
      ∧ ∀ more name, (r.nullable name).1 ⊆ ((r.afterCalls more).nullable name).1 := by
  intro r added
  have now : Coherent r entry added := (Coherent.fresh entry).afterCalls before
  refine ⟨now.grammar_eq, now.answers, fun more id p place => ?_, fun call more still => ?_,
    fun more name id mem => ?_⟩
  · rw [(now.afterCalls more).production?_eq, getElem?_registered,
      getElem?_append_of_eq_some _ place, Option.map_some]
  · have later := now.afterCalls more
    rw [still, List.append_nil] at later
    exact (later.answers call).unique (now.answers call)
  · obtain ⟨p, place, named, empty⟩ := now.mem_nullable.1 mem
    exact (now.afterCalls more).mem_nullable.2
      ⟨p, getElem?_append_of_eq_some _ place, named, empty.append _⟩

/-- A lookup before an addition leaves nothing stale. -/
example : (((fresh "A" : Registry String).afterCalls
    [.rule "A" [.nonterminal "B"], .nullable "A", .rule "B" []]).nullable "A").1 = [0] := by
  decide +kernel

end Registry

end Earley
