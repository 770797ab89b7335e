import Earley.Proofs.Forest.Unfolding
import Earley.Proofs.Prefix

/-!
# Proofs/Narrowing — reading tokens as fewer kinds only removes readings

Of two tests that compare texts with kinds, let the *wide* one hold wherever the *narrow* one does.
Over a tokenizer that ignores what is expected, the run with the wide test follows the run with the
narrow one token by token (`Paired.step`): a kind that the narrow chart awaits is viable, hence
viable with the wide test, hence awaited by the wide chart.  So the wide chart reads every token as
more kinds (`Paired.reads`), and a derivation stays one.
-/

namespace Earley

universe u v

variable {κ : Type u} {σ : Type v}

/-- **The tokenizer ignores what is expected**, and leaves it to the parser to compare texts with
kinds. -/
structure Tokenizer.IgnoresExpected (tokenizer : Tokenizer κ σ) : Prop where
  scan_eq : ∀ state expected expected', tokenizer.scan state expected
    = tokenizer.scan state expected'
  matched_eq : ∀ {state expected scan next},
    tokenizer.scan state expected = (.ok (some scan), next) → scan.matched = none

theorem Tokenizer.ignoresExpected_ofList : (Tokenizer.ofList κ).IgnoresExpected where
  scan_eq := fun _ _ _ => rfl
  matched_eq := by
    intro tokens expected scan next h
    cases tokens with
    | nil => exact nomatch (Prod.mk.inj h).1
    | cons token tokens =>
      obtain rfl := Option.some.inj (Except.ok.inj (Prod.mk.inj h).1)
      rfl

/-- **A tree unfolds from a root** of the forest. -/
def Forest.HasTree (f : Forest κ) (tree : Tree) : Prop :=
  ∃ root ∈ f.roots, ∃ unfolding, f.Unfolds [.node root] [unfolding] [tree]

theorem Forest.Packs.hasTree_iff {f : Forest κ} {stands : Nat → κ → Prop} (packs : f.Packs stands)
    {tree : Tree} : f.HasTree tree ↔
      Derivation f.grammar stands [.nonterminal f.grammar.entry] [tree] 0 f.tokens.size := by
  rw [← packs.exists_root_iff]
  exact exists_congr fun root => and_congr_right fun _ => packs.exists_unfolds_iff

variable {g : Grammar κ} {narrow wide : String → κ → Bool}

/-! ## What fits -/

section Fits

variable {tokens : List (Token κ)} {index : Nat} {kind : κ}

theorem StandsByText.mono (imp : ∀ text kind, narrow text kind = true → wide text kind = true)
    (h : StandsByText narrow tokens index kind) : StandsByText wide tokens index kind := by
  obtain ⟨token, atIndex, same⟩ := h
  exact ⟨token, atIndex, imp _ _ same⟩

theorem Viable.mono (imp : ∀ text kind, narrow text kind = true → wide text kind = true)
    (h : Viable g narrow tokens index kind) : Viable g wide tokens index kind := by
  obtain ⟨kinds, rest, rewrites, same⟩ := h
  exact ⟨kinds, rest, rewrites, same.imp fun _ _ => imp _ _⟩

/-- **A token that fits still fits** where more texts are equal to kinds. -/
theorem Fits.mono (imp : ∀ text kind, narrow text kind = true → wide text kind = true)
    (h : Fits g narrow tokens index) : Fits g wide tokens index := by
  obtain ⟨kind, viable, stands⟩ := h
  exact ⟨kind, viable.mono imp, stands.mono imp⟩

end Fits

/-! ## Two runs over the same tokens -/

/-- **Two charts of the same tokens**, compared with the kinds by one test and by another. -/
structure Paired (g : Grammar κ) (narrow wide : String → κ → Bool) (chart chart' : Chart κ) :
    Prop where
  byText : chart.ByText g narrow
  byText' : chart'.ByText g wide
  tokens_eq : chart'.tokens = chart.tokens

namespace Paired

variable {chart chart' longer : Chart κ}

/-- **The wide chart reads every token as more kinds.** -/
theorem reads (h : Paired g narrow wide chart chart')
    (imp : ∀ text kind, narrow text kind = true → wide text kind = true) (index : Nat) (kind : κ)
    (reads : chart.Reads index kind) : chart'.Reads index kind := by
  have le : index ≤ chart.tokens.size := (h.byText.sound.lt_of_reads reads).le
  obtain ⟨stands, waits⟩ := (h.byText.reads_iff index kind).1 reads
  have viable := (h.byText.hasAwaiting_iff le).1 waits
  refine (h.byText'.reads_iff index kind).2 ?_
  rw [h.byText'.hasAwaiting_iff (h.tokens_eq ▸ le), h.tokens_eq]
  exact ⟨stands.mono imp, viable.mono imp⟩

variable [DecidableEq κ]

/-- **A token that the narrow run reads, the wide run reads as well.** -/
theorem step (h : Paired g narrow wide chart chart')
    (imp : ∀ text kind, narrow text kind = true → wide text kind = true) {token : Token κ}
    (step : chart.step g narrow ⟨token, none⟩ = .ok longer) :
    ∃ longer', chart'.step g wide ⟨token, none⟩ = .ok longer'
      ∧ Paired g narrow wide longer longer' := by
  have text : token.text ≠ "" := by simpa using (Chart.step_eq_ok step).1
  rcases h.byText.step text with ⟨_, read, byText, tokens⟩ | ⟨stopped, -⟩
  · obtain rfl := Except.ok.inj (step.symm.trans read)
    rcases h.byText'.step text with ⟨longer', read', byText', tokens'⟩ | ⟨-, unmatched⟩
    · exact ⟨longer', read', byText, byText', by rw [tokens, tokens', h.tokens_eq]⟩
    · -- the token fits the narrow run, and what fits is never refused
      have fits : Fits g narrow (longer.tokens.toList ++ []) chart.tokens.size :=
        byText.fits (by rw [tokens, Array.size_push]; exact Nat.lt_succ_self _)
      obtain ⟨kind, viable, other, atIndex, same⟩ := fits.mono imp
      rw [tokens, Array.toList_push, List.append_assoc, ← h.tokens_eq] at viable atIndex
      obtain rfl : token = other := by simpa using atIndex
      rw [unmatched kind (h.byText'.mem_expected_iff.2 viable)] at same
      exact absurd same Bool.false_ne_true
  · exact nomatch step.symm.trans stopped

end Paired

variable [DecidableEq κ] {tokenizer : Tokenizer κ σ}

/-- **The wide run follows the narrow one** to the end of the input. -/
theorem recognizeFrom_paired (ignores : tokenizer.IgnoresExpected)
    (imp : ∀ text kind, narrow text kind = true → wide text kind = true) {chart chart' : Chart κ}
    {state : σ} (h : Paired g narrow wide chart chart')
    (ok : (recognizeFrom g tokenizer narrow chart state).error? = none) :
    (recognizeFrom g tokenizer wide chart' state).error? = none
      ∧ Paired g narrow wide (recognizeFrom g tokenizer narrow chart state).chart
          (recognizeFrom g tokenizer wide chart' state).chart := by
  fun_induction recognizeFrom g tokenizer narrow chart state generalizing chart' with
  | case1 chart state error => exact absurd ok (Option.some_ne_none error)
  | case2 chart state next scan =>
    rw [ignores.scan_eq state _ (chart'.frontier.expected g)] at scan
    rw [recognizeFrom_of_end scan]
    exact ⟨rfl, h⟩
  | case3 chart state _ _ _ error => exact absurd ok (Option.some_ne_none error)
  | case4 chart state answer next scan longer step _ ih =>
    obtain ⟨token, matched⟩ := answer
    obtain rfl : matched = none := ignores.matched_eq scan
    obtain ⟨longer', step', paired⟩ := h.step imp step
    rw [ignores.scan_eq state _ (chart'.frontier.expected g)] at scan
    rw [recognizeFrom_of_step scan step']
    exact ih paired ok

theorem recognize_paired (ignores : tokenizer.IgnoresExpected)
    (imp : ∀ text kind, narrow text kind = true → wide text kind = true) {state : σ}
    (ok : (recognize g tokenizer narrow state).error? = none) :
    (recognize g tokenizer wide state).error? = none
      ∧ Paired g narrow wide (recognize g tokenizer narrow state).chart
          (recognize g tokenizer wide state).chart :=
  recognizeFrom_paired ignores imp ⟨Chart.byText_start, Chart.byText_start, rfl⟩ ok

/-- **Narrowing only removes readings.**  Over a tokenizer that ignores what is expected, an input
that is parsed with the narrow test is parsed with the wide one, over the same tokens; and every
derivation tree that unfolds from a root of the first forest unfolds from a root of the second. -/
theorem readings_of_narrower {state : σ} {f : Forest κ} (ignores : tokenizer.IgnoresExpected)
    (imp : ∀ text kind, narrow text kind = true → wide text kind = true)
    (ok : parse g tokenizer narrow state = .ok f) :
    ∃ f', parse g tokenizer wide state = .ok f' ∧ f'.tokens = f.tokens
      ∧ ∀ tree, f.HasTree tree → f'.HasTree tree := by
  obtain ⟨finished, rfl⟩ := parse_eq_ok_iff.1 ok
  obtain ⟨finished', paired⟩ := recognize_paired ignores imp finished
  have ok' := parse_eq_ok_iff.2 ⟨finished', rfl⟩
  have tokens : (Forest.ofChart g (recognize g tokenizer wide state).chart).tokens
      = (Forest.ofChart g (recognize g tokenizer narrow state).chart).tokens := paired.tokens_eq
  refine ⟨_, ok', tokens, fun tree has => (Forest.packs_parse ok').hasTree_iff.2 ?_⟩
  rw [tokens]
  exact ((Forest.packs_parse ok).hasTree_iff.1 has).mono (paired.reads imp)

/-- A word that may be a keyword or a name. -/
def keywordOrName : Grammar String :=
  .ofList "S" [⟨"S", [.terminal "let"]⟩, ⟨"S", [.terminal "name"]⟩]

/-- Where every text is a name, a keyword is still read as the keyword that it was. -/
theorem readings_of_narrower_keyword :
    ∃ f f', parse keywordOrName (.ofList String) (· == ·) [⟨"let", "let", 0, 3⟩] = .ok f
      ∧ parse keywordOrName (.ofList String) (fun text kind => text == kind || kind == "name")
          [⟨"let", "let", 0, 3⟩] = .ok f'
      ∧ f'.tokens = f.tokens ∧ f.HasTree (.node 0 [.leaf 0]) ∧ f'.HasTree (.node 0 [.leaf 0]) := by
  have run : (recognize keywordOrName (.ofList String) (· == ·)
        [⟨"let", "let", 0, 3⟩]).error? = none
      ∧ (recognize keywordOrName (.ofList String) (· == ·)
          [⟨"let", "let", 0, 3⟩]).chart.tokens.size = 1
      ∧ "let" ∈ (recognize keywordOrName (.ofList String) (· == ·)
          [⟨"let", "let", 0, 3⟩]).chart.accepted.getD 0 [] := by decide +kernel
  obtain ⟨done, size, reads⟩ := run
  have ok := parse_eq_ok_iff.2 ⟨done, rfl⟩
  have imp : ∀ text kind : String, (text == kind) = true →
      (text == kind || kind == "name") = true := fun text kind same => by rw [same, Bool.true_or]
  obtain ⟨f', ok', tokens, kept⟩ := readings_of_narrower Tokenizer.ignoresExpected_ofList imp ok
  have tree : Derivation keywordOrName (recognize keywordOrName (.ofList String) (· == ·)
      [⟨"let", "let", 0, 3⟩]).chart.Reads [.nonterminal "S"] [.node 0 [.leaf 0]] 0 1 :=
    .singleton_node (by decide) (.leaf reads (.nil 1))
  rw [← size] at tree
  have has := (Forest.packs_parse ok).hasTree_iff.2 tree
  exact ⟨_, f', ok, ok', tokens, has, kept _ has⟩

end Earley
