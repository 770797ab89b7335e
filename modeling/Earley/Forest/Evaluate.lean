import Earley.Forest.Resolution

/-!
# Forest/Evaluate — the value of a derivation

The values of tokens and of productions are given by a semantics.  Evaluation follows the branches
of a resolution from a node down and works out the values from left to right and from the leaves up;
a shared node is worked out wherever it is used.  The reductions are listed in the order in which
they are made, also where evaluation fails later on.
-/

namespace Earley

universe u v

/-- What derivations mean: the value of a token, and the value of a production by those of its
children. -/
structure Semantics (κ : Type u) (V : Type v) where
  leaf : Token κ → V
  reduce : ProdId → List V → V
  chooser : Chooser κ := .first

/-- Why a node has no value under a resolution. -/
inductive EvalError where
  /-- The resolution picks no branch for this node. -/
  | unresolved (id : NodeId)
  /-- The picked branches lead from this node back to it. -/
  | loop (id : NodeId)
  /-- The forest has no such node. -/
  | missing (id : NodeId)
  /-- The node has no branch of this number. -/
  | noBranch (id : NodeId) (branch : Nat)
  /-- The forest has no such token. -/
  | noToken (index : Nat)
  deriving DecidableEq

/-- A production and the values that it was reduced from. -/
structure Reduction (V : Type v) where
  production : ProdId
  args : List V

/-- A value or why there is none, with the reductions made on the way. -/
structure Evaluation (V : Type v) where
  reductions : Array (Reduction V)
  result : Except EvalError V

namespace Forest

variable {κ : Type u} {V : Type v}

mutual

/-- The value of node `id` below the nodes of `path`; `done` are the reductions made before. -/
def evalNode (f : Forest κ) (sem : Semantics κ V) (r : Resolution) (path : List NodeId)
    (done : Array (Reduction V)) (id : NodeId) : Evaluation V :=
  match r.branch? id with
  | none => ⟨done, .error (.unresolved id)⟩
  | some index =>
    if on : id ∈ path then ⟨done, .error (.loop id)⟩
    else if h : id < f.nodes.size then
      have := offPath_cons_lt h on
      match f.nodes[id].branches[index]? with
      | none => ⟨done, .error (.noBranch id index)⟩
      | some branch =>
        match f.evalChildren sem r (id :: path) done branch with
        | (done, .error error) => ⟨done, .error error⟩
        | (done, .ok args) =>
          let production := f.nodes[id].production
          ⟨done.push ⟨production, args⟩, .ok (sem.reduce production args)⟩
    else ⟨done, .error (.missing id)⟩
termination_by (offPath f.nodes.size path, 0, 0)

/-- The values of children, from left to right. -/
def evalChildren (f : Forest κ) (sem : Semantics κ V) (r : Resolution) (path : List NodeId)
    (done : Array (Reduction V)) :
    List (Child NodeId) → Array (Reduction V) × Except EvalError (List V)
  | [] => (done, .ok [])
  | .token index :: rest =>
    match f.tokens[index]? with
    | none => (done, .error (.noToken index))
    | some token =>
      let (done, values) := f.evalChildren sem r path done rest
      (done, values.map (sem.leaf token :: ·))
  | .node id :: rest =>
    match f.evalNode sem r path done id with
    | ⟨done, .error error⟩ => (done, .error error)
    | ⟨done, .ok value⟩ =>
      let (done, values) := f.evalChildren sem r path done rest
      (done, values.map (value :: ·))
termination_by children => (offPath f.nodes.size path, 1, children.length)

end

/-- **The value of a node** under a resolution. -/
def evaluate (f : Forest κ) (sem : Semantics κ V) (r : Resolution) (root : NodeId) :
    Evaluation V :=
  f.evalNode sem r [] #[] root

/-- The value of a node under the resolution that the chooser makes. -/
def accept (f : Forest κ) (sem : Semantics κ V) (root : NodeId) : Option V :=
  (f.choose sem.chooser root).resolution?.bind fun r => (f.evaluate sem r root).result.toOption

variable [Terminal κ]

/-- The line for a choice that was declined. -/
def choiceLines (f : Forest κ) (choice : Choice) : List String :=
  match choice.result with
  | .error (.declined id) =>
    (f.nodes[id]?.map fun node => "chooser declined ProdId(" ++ toString node.production ++ ") @"
      ++ toString node.start ++ ".." ++ toString node.stop).toList
  | _ => []

/-- The line for branches that loop. -/
def Evaluation.lines (evaluation : Evaluation V) : List String :=
  match evaluation.result with
  | .error (.loop id) => ["chosen branches loop through NodeId(" ++ toString id ++ ")"]
  | _ => []

end Forest

end Earley
