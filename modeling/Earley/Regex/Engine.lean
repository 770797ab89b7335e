import Earley.Engine
import Earley.Regex.Read

/-!
# Regex/Engine — the regular expressions of the library as an engine

The standard engine compiles the sources that `Regex.read?` reads, which are part of those that
other engines know, and refuses all others.
-/

namespace Earley

/-- **The standard engine.**  A refusal is the source that was refused. -/
def Engine.standard : Engine where
  Expr := Regex
  Refusal := String
  compile source :=
    match Regex.read? source with
    | some r => .ok r
    | none => .error (String.ofList source)
  findEnd? r text := (r.find? text).map fun last => byteLength (text.take last.pos)
  isMatch r text := r.isMatch text
  findEnd?_boundary := by
    intro r text stop found
    obtain ⟨last, -, rfl⟩ := Option.map_eq_some_iff.1 found
    refine ⟨min last.pos text.length, Nat.min_le_right _ _, ?_⟩
    rw [← List.take_take, List.take_length]

end Earley
