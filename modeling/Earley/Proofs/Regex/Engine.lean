import Earley.Proofs.Pattern
import Earley.Proofs.Regex.Paths
import Earley.Regex.Engine

/-!
# Proofs/Regex/Engine — patterns over the standard engine

A pattern searches with the two expressions that its source is read as in the two frames, and the
standard engine is asked for the places that `Regex.find?` comes to.
-/

namespace Earley

theorem Engine.compile_standard_eq_ok_iff {source : List Char} {r : Regex} :
    Engine.standard.compile source = .ok r ↔ Regex.read? source = some r := by
  simp only [Engine.standard]
  cases Regex.read? source <;> simp

namespace Pattern

variable {source : String} {valid : (Matcher.compile .standard source).toOption.isSome = true}
  {r : Regex} {text : List Char}

/-- A search at the beginning ends where the expression that was read finds its first match. -/
theorem matchLength?_regex {matcher : Matcher .standard} :
    (regex matcher).matchLength? text
      = (Regex.find? matcher.atStart text).map Cursor.pos := by
  change ((Option.map _ (Regex.find? _ text)).map _ : Option Nat) = _
  rw [Option.map_map]
  cases found : Regex.find? matcher.atStart text with
  | none => rfl
  | some last =>
    exact congrArg some (charCount_byteLength_take (Regex.leads_of_find? found).1)

/-- A pattern searches with the expression that its source is read as. -/
theorem matchLength?_ofSource
    (read : Regex.read? ("^(?:".toList ++ source.toList ++ ")".toList) = some r) :
    (ofSource source valid).matchLength? text = (r.find? text).map Cursor.pos := by
  obtain ⟨matcher, compiled, same⟩ := exists_ofSource_eq source valid
  have start := Engine.compile_standard_eq_ok_iff.1 matcher.atStart_eq
  rw [Matcher.source_of_compile compiled, read] at start
  rw [same, matchLength?_regex, Option.some.inj start]

/-- A pattern tests whole texts with the expression that its source is read as between both ends. -/
theorem accepts_ofSource {text : String}
    (read : Regex.read? ("^(?:".toList ++ source.toList ++ ")$".toList) = some r) :
    (ofSource source valid).accepts text = r.isMatch text.toList := by
  obtain ⟨matcher, compiled, same⟩ := exists_ofSource_eq source valid
  have whole := Engine.compile_standard_eq_ok_iff.1 matcher.whole_eq
  rw [Matcher.source_of_compile compiled, read] at whole
  rw [same, Option.some.inj whole]
  rfl

end Pattern

end Earley
