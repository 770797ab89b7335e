/-!
# Unicode/RangeTable — sets of code points as sorted ranges

A table lists the ranges of code points with some property, each with its first and its last member,
in ascending order and without overlaps.  Membership is decided by halving the table.
-/

namespace Earley.Unicode

/-- Ranges of code points, ends included, in ascending order. -/
abbrev RangeTable := Array (Nat × Nat)

namespace RangeTable

/-- Looks for `code` among the ranges with indices in `[lo, hi)`; `fuel` bounds the halvings. -/
def search (table : RangeTable) (code : Nat) : Nat → Nat → Nat → Bool
  | 0, _, _ => false
  | fuel + 1, lo, hi =>
    if hi ≤ lo then false
    else
      let mid := (lo + hi) / 2
      match table[mid]? with
      | none => false
      | some (first, last) =>
        if code < first then search table code fuel lo mid
        else if last < code then search table code fuel (mid + 1) hi
        else true

/-- Whether one of the ranges holds `c`. -/
def contains (table : RangeTable) (c : Char) : Bool :=
  search table c.toNat table.size 0 table.size

end RangeTable

end Earley.Unicode
