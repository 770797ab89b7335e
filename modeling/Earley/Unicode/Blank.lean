import Earley.Unicode.RangeTable

/-!
# Unicode/Blank — the characters that separate words on a line or between lines

The blank characters are those with the property `White_Space`.  The zero-width space and the
byte-order mark are not among them, the no-break space and the next-line control are.
-/

namespace Earley.Unicode

/-- The blank characters beyond ASCII. -/
def blankRanges : RangeTable :=
  #[(0x85, 0x85), (0xA0, 0xA0), (0x1680, 0x1680), (0x2000, 0x200A), (0x2028, 0x2029),
    (0x202F, 0x202F), (0x205F, 0x205F), (0x3000, 0x3000)]

/-- **Blank characters**: in ASCII the space and the controls from tab to carriage return. -/
def isBlank (c : Char) : Bool :=
  if c.toNat < 0x80 then c == ' ' || (9 ≤ c.toNat && c.toNat ≤ 13) else blankRanges.contains c

end Earley.Unicode
