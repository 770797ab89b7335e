import Earley.Unicode.Printable

/-!
# Text/Quoted — texts between double quotes, with escapes for what would not show

A quoted text is readable on one line: the quote and the backslash are escaped, so are the tab, the
line ends and the null character by their letters, and every other character that does not show by
itself by its code point.
-/

namespace Earley.Text

/-- The escape of `c` by its code point, in lower-case hexadecimal between braces. -/
def codeEscape (c : Char) : List Char :=
  ['\\', 'u', '\x7b'] ++ Nat.toDigits 16 c.toNat ++ ['\x7d']

/-- A character of a quoted text as it is written. -/
def quotedChar (c : Char) : List Char :=
  if c = '"' || c = '\\' then ['\\', c]
  else if c = '\t' then ['\\', 't']
  else if c = '\r' then ['\\', 'r']
  else if c = '\n' then ['\\', 'n']
  else if c = '\x00' then ['\\', '0']
  else if Unicode.isExtender c || !Unicode.isPrintable c then codeEscape c
  else [c]

/-- **The quoted form** of a text. -/
def quoted (text : String) : String :=
  String.ofList ('"' :: text.toList.flatMap quotedChar ++ ['"'])

end Earley.Text
