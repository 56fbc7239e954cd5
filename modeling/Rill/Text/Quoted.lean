import Rill.Text.Extender
import Rill.Text.Printable

/-!
# Quoted strings

A string is shown between double quotes on one line of visible characters:
quotes, backslashes and the common controls have short escapes, and every other
character that cannot be shown by itself is written as its code point.
-/

namespace Rill.Text

/-- The escape that spells out a code point in lower-case hexadecimal. -/
def codePoint (c : Char) : List Char :=
  '\\' :: 'u' :: '\x7b' :: Nat.toDigits 16 c.toNat ++ ['\x7d']

def escape (c : Char) : List Char :=
  if c = '\x00' then ['\\', '0']
  else if c = '\t' then ['\\', 't']
  else if c = '\r' then ['\\', 'r']
  else if c = '\n' then ['\\', 'n']
  else if c = '"' then ['\\', '"']
  else if c = '\\' then ['\\', '\\']
  else if isExtender c || !isPrintable c then codePoint c
  else [c]

def quoted (s : String) : String :=
  String.ofList ('"' :: s.toList.flatMap escape ++ ['"'])

end Rill.Text
