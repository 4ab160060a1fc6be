import PageCatalog.Text.Printable

/-!
Quoted text.

A text is written between double quotes; the quote and the backslash get a
backslash before them, five control characters have a short name, and every
other character that is not printable is spelled out by its number.

* `Text.escape`: one character inside quotes.
* `Text.quote`: a whole text.
-/

namespace PageCatalog.Text

/-- How a character is written inside double quotes. -/
def escape (c : Char) : List Char :=
  if c = '"' then ['\\', '"']
  else if c = '\\' then ['\\', '\\']
  else if c = '\n' then ['\\', 'n']
  else if c = '\r' then ['\\', 'r']
  else if c = '\t' then ['\\', 't']
  else if c.toNat = 0 then ['\\', '0']
  else if isPrintable c then [c]
  else ['\\', 'u', '\x7b'] ++ Nat.toDigits 16 c.toNat ++ ['\x7d']

/-- A text between double quotes. -/
def quote (s : String) : String :=
  String.ofList ('"' :: s.toList.flatMap escape ++ ['"'])

end PageCatalog.Text
