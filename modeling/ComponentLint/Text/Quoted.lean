import ComponentLint.Text.Hidden

/-!
# Characters in messages

A message that complains about a character shows it between single quotes, so that characters
which would not be seen are spelled out.

## Main definitions

* `Text.quoteChar c` — the character `c` between single quotes.
-/

namespace ComponentLint.Text

/-- What stands for a character between single quotes: a backslash escape for the null character,
the usual blanks, the quote and the backslash, the code point in braces for every other character
that does not show on its own, and else the character itself. -/
def showChar (c : Char) : String :=
  if c = '\x00' then "\\0"
  else if c = '\t' then "\\t"
  else if c = '\n' then "\\n"
  else if c = '\r' then "\\r"
  else if c = '\x27' then "\\\x27"
  else if c = '\\' then "\\\\"
  else if isHidden c then "\\u\x7b" ++ String.ofList (Nat.toDigits 16 c.toNat) ++ "\x7d"
  else String.singleton c

/-- A character between single quotes. -/
def quoteChar (c : Char) : String := "\x27" ++ showChar c ++ "\x27"

end ComponentLint.Text
