import JsonBinding.Text.Printable

/-!
# Text in diagnostics

A text quoted in a diagnostic shows its characters as themselves, except that the quote, the
backslash, line ends, tabs and the null character are written with a backslash, and a character
that is not shown by its code in braces (`diagnostic`).
-/

namespace JsonBinding.Text

/-- A character by its code. -/
def byCode (c : Char) : List Char :=
  ['\\', 'u', '\x7b'] ++ Nat.toDigits 16 c.toNat ++ ['\x7d']

/-- A character of a quoted text. -/
def diagnosticChar (c : Char) : List Char :=
  if c = '"' then ['\\', '"']
  else if c = '\\' then ['\\', '\\']
  else if c = '\n' then ['\\', 'n']
  else if c = '\r' then ['\\', 'r']
  else if c = '\t' then ['\\', 't']
  else if c.toNat = 0 then ['\\', '0']
  else if isShown c then [c]
  else byCode c

/-- The text between quotes. -/
def diagnostic (s : List Char) : String := .ofList ('"' :: (s.flatMap diagnosticChar ++ ['"']))

end JsonBinding.Text
