import JsonBinding.Json.Basic

/-!
# JSON text

The compact text of a value (`Json.text`), with no blank between tokens, and the text spread over
lines with two blanks per level (`Json.pretty`). A string escapes the quote, the backslash and the
control characters below the blank, and nothing else (`quoted`).
-/

namespace JsonBinding.Json

/-- A lower-case hexadecimal digit. -/
def hexDigit (n : Nat) : Char := Nat.digitChar (n % 16)

/-- A character inside a string. -/
def escapeChar (c : Char) : List Char :=
  if c = '"' then ['\\', '"']
  else if c = '\\' then ['\\', '\\']
  else if c.toNat = 8 then ['\\', 'b']
  else if c.toNat = 9 then ['\\', 't']
  else if c.toNat = 10 then ['\\', 'n']
  else if c.toNat = 12 then ['\\', 'f']
  else if c.toNat = 13 then ['\\', 'r']
  else if c.toNat < 32 then ['\\', 'u', '0', '0', hexDigit (c.toNat / 16), hexDigit c.toNat]
  else [c]

/-- A string between its quotes. -/
def quoted (s : String) : String :=
  .ofList ('"' :: (s.toList.flatMap escapeChar ++ ['"']))

/-! ## Compact text -/

mutual

/-- The text of a value without blanks. -/
def text : Json → String
  | .null => "null"
  | .bool true => "true"
  | .bool false => "false"
  | .num n => n.text
  | .str s => quoted s
  | .arr items => "[" ++ itemsText items ++ "]"
  | .obj members => "\x7b" ++ membersText members ++ "\x7d"

/-- The items of an array, separated by commas. -/
def itemsText : List Json → String
  | [] => ""
  | [v] => text v
  | v :: rest => text v ++ "," ++ itemsText rest

/-- The members of an object, separated by commas. -/
def membersText : Members → String
  | [] => ""
  | [(k, v)] => quoted k ++ ":" ++ text v
  | (k, v) :: rest => quoted k ++ ":" ++ text v ++ "," ++ membersText rest

end

/-! ## Text over lines -/

/-- A line break and the blanks of a level. -/
def newline (level : Nat) : String := .ofList ('\n' :: List.replicate (2 * level) ' ')

mutual

/-- The text of a value at a level, spread over lines. -/
def prettyAt (level : Nat) : Json → String
  | .arr [] => "[]"
  | .arr (v :: rest) => "[" ++ prettyItems (level + 1) (v :: rest) ++ newline level ++ "]"
  | .obj [] => "\x7b\x7d"
  | .obj (m :: rest) => "\x7b" ++ prettyMembers (level + 1) (m :: rest) ++ newline level ++ "\x7d"
  | .null => text .null
  | .bool b => text (.bool b)
  | .num n => text (.num n)
  | .str s => text (.str s)

/-- The items of an array, one a line. -/
def prettyItems (level : Nat) : List Json → String
  | [] => ""
  | [v] => newline level ++ prettyAt level v
  | v :: rest => newline level ++ prettyAt level v ++ "," ++ prettyItems level rest

/-- The members of an object, one a line. -/
def prettyMembers (level : Nat) : Members → String
  | [] => ""
  | [(k, v)] => newline level ++ quoted k ++ ": " ++ prettyAt level v
  | (k, v) :: rest =>
    newline level ++ quoted k ++ ": " ++ prettyAt level v ++ "," ++ prettyMembers level rest

end

/-- The text of a value spread over lines. -/
def pretty (v : Json) : String := prettyAt 0 v

end JsonBinding.Json
