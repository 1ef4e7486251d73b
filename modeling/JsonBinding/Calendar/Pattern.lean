/-!
# Date patterns

A pattern is text with specifiers behind per cent signs, read as a list of items
(`Pattern.ofText?`). A letter of a number takes one of the signs `-`, `_` and `0` in front, which
set how the number is filled up; every other specifier is spelled in one way only (`spellings`).
-/

namespace JsonBinding.Calendar

/-- How a number is filled up to its width. -/
inductive Fill where
  | none
  | blank
  | zero
  deriving DecidableEq

/-- The numbers that a pattern may show. -/
inductive Numeric where
  | year
  | century
  | yearOfCentury
  | isoYear
  | isoYearOfCentury
  | quarter
  | month
  | day
  | weekFromSunday
  | weekFromMonday
  | isoWeek
  | sinceSunday
  | fromMonday
  | ordinal
  | hour
  | hour12
  | minute
  | second
  | nano
  | timestamp
  deriving DecidableEq

/-- The words and marks that a pattern may show. -/
inductive Mark where
  | shortMonth
  | longMonth
  | shortWeekday
  | longWeekday
  | lowerHalf
  | upperHalf
  /-- A point with as many digits as the fraction needs, in groups of three. -/
  | fraction
  /-- So many groups of three digits of the fraction. -/
  | fractionGroups (point : Bool) (groups : Nat)
  /-- The offset as so many numbers, with colons between them or without. -/
  | offset (colons : Bool) (numbers : Nat)
  /-- An offset of any spelling, which can be read but not written. -/
  | anyOffset
  deriving DecidableEq

/-- An item of a pattern. -/
inductive Item where
  | literal (c : Char)
  | numeric (n : Numeric) (fill : Fill)
  | mark (m : Mark)
  deriving DecidableEq

/-- A pattern. -/
abbrev Pattern : Type := List Item

namespace Pattern

/-- The letters of the numbers, with how each is filled up by itself. -/
def numerics : List (Char × Numeric × Fill) := [
  ('Y', .year, .zero), ('C', .century, .zero), ('y', .yearOfCentury, .zero), ('q', .quarter, .none),
  ('m', .month, .zero), ('d', .day, .zero), ('e', .day, .blank), ('w', .sinceSunday, .none),
  ('u', .fromMonday, .none), ('U', .weekFromSunday, .zero), ('W', .weekFromMonday, .zero),
  ('G', .isoYear, .zero), ('g', .isoYearOfCentury, .zero), ('V', .isoWeek, .zero),
  ('j', .ordinal, .zero), ('H', .hour, .zero), ('k', .hour, .blank), ('I', .hour12, .zero),
  ('l', .hour12, .blank), ('M', .minute, .zero), ('S', .second, .zero), ('f', .nano, .zero),
  ('s', .timestamp, .none)]

/-- The items with a literal between each two of them. -/
def separated (c : Char) (items : List Item) : List Item := items.intersperse (.literal c)

/-- The year, the month and the day with dashes. -/
def isoDate : List Item :=
  separated '-' [.numeric .year .zero, .numeric .month .zero, .numeric .day .zero]

/-- The month, the day and the year of the century with slashes. -/
def shortDate : List Item :=
  separated '/' [.numeric .month .zero, .numeric .day .zero, .numeric .yearOfCentury .zero]

/-- The hour, the minute and the second with colons. -/
def clock (first : Numeric) : List Item :=
  separated ':' [.numeric first .zero, .numeric .minute .zero, .numeric .second .zero]

/-- The specifiers that stand for words, marks, characters and for several items. -/
def spellings : List (String × List Item) := [
  ("b", [.mark .shortMonth]), ("h", [.mark .shortMonth]), ("B", [.mark .longMonth]),
  ("a", [.mark .shortWeekday]), ("A", [.mark .longWeekday]),
  ("P", [.mark .lowerHalf]), ("p", [.mark .upperHalf]),
  (".f", [.mark .fraction]),
  (".3f", [.mark (.fractionGroups true 1)]), (".6f", [.mark (.fractionGroups true 2)]),
  (".9f", [.mark (.fractionGroups true 3)]), ("3f", [.mark (.fractionGroups false 1)]),
  ("6f", [.mark (.fractionGroups false 2)]), ("9f", [.mark (.fractionGroups false 3)]),
  ("z", [.mark (.offset false 2)]), (":z", [.mark (.offset true 2)]),
  ("Z", [.mark (.offset true 2)]), ("::z", [.mark (.offset true 3)]),
  (":::z", [.mark (.offset false 1)]), ("#z", [.mark .anyOffset]),
  ("F", isoDate), ("D", shortDate), ("x", shortDate), ("T", clock .hour), ("X", clock .hour),
  ("R", separated ':' [.numeric .hour .zero, .numeric .minute .zero]),
  ("r", clock .hour12 ++ [.literal ' ', .mark .upperHalf]),
  ("v", separated '-' [.numeric .day .blank, .mark .shortMonth, .numeric .year .zero]),
  ("c", separated ' ' [.mark .shortWeekday, .mark .shortMonth, .numeric .day .blank] ++
    .literal ' ' :: clock .hour ++ [.literal ' ', .numeric .year .zero]),
  ("+", isoDate ++ .literal 'T' :: clock .hour ++ [.mark .fraction, .mark (.offset true 2)]),
  ("n", [.literal '\n']), ("t", [.literal '\t']), ("%", [.literal '%'])]

/-- How a sign in front of the letter of a number fills it up. -/
def fill? : Char → Option Fill
  | '-' => some .none
  | '_' => some .blank
  | '0' => some .zero
  | _ => none

/-- The specifier in front of a text that follows a per cent sign: its items and its length. -/
def specifier? : List Char → Option (List Item × Nat)
  | [] => none
  | c :: rest =>
    match fill? c, numerics.lookup c with
    | some fill, _ =>
      match rest with
      | letter :: _ => (numerics.lookup letter).map fun (n, _) => ([.numeric n fill], 2)
      | [] => none
    | none, some (n, fill) => some ([.numeric n fill], 1)
    | none, none =>
      (spellings.find? fun (word, _) => word.toList.isPrefixOf (c :: rest)).map
        fun (word, items) => (items, word.length)

/-- The items that some characters spell. -/
def ofChars? : List Char → Option Pattern
  | [] => some []
  | c :: rest =>
    if c = '%' then
      match specifier? rest with
      | some (items, n) => (ofChars? (rest.drop n)).map (items ++ ·)
      | none => none
    else (ofChars? rest).map (.literal c :: ·)
termination_by s => s.length
decreasing_by all_goals simp only [List.length_cons, List.length_drop]; omega

/-- The pattern that a text spells. -/
def ofText? (s : String) : Option Pattern := ofChars? s.toList

end Pattern

end JsonBinding.Calendar
