import JsonBinding.Calendar.Date
import JsonBinding.Text.Blank

/-!
# Dates and times in text

A stamp has a date, a time of the day, or both, and then perhaps an offset from universal time
(`Stamp`). A text is read as a date and time with offset in the strict form, else as a date and
time, a date, or a time in the loose form (`Stamp.ofText?`).

In the loose form blanks may stand in front of every number and every mark and at the end, numbers
have one or two digits, and a year has up to four digits, or a sign and any number of digits.
-/

namespace JsonBinding.Calendar

/-- A time of the day; second 60 is a leap second. -/
structure Time where
  hour : Nat
  minute : Nat
  second : Nat
  nano : Nat
  deriving DecidableEq

/-- The time with these parts, when a day has it. -/
def Time.of? (hour minute second nano : Nat) : Option Time :=
  if hour ≤ 23 ∧ minute ≤ 59 ∧ second ≤ 60 then some ⟨hour, minute, second, nano⟩ else none

/-- A date, a time or both; the offset is in minutes. -/
structure Stamp where
  date? : Option Date := none
  time? : Option Time := none
  offset? : Option Int := none
  deriving DecidableEq

namespace Stamp

/-! ## Parts of a text -/

/-- A reader of what stands in front of a text. -/
abbrev Reader (α : Type) : Type := StateT (List Char) Option α

namespace Reader

/-- The number that some digits write. -/
def value (digits : List Char) : Nat := digits.foldl (fun n c => 10 * n + (c.toNat - 48)) 0

/-- The digits in front, at most `most`. -/
def digits (most : Nat) : Reader (List Char) := fun s =>
  let ds := (s.take most).takeWhile Char.isDigit
  some (ds, s.drop ds.length)

/-- A number of `least` to `most` digits. -/
def number (least most : Nat) : Reader Nat := do
  let ds ← digits most
  if least ≤ ds.length then pure (value ds) else failure

/-- One of some characters. -/
def anyOf (cs : List Char) : Reader Char
  | c :: s => if c ∈ cs then some (c, s) else none
  | [] => none

/-- A character. -/
def char (c : Char) : Reader Unit := discard (anyOf [c])

/-- Blanks. -/
def blanks : Reader Unit := modify Text.trimStart

/-- Whether a character stands in front, which is then passed over. -/
def taken (c : Char) : Reader Bool
  | d :: s => some (if d = c then (true, s) else (false, d :: s))
  | [] => some (false, [])

/-- All digits in front, as billionths behind a point. -/
def billionths : Reader Nat := do
  let ds ← digits 9
  discard (digits (← get).length)
  if ds.isEmpty then failure else pure (value ds * Nat.pow 10 (9 - ds.length))

/-- A fraction behind a point, or nothing. -/
def fraction : Reader Nat := do
  if ← taken '.' then billionths else pure 0

/-- The end of the text. -/
def done : Reader Unit := do
  if (← get).isEmpty then pure () else failure

end Reader

open Reader

/-! ## The strict form -/

/-- An offset in minutes: the letter of universal time, or a sign with hours and minutes. -/
def strictOffset : Reader Int := do
  match ← anyOf ['Z', 'z', '+', '-', '−'] with
  | 'Z' | 'z' => pure 0
  | sign =>
    let hours ← number 2 2
    char ':'
    let minutes ← number 2 2
    if hours ≤ 23 ∧ minutes ≤ 59 then
      let total : Int := 60 * hours + minutes
      pure (if sign = '+' then total else -total)
    else failure

/-- A date and a time with an offset. -/
def strict : Reader Stamp := do
  let year ← number 4 4
  char '-'
  let month ← number 2 2
  char '-'
  let day ← number 2 2
  discard (anyOf ['T', 't', ' '])
  let hour ← number 2 2
  char ':'
  let minute ← number 2 2
  char ':'
  let second ← number 2 2
  let nano ← fraction
  let offset ← strictOffset
  done
  let date ← (Date.of? year month day : Option Date)
  let time ← (Time.of? hour minute second nano : Option Time)
  pure ⟨some date, some time, some offset⟩

/-! ## The loose form -/

/-- A year. -/
def looseYear : Reader Int := do
  blanks
  if ← taken '+' then return ← number 1 (← get).length
  if ← taken '-' then return -(← number 1 (← get).length)
  number 1 4

/-- A number of one or two digits. -/
def looseNumber : Reader Nat := do
  blanks
  number 1 2

/-- A mark between two numbers. -/
def looseMark (c : Char) : Reader Unit := do
  blanks
  char c

/-- A date. -/
def looseDate : Reader Date := do
  let year ← looseYear
  looseMark '-'
  let month ← looseNumber
  looseMark '-'
  let day ← looseNumber
  (Date.of? year month day : Option Date)

/-- A second with a fraction behind a colon. -/
def looseSecond : Reader (Nat × Nat) := do
  looseMark ':'
  let second ← looseNumber
  pure (second, ← fraction)

/-- A time; its second may be missing. -/
def looseTime (short : Bool) : Reader Time := do
  let hour ← looseNumber
  looseMark ':'
  let minute ← looseNumber
  let (second, nano) ← if short then looseSecond <|> pure (0, 0) else looseSecond
  (Time.of? hour minute second nano : Option Time)

/-- What a reader reads, with blanks and nothing else behind it. -/
def whole {α : Type} (r : Reader α) : Reader α := do
  let a ← r
  blanks
  done
  pure a

/-- A date and a time without offset. -/
def looseDateTime : Reader Stamp := do
  let date ← looseDate
  looseMark 'T'
  let time ← looseTime false
  pure { date? := some date, time? := some time }

/-! ## Texts -/

/-- The stamp that a text shows. -/
def ofText? (s : String) : Option Stamp :=
  let read (r : Reader Stamp) : Option Stamp := (r.run s.toList).map (·.1)
  read strict
    <|> read (whole looseDateTime)
    <|> read (whole (do pure { date? := some (← looseDate) }))
    <|> read (whole (do pure { time? := some (← looseTime true) }))

end Stamp

end JsonBinding.Calendar
