import JsonBinding.Calendar.Pattern
import JsonBinding.Calendar.Stamp

/-!
# Stamps through patterns

A stamp is rendered through a pattern item by item (`Pattern.render?`). An item that shows a date, a
time or an offset cannot be rendered for a stamp without one.
-/

namespace JsonBinding.Calendar

/-- The names of the months. -/
def monthNames : List String := [
  "January", "February", "March", "April", "May", "June", "July", "August", "September", "October",
  "November", "December"]

/-- The names of the days of the week, from Monday. -/
def weekdayNames : List String := [
  "Monday", "Tuesday", "Wednesday", "Thursday", "Friday", "Saturday", "Sunday"]

/-- The first three letters of a name. -/
def shortened (name : String) : String := .ofList (name.toList.take 3)

/-! ## Numbers -/

/-- A number behind its sign, filled up to a width. -/
def filled (fill : Fill) (width : Nat) (sign : String) (n : Nat) : String :=
  let digits := toString n
  let room (c : Char) : String := .ofList (List.replicate (width - sign.length - digits.length) c)
  match fill with
  | .none => sign ++ digits
  | .zero => sign ++ room '0' ++ digits
  | .blank => room ' ' ++ sign ++ digits

/-- A number, with a sign when it is negative. -/
def signed (fill : Fill) (width : Nat) (n : Int) : String :=
  filled fill width (if n < 0 then "-" else "") n.natAbs

/-- A year: four digits, or a sign and more digits outside of the years 0 to 9999. -/
def yearText (fill : Fill) (year : Int) : String :=
  if 0 ≤ year ∧ year ≤ 9999 then signed fill 4 year
  else filled fill 5 (if year < 0 then "-" else "+") year.natAbs

/-- Two digits of a number below 256; the first of them runs on behind nine. -/
def pairText (fill : Fill) (n : Nat) : String :=
  let tens : String :=
    if n / 10 = 0 ∧ fill = .none then ""
    else if n / 10 = 0 ∧ fill = .blank then " "
    else .singleton (Char.ofNat (48 + n / 10))
  tens ++ toString (n % 10)

/-- The hour of the half day, from 1 to 12. -/
def Time.hour12 (t : Time) : Nat := if t.hour % 12 = 0 then 12 else t.hour % 12

/-- The number of seconds since the start of 1970 in universal time; a leap second counts as the
second before it. -/
def Stamp.timestamp (d : Date) (t : Time) (offset : Int) : Int :=
  86400 * d.sinceEpoch + 3600 * t.hour + 60 * t.minute + min t.second 59 - 60 * offset

/-- The text of a number of a stamp. -/
def Numeric.text? (n : Numeric) (fill : Fill) (s : Stamp) : Option String :=
  match n with
  | .year => s.date?.map fun d => yearText fill d.year
  | .century => s.date?.map fun d => pairText fill ((d.year / 100) % 256).toNat
  | .yearOfCentury => s.date?.map fun d => pairText fill (d.year % 100).toNat
  | .isoYear => s.date?.map fun d => yearText fill d.isoWeek.1
  | .isoYearOfCentury => s.date?.map fun d => pairText fill (d.isoWeek.1 % 100).toNat
  | .quarter => s.date?.map fun d => toString d.quarter
  | .month => s.date?.map fun d => pairText fill d.month
  | .day => s.date?.map fun d => pairText fill d.day
  | .weekFromSunday => s.date?.map fun d => pairText fill d.weekFromSunday
  | .weekFromMonday => s.date?.map fun d => pairText fill d.weekFromMonday
  | .isoWeek => s.date?.map fun d => pairText fill d.isoWeek.2
  | .sinceSunday => s.date?.map fun d => toString d.sinceSunday
  | .fromMonday => s.date?.map fun d => toString (d.sinceMonday + 1)
  | .ordinal => s.date?.map fun d => signed fill 3 d.ordinal
  | .hour => s.time?.map fun t => pairText fill t.hour
  | .hour12 => s.time?.map fun t => pairText fill t.hour12
  | .minute => s.time?.map fun t => pairText fill t.minute
  | .second => s.time?.map fun t => pairText fill t.second
  | .nano => s.time?.map fun t => signed fill 9 t.nano
  | .timestamp =>
    match s.date?, s.time? with
    | some d, some t => some (signed fill 9 (Stamp.timestamp d t (s.offset?.getD 0)))
    | _, _ => none

/-! ## Words and marks -/

/-- A number of three digits for each group. -/
def groupsText (groups n : Nat) : String := filled .zero (3 * groups) "" n

/-- The fraction of a second: nothing when it is zero, else as few groups as show all of it. -/
def fractionText (nano : Nat) : String :=
  if nano = 0 then ""
  else if nano % 1000000 = 0 then "." ++ groupsText 1 (nano / 1000000)
  else if nano % 1000 = 0 then "." ++ groupsText 2 (nano / 1000)
  else "." ++ groupsText 3 nano

/-- An offset in minutes as hours, minutes and seconds, the first so many of them. -/
def offsetText (colons : Bool) (numbers : Nat) (offset : Int) : String :=
  let parts := [offset.natAbs / 60, offset.natAbs % 60, 0].take numbers
  (if offset < 0 then "-" else "+") ++
    String.intercalate (if colons then ":" else "") (parts.map (pairText .zero))

/-- The text of a word or mark of a stamp. -/
def Mark.text? (m : Mark) (s : Stamp) : Option String :=
  match m with
  | .longMonth => s.date?.map fun d => monthNames.getD (d.month - 1) ""
  | .shortMonth => s.date?.map fun d => shortened (monthNames.getD (d.month - 1) "")
  | .longWeekday => s.date?.map fun d => weekdayNames.getD d.sinceMonday ""
  | .shortWeekday => s.date?.map fun d => shortened (weekdayNames.getD d.sinceMonday "")
  | .lowerHalf => s.time?.map fun t => if t.hour < 12 then "am" else "pm"
  | .upperHalf => s.time?.map fun t => if t.hour < 12 then "AM" else "PM"
  | .fraction => s.time?.map fun t => fractionText t.nano
  | .fractionGroups point groups => s.time?.map fun t =>
    (if point then "." else "") ++ groupsText groups (t.nano / Nat.pow 10 (9 - 3 * groups))
  | .offset colons numbers => s.offset?.map (offsetText colons numbers)
  | .anyOffset => none

/-! ## Patterns -/

/-- The text of an item. -/
def Item.text? (s : Stamp) : Item → Option String
  | .literal c => some (.singleton c)
  | .numeric n fill => n.text? fill s
  | .mark m => m.text? s

/-- The text of a stamp through a pattern. -/
def Pattern.render? (p : Pattern) (s : Stamp) : Option String :=
  (p.mapM (Item.text? s)).map String.join

end JsonBinding.Calendar
