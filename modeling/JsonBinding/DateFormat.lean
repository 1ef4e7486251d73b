import JsonBinding.Calendar.Rendering
import JsonBinding.Fault
import JsonBinding.Text.LetterCase

/-!
# Date formats

A date value is written as it is held, or through a pattern (`DateFormat.apply`).
-/

namespace JsonBinding

/-- How dates and times are written. -/
inductive DateFormat where
  | iso
  | pattern (text : String)
  deriving DecidableEq

namespace DateFormat

/-- Whether two texts agree but for the case of the letters A to Z. -/
def sameLetters (a b : String) : Bool := a.toLower == b.toLower

/-- The format that a text asks for: the empty text and the word ISO ask for no pattern. -/
def ofText (s : String) : Except Fault DateFormat :=
  if s.isEmpty || sameLetters s "iso" then .ok .iso
  else if (Calendar.Pattern.ofText? s).isSome then .ok (.pattern s)
  else .error (.invalidSetting "date-format" ("`" ++ s ++ "` is not a valid strftime pattern"))

/-- The name of the format. -/
def text : DateFormat → String
  | .iso => "ISO"
  | .pattern s => s

/-- The format as a JSON value. -/
def toJson : DateFormat → Json
  | .iso => .str "iso"
  | .pattern s => .obj [("pattern", .str s)]

/-- The text of a date or time in a format. -/
def apply (f : DateFormat) (s : String) : Except Fault String :=
  match f with
  | .iso => .ok s
  | .pattern p =>
    match Calendar.Stamp.ofText? s with
    | none => .error (.notADate s)
    | some stamp =>
      match (Calendar.Pattern.ofText? p).bind (·.render? stamp) with
      | some rendered => .ok rendered
      | none => .error (.dateMismatch p s)

end DateFormat

end JsonBinding
