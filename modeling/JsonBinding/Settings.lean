import JsonBinding.DateFormat
import JsonBinding.Json.Record
import JsonBinding.Text.Blank

/-!
# Settings

The settings of a generation as a user writes them (`SettingsDocument`) and as they hold once every
one is checked (`SettingsDocument.check`). The first setting without a valid value is the fault.
-/

namespace JsonBinding

/-- The order of the keys of an object. -/
inductive KeyOrder where
  | lexicographical
  | reverse
  | any
  deriving DecidableEq

namespace KeyOrder

/-- Every order. -/
def all : List KeyOrder := [.lexicographical, .reverse, .any]

/-- The name of an order. -/
def name : KeyOrder → String
  | .lexicographical => "lexicographical"
  | .reverse => "reverse"
  | .any => "any"

/-- Whether keys descend. -/
def descends : KeyOrder → Bool
  | .reverse => true
  | .lexicographical | .any => false

end KeyOrder

/-- Which properties without a written form of their own are left to the generic writer. -/
inductive Deferral where
  | classesAndArrays
  | classesOnly
  | nothing
  deriving DecidableEq

namespace Deferral

/-- Every policy. -/
def all : List Deferral := [.classesAndArrays, .classesOnly, .nothing]

/-- The name of a policy. -/
def name : Deferral → String
  | .classesAndArrays => "classes-and-arrays"
  | .classesOnly => "classes-only"
  | .nothing => "none"

/-- Whether classes are left to the generic writer. -/
def classes : Deferral → Bool
  | .classesAndArrays | .classesOnly => true
  | .nothing => false

/-- Whether arrays are left to the generic writer. -/
def arrays : Deferral → Bool
  | .classesAndArrays => true
  | .classesOnly | .nothing => false

end Deferral

/-- Checked settings. -/
structure Settings where
  enabled : Bool := true
  locale : String := "en-US"
  dateFormat : DateFormat := .iso
  /-- Whether a null property is written unless something else is said about it. -/
  writeNulls : Bool := false
  keyOrder : KeyOrder := .lexicographical
  deferral : Deferral := .classesAndArrays
  /-- What stands in front of the name of every unit. -/
  unitPackage : String := "jsonb.serializers."
  deriving DecidableEq

/-- The settings as a JSON value. -/
def Settings.toJson (s : Settings) : Json :=
  .obj [
    ("enabled", .bool s.enabled),
    ("locale", .str s.locale),
    ("date_format", s.dateFormat.toJson),
    ("serialize_null_values", .bool s.writeNulls),
    ("property_order_strategy", .str s.keyOrder.name),
    ("deferral_policy", .str s.deferral.name),
    ("unit_prefix", .str s.unitPackage)]

/-- Settings as they are written; what is left out takes its default. -/
structure SettingsDocument where
  enabled? : Option Bool := none
  locale? : Option String := none
  dateFormat? : Option String := none
  writeNulls? : Option Bool := none
  keyOrder? : Option String := none
  deferral? : Option String := none
  unitPackage? : Option String := none

namespace SettingsDocument

/-! ## Reading -/

/-- The fields of the document. -/
def fields : List (String × Json.Presence) := [
  ("enabled", .named), ("locale", .named), ("date-format", .named),
  ("serialize-null-values", .named), ("property-order-strategy", .named),
  ("deferral-policy", .named), ("unit-prefix", .named)]

open Json.Decoder in
/-- The document in a JSON value; it has no other fields. -/
def decoder : Json.Decoder SettingsDocument := fun levels d =>
  match record fields true levels d with
  | some (levels, [enabled, locale, dateFormat, writeNulls, keyOrder, deferral, unitPackage]) => do
    pure {
      enabled? := ← field levels (nullable bool) (some none) enabled
      locale? := ← field levels (nullable text) (some none) locale
      dateFormat? := ← field levels (nullable text) (some none) dateFormat
      writeNulls? := ← field levels (nullable bool) (some none) writeNulls
      keyOrder? := ← field levels (nullable text) (some none) keyOrder
      deferral? := ← field levels (nullable text) (some none) deferral
      unitPackage? := ← field levels (nullable text) (some none) unitPackage }
  | _ => none

/-- The document in a file. -/
def ofFile (path contents : String) : Except Fault SettingsDocument :=
  match Json.Decoder.ofText? decoder contents with
  | some doc => .ok doc
  | none => .error (.malformedSettings path)

/-! ## Checks -/

/-- Whether a text is a language tag: two or three letters, then parts of two to eight letters or
digits, each behind a dash or an underscore. -/
def isLanguageTag (s : String) : Bool :=
  let within (lo hi : Nat) (p : Char → Bool) (part : List Char) : Bool :=
    lo ≤ part.length && part.length ≤ hi && part.all p
  match s.toList.splitOnP fun c => c = '-' || c = '_' with
  | [] => false
  | language :: rest => within 2 3 Char.isAlpha language && rest.all (within 2 8 Char.isAlphanum)

/-- The choice with a name, but for case and surrounding blanks. -/
def choose {α : Type} (all : List α) (name : α → String) (s : String) : Option α :=
  let word : String := .ofList (Text.trim s.toList)
  all.find? fun a => DateFormat.sameLetters (name a) word

/-- The names of choices in one line. -/
def expected {α : Type} (all : List α) (name : α → String) : String :=
  String.intercalate ", " (all.map name)

/-- The choice that is written for a setting, or the default. -/
def chosen {α : Type} (what : String) (all : List α) (name : α → String) (default : α) :
    Option String → Except Fault α
  | none => .ok default
  | some s =>
    match choose all name s with
    | some a => .ok a
    | none => .error (.invalidSetting what
      ("`" ++ s ++ "`, expected one of " ++ expected all name))

/-- The settings that a document asks for. -/
def check (doc : SettingsDocument) : Except Fault Settings := do
  let locale := doc.locale?.getD ({} : Settings).locale
  if !isLanguageTag locale then
    throw (.invalidSetting "locale" ("`" ++ locale ++ "` is not a language tag"))
  let keyOrder ← chosen "property-order-strategy" KeyOrder.all KeyOrder.name .lexicographical
    doc.keyOrder?
  let deferral ← chosen "deferral-policy" Deferral.all Deferral.name .classesAndArrays
    doc.deferral?
  let dateFormat ← doc.dateFormat?.elim (pure DateFormat.iso) DateFormat.ofText
  pure {
    enabled := doc.enabled?.getD true
    locale
    dateFormat
    writeNulls := doc.writeNulls?.getD false
    keyOrder
    deferral
    unitPackage := doc.unitPackage?.getD ({} : Settings).unitPackage }

end SettingsDocument

end JsonBinding
