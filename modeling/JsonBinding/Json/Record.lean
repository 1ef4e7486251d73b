import JsonBinding.Json.Draft

/-!
# Records in JSON

A record is written as an object with a member per field, or as an array of its fields in order
(`Decoder.record`). A field may be required, may be left out, or may be left out by name only
(`Presence`). In an object no known field may come twice; other members are passed over, unless the
record is closed.
-/

namespace JsonBinding.Json

/-- A reader of a tree that may hold so many more levels of containers. -/
abbrev Decoder (α : Type) : Type := Nat → Draft → Option α

/-- Whether a field may be missing. -/
inductive Presence where
  | required
  /-- May be missing. -/
  | optional
  /-- May be missing in an object, but not in an array. -/
  | named
  deriving DecidableEq

namespace Decoder

/-- A truth value. -/
def bool : Decoder Bool
  | _, .bool b => some b
  | _, _ => none

/-- A text. -/
def text : Decoder String
  | _, .string s? => s?
  | _, _ => none

/-- A text that `f` accepts. -/
def textWith {α : Type} (f : String → Option α) : Decoder α := fun levels d => (text levels d).bind f

/-- Any value. -/
def json : Decoder Json := Draft.json?

/-- An object of any values. -/
def members : Decoder Members := fun levels d =>
  match d with
  | .object _ =>
    match json levels d with
    | some (.obj ms) => some ms
    | _ => none
  | _ => none

/-- An array. -/
def list {α : Type} (item : Decoder α) : Decoder (List α)
  | levels + 1, .array items => items.mapM (item levels)
  | _, _ => none

/-- A value, or null. -/
def nullable {α : Type} (value : Decoder α) : Decoder (Option α)
  | _, .null => some none
  | levels, d => (value levels d).map some

/-- One of some names, alone or as the only member of an object, with the value null. -/
def choice {α : Type} (names : List (String × α)) : Decoder α
  | _, .string s? => s?.bind fun s => names.lookup s
  | _ + 1, .object [(k?, .null)] => k?.bind fun k => names.lookup k
  | _, _ => none

/-- The fields of a record by position, as far as they are there. -/
def fieldsInOrder : List (String × Presence) → List Draft → Option (List (Option Draft))
  | [], [] => some []
  | [], _ :: _ => none
  | (_, p) :: spec, [] => if p = .optional then (fieldsInOrder spec []).map (none :: ·) else none
  | _ :: spec, d :: ds => (fieldsInOrder spec ds).map (some d :: ·)

/-- The fields of a record by name, as far as they are there. -/
def fieldsByName (spec : List (String × Presence)) (closed : Bool)
    (members : List (Option String × Draft)) : Option (List (Option Draft)) :=
  if members.all (fun m => m.1.any fun k => !closed || spec.any (·.1 == k)) then
    spec.mapM fun (name, p) =>
      match members.filter (·.1 == some name) with
      | [] => if p = .required then none else some none
      | [(_, d)] => some (some d)
      | _ => none
  else none

/-- The fields of a record, in the order of `spec`, and how many more levels they may hold. -/
def record (spec : List (String × Presence)) (closed : Bool) :
    Decoder (Nat × List (Option Draft))
  | levels + 1, .object members => (fieldsByName spec closed members).map (levels, ·)
  | levels + 1, .array items => (fieldsInOrder spec items).map (levels, ·)
  | _, _ => none

/-- A field that is there, or the default. -/
def field {α : Type} (levels : Nat) (value : Decoder α) (default : Option α) :
    Option Draft → Option α
  | some d => value levels d
  | none => default

/-- The value that a text holds. -/
def ofText? {α : Type} (value : Decoder α) (s : String) : Option α :=
  (Draft.ofText? s).bind (value Draft.maxLevels)

/-- What a JSON value holds, however deep it is. -/
def ofJson? {α : Type} (value : Decoder α) (v : Json) : Option α :=
  let d := Draft.ofJson v
  value d.depth d

end Decoder

end JsonBinding.Json
