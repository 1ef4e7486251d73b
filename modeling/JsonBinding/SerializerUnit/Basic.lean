import JsonBinding.Program.Document
import JsonBinding.Support.Basic
import JsonBinding.Text.LetterCase

/-!
# Serializer units

A unit is the program for one root type, under a dotted name. The name gives the name of the file
that holds the unit, which is in lower case (`UnitId.fileStem`).
-/

namespace JsonBinding

/-- The name of a unit. -/
structure UnitId where
  text : String
  deriving DecidableEq, Inhabited

namespace UnitId

instance : ToString UnitId := ⟨UnitId.text⟩

/-- What stands behind the last dot. -/
def simpleName (id : UnitId) : String :=
  .ofList (id.text.toList.reverse.takeWhile (· ≠ '.')).reverse

/-- The name of the file of the unit, without its ending. -/
def fileStem (id : UnitId) : String := Text.lowercase (ClassName.mangle id.text)

end UnitId

/-- The program for a root type. -/
structure SerializerUnit where
  id : UnitId
  root : TypeRef
  support : SupportLevel
  program : Program

namespace SerializerUnit

/-- The unit as a JSON value. -/
def toJson (u : SerializerUnit) : Json :=
  .obj [("id", .str u.id.text), ("root_type", .str u.root.text), ("support", .str u.support.name),
    ("ir", u.program.toJson)]

/-- The first class with two functions. -/
def definedTwice? : (seen : List ClassName) → List ObjectFunction → Option ClassName
  | _, [] => none
  | seen, f :: rest =>
    if f.name ∈ seen then some f.name else definedTwice? (f.name :: seen) rest

/-- The first class whose function is run without being there. -/
def undefined? (p : Program) : Option ClassName :=
  (p.statements.filterMap Stmt.callee?).find? fun name => (p.function? name).isNone

/-- A unit whose functions are defined once each, and all that are run are there. -/
def check (u : SerializerUnit) : Except Fault Unit :=
  match definedTwice? [] u.program.functions, undefined? u.program with
  | some name, _ => .error (.definedTwice u.id.text name.text)
  | none, some name => .error (.undefinedCall u.id.text name.text)
  | none, none => .ok ()

end SerializerUnit

end JsonBinding
