import JsonBinding.Inspection

/-!
# Support

How well values of a type can be written by a program that is fixed ahead of time (`Support`): fully,
with some values left to the generic writer, or not at all, and then why (`Reason`). A whole is as
strong as its weakest part (`Support.aggregate`).
-/

namespace JsonBinding

/-- The levels of support, from the weakest on. -/
inductive SupportLevel where
  | unsupported
  | withUnhandled
  | fully
  deriving DecidableEq

namespace SupportLevel

/-- The name of a level. -/
def name : SupportLevel → String
  | .unsupported => "UNSUPPORTED"
  | .withUnhandled => "WITH_UNHANDLED"
  | .fully => "FULLY"

/-- Whether values can be written. -/
def isSupported : SupportLevel → Bool
  | .unsupported => false
  | .withUnhandled | .fully => true

/-- Whether some values are left to the generic writer. -/
def needsReflection : SupportLevel → Bool
  | .withUnhandled => true
  | .unsupported | .fully => false

/-- The place of a level. -/
def rank : SupportLevel → Nat
  | .unsupported => 0
  | .withUnhandled => 1
  | .fully => 2

end SupportLevel

/-- Why values of a type cannot be written. -/
inductive Reason where
  | noVariant
  | unresolved (t : TypeRef)
  | platformClass (name : ClassName)
  | genericClass (t : TypeRef)
  | missingClass (name : ClassName)
  | notPossible (name : ClassName) (impossibility : Impossibility)
  /-- An element, a content or an entry has no support. -/
  | element (container : TypeRef) (reason : Reason)
  | mapKey (map key : TypeRef)
  /-- A property, given by its key, has no support. -/
  | property (owner : ClassName) (key : String) (reason : Reason)
  | void
  deriving DecidableEq

namespace Reason

/-- The innermost type that is at fault. -/
def failingType : Reason → String
  | .unresolved t | .genericClass t => t.text
  | .platformClass name | .missingClass name | .notPossible name _ => name.text
  | .mapKey _ key => key.text
  | .element _ reason | .property _ _ reason => failingType reason
  | .void => "void"
  | .noVariant => "unknown"

/-- The reason in words. -/
def text : Reason → String
  | .unresolved t => s!"type `{t}` is not resolved statically"
  | .platformClass name => s!"platform class `{name}` has no generator"
  | .genericClass t => s!"generic type `{t}` has no generator"
  | .missingClass name => s!"class `{name}` is missing from the type index"
  | .notPossible name impossibility => s!"`{name}` cannot be inspected: {impossibility.text}"
  | .element container reason => s!"`{container}` has an unsupported element: " ++ text reason
  | .mapKey map key => s!"`{map}` has key type `{key}` that cannot be an object key"
  | .property owner key reason => s!"property `{key}` of `{owner}`: " ++ text reason
  | .void => "void has no value"
  | .noVariant => "no generator matches"

end Reason

/-- How well values of a type can be written. -/
inductive Support where
  | fully
  | withUnhandled
  | unsupported (reason : Reason)
  deriving DecidableEq

namespace Support

/-- The level without the reason. -/
def level : Support → SupportLevel
  | .fully => .fully
  | .withUnhandled => .withUnhandled
  | .unsupported _ => .unsupported

/-- Whether values can be written. -/
def isSupported (s : Support) : Bool := s.level.isSupported

/-- Why values cannot be written. -/
def reason? : Support → Option Reason
  | .unsupported reason => some reason
  | .fully | .withUnhandled => none

/-- The weaker of two, the first one when they are on one level. -/
def weaker (a b : Support) : Support := if b.level.rank < a.level.rank then b else a

/-- The parts up to the first one without support; the others do not matter. -/
def demanded : List Support → List Support
  | [] => []
  | s :: rest => if s.isSupported then s :: demanded rest else [s]

/-- The support of a whole with some parts. -/
def aggregate (parts : List Support) : Support := (demanded parts).foldr weaker .fully

end Support

end JsonBinding
