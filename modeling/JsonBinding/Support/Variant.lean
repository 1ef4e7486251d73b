import JsonBinding.Schema
import JsonBinding.Support.Basic

/-!
# Variants

The written forms that a program can give to values (`Variant`). Which one a type may have is seen
from its shape and its name (`Schema.variant?`).
-/

namespace JsonBinding

/-- A written form. -/
inductive Variant where
  | primitive
  | boxed
  | string
  | date
  | optional
  | collection
  | map
  | object
  /-- What is left to the generic writer. -/
  | unhandled
  deriving DecidableEq

/-- The name of a form. -/
def Variant.name : Variant → String
  | .primitive => "primitive"
  | .boxed => "boxed"
  | .string => "string"
  | .date => "date"
  | .optional => "optional"
  | .collection => "collection"
  | .map => "map"
  | .object => "object"
  | .unhandled => "unhandled"

/-- The forms with their names. -/
def Variant.all : List Variant := [
  .primitive, .boxed, .string, .date, .optional, .collection, .map, .object, .unhandled]

namespace Schema

variable (s : Schema)

/-- The form that the shape of a type calls for. -/
def variant? : TypeRef → Option Variant
  | .prim .void => none
  | .prim _ => some .primitive
  | .cls n =>
    if n.text ∈ Platform.boxed then some .boxed
    else if n.text ∈ Platform.strings || s.isEnum n then some .string
    else if n.text ∈ Platform.dates then some .date
    else if n.text ∈ Platform.primitiveOptionals then some .optional
    else if n.isPlatform then none
    else some .object
  | .array _ => some .collection
  | .app raw args =>
    match (TypeRef.app raw args).kind with
    | .collection => some .collection
    | .map => some .map
    | .optional => some .optional
    | _ => none
  | .var _ | .wildcard => none

/-- Why a type without a form has none. -/
def unmatched : TypeRef → Reason
  | .prim .void => .void
  | .cls n => if n.isPlatform then .platformClass n else .genericClass (.cls n)
  | .var n => .unresolved (.var n)
  | .wildcard => .unresolved .wildcard
  | .prim p => .genericClass (.prim p)
  | .array c => .genericClass (.array c)
  | .app raw args => .genericClass (.app raw args)

/-- Whether a type can be the key of an object: strings, boxed primitives and known enums. -/
def isWritableKey : TypeRef → Bool
  | .cls n => n.text ∈ Platform.strings || n.text ∈ Platform.boxed || s.isEnum n
  | .prim _ | .array _ | .app _ _ | .var _ | .wildcard => false

end Schema

end JsonBinding
