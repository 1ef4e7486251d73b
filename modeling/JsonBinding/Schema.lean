import JsonBinding.Property

/-!
# Schemas

A schema is an index together with the settings under which its classes are written.
-/

namespace JsonBinding

/-- An index and the settings for it. -/
structure Schema where
  index : Index := {}
  settings : Settings := {}

namespace Schema

/-- The properties of an inspected class as they are written. -/
def properties (s : Schema) (i : Inspection) : List Property := i.properties s.settings

/-- Whether a class is a known enum. -/
def isEnum (s : Schema) (name : ClassName) : Bool := (s.index.class? name).any (·.kind = .enum)

/-- Whether a type without a written form of its own may be left to the generic writer: a class, or
an array whose innermost component names no type variable, as far as the settings allow it. -/
def isDeferrable (s : Schema) : TypeRef → Bool
  | .cls _ => s.settings.deferral.classes
  | .array c => s.settings.deferral.arrays && !c.innermost.isOpen
  | .prim _ | .app _ _ | .var _ | .wildcard => false

/-- The date format under the annotations of a property, if there is one. -/
def dateFormat (s : Schema) (annotations? : Option AnnotationSet) : Except Fault DateFormat :=
  match annotations? with
  | some annotations => annotations.dateFormat s.settings.dateFormat
  | none => .ok s.settings.dateFormat

end Schema

end JsonBinding
