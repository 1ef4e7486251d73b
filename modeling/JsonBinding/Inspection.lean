import JsonBinding.Bean
import JsonBinding.Index.Hierarchy

/-!
# Inspections

An inspection says whether values of a class can be written from what the index knows of it, and if
so which properties they have (`Index.inspect`). An interface is read through its only implementor.
A property is found at the first getter of its name in the hierarchy, the most derived class first,
or at the first field that may be read; a name that belongs to a getter is no field property, even
when the getter is left out.
-/

namespace JsonBinding

/-- Why a class cannot be written from what the index knows. -/
inductive Impossibility where
  | noImplementor
  | ambiguous (implementors : List ClassName)
  | abstract
  | enum
  | generic (parameters : List String)
  | cyclic
  deriving DecidableEq

namespace Impossibility

/-- The reason in words. -/
def text : Impossibility → String
  | .noImplementor => "interface has no concrete implementor"
  | .ambiguous implementors => s!"interface has {implementors.length} concrete implementors"
  | .abstract => "class is abstract"
  | .enum => "type is an enum"
  | .generic parameters =>
    "class declares type parameters <" ++ String.intercalate ", " parameters ++ ">"
  | .cyclic => "class hierarchy is cyclic"

/-- The reason as a JSON value. -/
def toJson : Impossibility → Json
  | .noImplementor => .obj [("kind", .str "no_concrete_implementor")]
  | .ambiguous implementors => .obj [("kind", .str "ambiguous_implementors"),
    ("implementors", .arr (implementors.map fun n => .str n.text))]
  | .abstract => .obj [("kind", .str "abstract")]
  | .enum => .obj [("kind", .str "enum")]
  | .generic parameters => .obj [("kind", .str "generic"),
    ("type_parameters", .arr (parameters.map .str))]
  | .cyclic => .obj [("kind", .str "cyclic_hierarchy")]

end Impossibility

/-- A property with a getter, and the field behind it when there is one. -/
structure GetterProperty where
  name : String
  getter : Method
  field? : Option Field

/-- What is found out about a class. -/
structure Inspection where
  name : ClassName
  /-- The class that an interface is read through. -/
  concrete? : Option ClassName := none
  impossibility? : Option Impossibility := none
  getters : List GetterProperty := []
  fields : List Field := []
  /-- The annotations that bear on every property. -/
  annotations : AnnotationSet := []

namespace Inspection

/-- Whether values can be written. -/
def isPossible (i : Inspection) : Bool := i.impossibility?.isNone

/-- The class whose members are read. -/
def effective (i : Inspection) : ClassName := i.concrete?.getD i.name

/-! ## Properties -/

/-- Whether something is left out of the written form. -/
def isLeftOut (annotations : List AnnotationUse) : Bool := annotations.any (·.kind = .transient)

/-- The field behind a property. -/
def backingField? (fields : List Field) (name : String) : Option Field :=
  fields.find? fun f => f.name == name && !f.isStatic

/-- The pairs whose name no earlier pair has. -/
def firstOfEachName : List (String × Method) → List (String × Method)
  | [] => []
  | (name, m) :: rest => (name, m) :: (firstOfEachName rest).filter (·.1 ≠ name)

/-- The names that getters claim, in order, and the getter that claims each of them. -/
def claims (methods : List Method) : List (String × Method) :=
  firstOfEachName (methods.filterMap fun m => (Bean.property? m).map (·, m))

/-- The properties with a getter. -/
def getterProperties (methods : List Method) (fields : List Field) : List GetterProperty :=
  (claims methods).filterMap fun (name, m) =>
    let field? := backingField? fields name
    if isLeftOut m.annotations || field?.any (isLeftOut ·.annotations) then none
    else some ⟨name, m, field?⟩

/-- Whether a field is read without a getter. -/
def isReadable (f : Field) : Bool :=
  f.visibility = .anywhere && !f.isStatic && !f.isTransient && !isLeftOut f.annotations

/-- The first readable field of each name that is not claimed. -/
def fieldProperties (fields : List Field) (claimed : List String) : List Field :=
  match fields with
  | [] => []
  | f :: rest =>
    if isReadable f && f.name ∉ claimed then f :: fieldProperties rest (f.name :: claimed)
    else fieldProperties rest claimed

end Inspection

namespace Index

open Inspection

/-- The class whose members are read for a class. -/
def target (ix : Index) (c : ClassInfo) : Except Impossibility ClassInfo := do
  let t ← match c.kind with
    | .enum => throw .enum
    | .interface =>
      match ix.implementors c.name with
      | [] => throw .noImplementor
      | [t] => pure t
      | many => throw (.ambiguous (many.map (·.name)))
    | .cls => if c.isAbstract then throw .abstract else pure c
  if !t.typeParameters.isEmpty then throw (.generic t.typeParameters)
  if ix.isCyclic t then throw .cyclic
  pure t

/-- The annotations that bear on the properties of a class: its own, those of its superclasses, of
its interfaces and of its package. -/
def classAnnotations (ix : Index) (c : ClassInfo) : AnnotationSet :=
  .found .cls c.annotations ++
    (ix.superclasses c ++ ix.allInterfaces c).flatMap
      (fun s => AnnotationSet.found .inherited s.annotations) ++
    (ix.packageOf? c.name).elim [] fun p => AnnotationSet.found .package p.annotations

/-- What is found out about a class. -/
def inspect (ix : Index) (c : ClassInfo) : Inspection :=
  match ix.target c with
  | .error impossibility => { name := c.name, impossibility? := some impossibility }
  | .ok t =>
    let hierarchy := t :: ix.superclasses t
    let methods := hierarchy.flatMap (·.methods)
    let fields := hierarchy.flatMap (·.fields)
    { name := c.name
      concrete? := if t.name = c.name then none else some t.name
      getters := getterProperties methods fields
      fields := fieldProperties fields ((claims methods).map (·.1))
      annotations := ix.classAnnotations t }

/-- What is found out about the class with a name. -/
def inspect? (ix : Index) (name : ClassName) : Option Inspection := (ix.class? name).map ix.inspect

end Index

end JsonBinding
