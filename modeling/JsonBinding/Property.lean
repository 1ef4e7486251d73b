import JsonBinding.Inspection
import JsonBinding.Settings

/-!
# Properties

The properties of a class as they are written: under which key, whether null is written, and in
which order (`Inspection.properties`). Keys ascend, or descend when the settings ask for it; the
properties that an annotation of the class lists by name come first, in the order of that list. Of
several properties with one key the last one counts, and getters come before fields.
-/

namespace JsonBinding

/-- How the value of a property is read from its owner. -/
inductive Accessor where
  | getter (method : String)
  | field (name : String)
  deriving DecidableEq

/-- A property as it is written. -/
structure Property where
  /-- The name of the property in its class. -/
  name : String
  /-- The key of the property in the written object. -/
  key : String
  /-- Whether null is written instead of nothing. -/
  nillable : Bool
  type : TypeRef
  accessor : Accessor
  /-- The annotations of the member, then those that bear on its class. -/
  annotations : AnnotationSet

namespace AnnotationSet

/-- The annotations of the kind `property` that stand on the member. -/
def onMember (s : AnnotationSet) : AnnotationSet := (s.all .property).filter (·.1.isMember)

/-- The key that an annotation asks for; an empty one is none. -/
def rename? (s : AnnotationSet) : Option String :=
  (s.onMember.findSome? fun (_, a) => a.string? AnnotationUse.valueAttribute).filter (!·.isEmpty)

/-- Whether null is written: what the member says, else what the class says, else the default. -/
def nillable (s : AnnotationSet) (default : Bool) : Bool :=
  match s.onMember.findSome? fun (_, a) => a.bool? AnnotationUse.nillableAttribute with
  | some explicit => explicit
  | none =>
    match (s.all .nillable).find? (!·.1.isMember) with
    | some (_, a) => (a.bool? AnnotationUse.valueAttribute).getD true
    | none => default

/-- The date format that an annotation with a text asks for, or the default. -/
def dateFormat (s : AnnotationSet) (default : DateFormat) : Except Fault DateFormat :=
  match (s.get? .dateFormat).bind (·.string? AnnotationUse.valueAttribute) with
  | some text => DateFormat.ofText text
  | none => .ok default

/-- The names that a class lists first. -/
def listedNames (s : AnnotationSet) : List String :=
  ((s.get? .propertyOrder).bind (·.strings? AnnotationUse.valueAttribute)).getD []

end AnnotationSet

namespace Property

/-- A property with the key and the null policy that its annotations ask for. -/
def ofAnnotated (settings : Settings) (name : String) (type : TypeRef) (accessor : Accessor)
    (annotations : AnnotationSet) : Property where
  name
  key := annotations.rename?.getD name
  nillable := annotations.nillable settings.writeNulls
  type
  accessor
  annotations

/-- The property of a getter. -/
def ofGetter (settings : Settings) (shared : AnnotationSet) (g : GetterProperty) : Property :=
  ofAnnotated settings g.name g.getter.result (.getter g.getter.name)
    (.found .method g.getter.annotations ++
      (g.field?.elim [] fun f => AnnotationSet.found .field f.annotations) ++ shared)

/-- The property of a field. -/
def ofField (settings : Settings) (shared : AnnotationSet) (f : Field) : Property :=
  ofAnnotated settings f.name f.type (.field f.name) (.found .field f.annotations ++ shared)

/-- Properties by ascending key, with `p` in place of one that has its key. -/
def register (p : Property) : List Property → List Property
  | [] => [p]
  | q :: rest =>
    match compare p.key q.key with
    | .lt => p :: q :: rest
    | .eq => p :: rest
    | .gt => q :: register p rest

/-- Properties with those named in a list first, in the order of the list. -/
def front : (names : List String) → List Property → List Property
  | [], ps => ps
  | n :: names, ps =>
    match ps.find? (·.name == n) with
    | some p => p :: front names (ps.eraseP (·.name == n))
    | none => front names ps

end Property

namespace Inspection

/-- The properties of a class in the order of discovery. -/
def registered (i : Inspection) (settings : Settings) : List Property :=
  i.getters.map (.ofGetter settings i.annotations) ++ i.fields.map (.ofField settings i.annotations)

/-- The properties of a class in the order in which they are written. -/
def properties (i : Inspection) (settings : Settings) : List Property :=
  let sorted := (i.registered settings).foldl (fun ps p => Property.register p ps) []
  let ordered := if settings.keyOrder.descends then sorted.reverse else sorted
  Property.front i.annotations.listedNames ordered

end Inspection

end JsonBinding
