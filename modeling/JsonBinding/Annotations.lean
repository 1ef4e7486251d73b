import JsonBinding.Json.Record

/-!
# Annotations

An annotation has a kind and attribute values (`AnnotationUse`). The annotations that bear on an
element are listed with the place where each was found, the more telling place first
(`AnnotationSet`), and the first one of a kind counts (`AnnotationSet.get?`).
-/

namespace JsonBinding

/-- The kinds of annotations. -/
inductive AnnotationKind where
  | property
  | nillable
  | propertyOrder
  | transient
  | dateFormat
  /-- A kind without meaning here. -/
  | other (name : String)
  deriving DecidableEq

namespace AnnotationKind

/-- The name of a kind. -/
def name : AnnotationKind → String
  | .property => "JsonbProperty"
  | .nillable => "JsonbNillable"
  | .propertyOrder => "JsonbPropertyOrder"
  | .transient => "JsonbTransient"
  | .dateFormat => "JsonbDateFormat"
  | .other name => name

/-- The kinds with a meaning. -/
def known : List AnnotationKind := [.property, .nillable, .propertyOrder, .transient, .dateFormat]

/-- The packages in which a kind with a meaning may be named. -/
def packages : List String := ["", "javax.json.bind.annotation.", "jakarta.json.bind.annotation."]

/-- The kind with a name. -/
def ofName (s : String) : AnnotationKind :=
  (known.find? fun k => packages.any fun p => s == p ++ k.name).getD (.other s)

/-- The kind as it is shown. -/
def text (k : AnnotationKind) : String := "@" ++ k.name

end AnnotationKind

/-- An annotation with its attribute values. -/
structure AnnotationUse where
  kind : AnnotationKind
  values : Members := []

namespace AnnotationUse

/-- The attribute with the main value of an annotation. -/
abbrev valueAttribute : String := "value"

/-- The attribute that says whether a null property is written. -/
abbrev nillableAttribute : String := "nillable"

/-- An attribute. -/
def get? (a : AnnotationUse) (key : String) : Option Json := Json.lookup a.values key

/-- An attribute that is a string. -/
def string? (a : AnnotationUse) (key : String) : Option String :=
  (a.get? key).bind Json.string?

/-- An attribute that is a truth value. -/
def bool? (a : AnnotationUse) (key : String) : Option Bool :=
  (a.get? key).bind Json.bool?

/-- The strings of an attribute that is an array; a string stands for an array of one. -/
def strings? (a : AnnotationUse) (key : String) : Option (List String) :=
  match a.get? key with
  | some (.str s) => some [s]
  | some (.arr items) => some (items.filterMap Json.string?)
  | _ => none

/-- The annotation as a JSON value. -/
def toJson (a : AnnotationUse) : Json :=
  .obj (("name", .str a.kind.name) ::
    if a.values.isEmpty then [] else [("values", .obj a.values)])

open Json.Decoder in
/-- The annotation in a JSON value. -/
def decoder : Json.Decoder AnnotationUse := fun levels d =>
  match record [("name", .required), ("values", .optional)] false levels d with
  | some (levels, [name, values]) => do
    pure {
      kind := .ofName (← field levels text none name)
      values := ← field levels members (some []) values }
  | _ => none

end AnnotationUse

/-- The places where annotations are found. -/
inductive AnnotationSource where
  | method
  | field
  | cls
  | inherited
  | package
  deriving DecidableEq

namespace AnnotationSource

/-- The name of a place. -/
def name : AnnotationSource → String
  | .method => "method"
  | .field => "field"
  | .cls => "class"
  | .inherited => "inherited"
  | .package => "package"

/-- Whether the annotation stands on the member itself. -/
def isMember : AnnotationSource → Bool
  | .method | .field => true
  | .cls | .inherited | .package => false

end AnnotationSource

/-- Annotations with the places where they were found, in order of weight. -/
abbrev AnnotationSet : Type := List (AnnotationSource × AnnotationUse)

namespace AnnotationSet

/-- Annotations found at one place. -/
def found (source : AnnotationSource) (uses : List AnnotationUse) : AnnotationSet :=
  uses.map (source, ·)

/-- The annotations of a kind. -/
def all (s : AnnotationSet) (kind : AnnotationKind) : AnnotationSet := s.filter (·.2.kind = kind)

/-- The annotation of a kind that counts, with its place. -/
def first? (s : AnnotationSet) (kind : AnnotationKind) :
    Option (AnnotationSource × AnnotationUse) := s.find? (·.2.kind = kind)

/-- The annotation of a kind that counts. -/
def get? (s : AnnotationSet) (kind : AnnotationKind) : Option AnnotationUse :=
  (s.first? kind).map (·.2)

end AnnotationSet

end JsonBinding
