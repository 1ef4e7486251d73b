import JsonBinding.Index.Basic
import JsonBinding.TypeRef.Signature

/-!
# Index documents

An index is read from a JSON document (`Index.ofText`, `Index.ofJson`). In the members of a class a
class name that is one of its type parameters denotes the type variable. A class that is declared
twice is a fault.
-/

namespace JsonBinding

open Json (Decoder Presence)
open Json.Decoder

/-- A type, written as a signature. -/
def TypeRef.decoder : Decoder TypeRef := textWith fun s => (TypeRef.ofText s).toOption

/-- A class name. -/
def ClassName.decoder : Decoder ClassName := textWith fun s => some ⟨s⟩

/-- A kind of class. -/
def ClassKind.decoder : Decoder ClassKind :=
  choice ([.cls, .interface, .enum].map fun k => (k.name, k))

/-- A visibility. -/
def Visibility.decoder : Decoder Visibility :=
  choice ([.anywhere, .subclasses, .package, .here].map fun v => (v.name, v))

/-- A method. -/
def Method.decoder : Decoder Method := fun levels d =>
  match record [("name", .required), ("return_type", .optional), ("parameters", .optional),
      ("visibility", .optional), ("is_static", .optional), ("annotations", .optional)]
      false levels d with
  | some (n, [name, result, parameters, visibility, isStatic, annotations]) => do
    pure {
      name := ← field n text none name
      result := ← field n TypeRef.decoder (some (.prim .void)) result
      parameters := ← field n (list TypeRef.decoder) (some []) parameters
      visibility := ← field n Visibility.decoder (some .anywhere) visibility
      isStatic := ← field n bool (some false) isStatic
      annotations := ← field n (list AnnotationUse.decoder) (some []) annotations }
  | _ => none

/-- A field. -/
def Field.decoder : Decoder Field := fun levels d =>
  match record [("name", .required), ("type", .required), ("visibility", .optional),
      ("is_static", .optional), ("is_transient", .optional), ("annotations", .optional)]
      false levels d with
  | some (n, [name, type, visibility, isStatic, isTransient, annotations]) => do
    pure {
      name := ← field n text none name
      type := ← field n TypeRef.decoder none type
      visibility := ← field n Visibility.decoder (some .here) visibility
      isStatic := ← field n bool (some false) isStatic
      isTransient := ← field n bool (some false) isTransient
      annotations := ← field n (list AnnotationUse.decoder) (some []) annotations }
  | _ => none

/-- A class. -/
def ClassInfo.decoder : Decoder ClassInfo := fun levels d =>
  match record [("name", .required), ("kind", .optional), ("is_abstract", .optional),
      ("superclass", .optional), ("interfaces", .optional), ("type_parameters", .optional),
      ("annotations", .optional), ("methods", .optional), ("fields", .optional)]
      false levels d with
  | some (n, [name, kind, isAbstract, superclass, interfaces, typeParameters, annotations, methods,
      fields]) => do
    pure {
      name := ← field n ClassName.decoder none name
      kind := ← field n ClassKind.decoder (some .cls) kind
      isAbstract := ← field n bool (some false) isAbstract
      superclass? := ← field n (nullable ClassName.decoder) (some none) superclass
      interfaces := ← field n (list ClassName.decoder) (some []) interfaces
      typeParameters := ← field n (list text) (some []) typeParameters
      annotations := ← field n (list AnnotationUse.decoder) (some []) annotations
      methods := ← field n (list Method.decoder) (some []) methods
      fields := ← field n (list Field.decoder) (some []) fields }
  | _ => none

/-- A package. -/
def PackageInfo.decoder : Decoder PackageInfo := fun levels d =>
  match record [("name", .required), ("annotations", .optional)] false levels d with
  | some (n, [name, annotations]) => do
    pure {
      name := ← field n text none name
      annotations := ← field n (list AnnotationUse.decoder) (some []) annotations }
  | _ => none

/-- An endpoint. -/
def Endpoint.decoder : Decoder Endpoint := fun levels d =>
  match record [("name", .optional), ("return_type", .required)] false levels d with
  | some (n, [name, result]) => do
    pure {
      name := ← field n text (some "") name
      result := ← field n TypeRef.decoder none result }
  | _ => none

/-- The types with a handler of their own. -/
def CustomHandlers.decoder : Decoder CustomHandlers := fun levels d =>
  match record [("contract", .optional), ("types", .optional)] false levels d with
  | some (n, [contract, types]) => do
    pure {
      contract := ← field n bool (some false) contract
      types := ← field n (list ClassName.decoder) (some []) types }
  | _ => none

/-- What an index document holds. -/
structure IndexDocument where
  classes : List ClassInfo := []
  packages : List PackageInfo := []
  endpoints : List Endpoint := []
  handlers : CustomHandlers := {}

/-- An index document. -/
def IndexDocument.decoder : Decoder IndexDocument := fun levels d =>
  match record [("classes", .optional), ("packages", .optional), ("endpoints", .optional),
      ("custom_handlers", .optional)] false levels d with
  | some (n, [classes, packages, endpoints, handlers]) => do
    pure {
      classes := ← field n (list ClassInfo.decoder) (some []) classes
      packages := ← field n (list PackageInfo.decoder) (some []) packages
      endpoints := ← field n (list Endpoint.decoder) (some []) endpoints
      handlers := ← field n CustomHandlers.decoder (some {}) handlers }
  | _ => none

/-- The class with the type variables of its members told from class names, and with its name on
its members. -/
def ClassInfo.resolved (c : ClassInfo) : ClassInfo :=
  { c with
    methods := c.methods.map fun m =>
      { m with
        result := m.result.bindParameters c.typeParameters
        parameters := m.parameters.map (·.bindParameters c.typeParameters)
        declaring := c.name }
    fields := c.fields.map fun f =>
      { f with type := f.type.bindParameters c.typeParameters, declaring := c.name } }

/-- The first name that comes twice. -/
def firstRepeated? : (seen names : List ClassName) → Option ClassName
  | _, [] => none
  | seen, n :: rest => if n ∈ seen then some n else firstRepeated? (n :: seen) rest

theorem nodup_of_firstRepeated? {seen names : List ClassName}
    (h : firstRepeated? seen names = none) : names.Nodup ∧ ∀ n ∈ names, n ∉ seen := by
  induction names generalizing seen with
  | nil => exact ⟨List.nodup_nil, fun _ h => nomatch h⟩
  | cons n rest ih =>
    rw [firstRepeated?] at h
    split at h
    · cases h
    · rename_i hn
      obtain ⟨hd, hs⟩ := ih h
      refine ⟨List.nodup_cons.mpr ⟨fun hm => hs n hm List.mem_cons_self, hd⟩, fun m hm => ?_⟩
      rcases List.mem_cons.mp hm with rfl | hm
      · exact hn
      · exact fun hms => hs m hm (List.mem_cons_of_mem _ hms)

namespace Index

/-- The index that a document describes. -/
def ofDocument (doc : IndexDocument) : Except Fault Index :=
  let classes := doc.classes.map ClassInfo.resolved
  match h : firstRepeated? [] (classes.map (·.name)) with
  | some name => .error (.declaredTwice name.text)
  | none => .ok {
      classes
      packages := doc.packages
      endpoints := doc.endpoints
      handlers := doc.handlers
      nodup_names := (nodup_of_firstRepeated? h).1 }

/-- The index that a text describes. -/
def ofText (s : String) : Except Fault Index :=
  match ofText? IndexDocument.decoder s with
  | some doc => ofDocument doc
  | none => .error .malformedIndex

/-- The index that a JSON value describes. -/
def ofJson (v : Json) : Except Fault Index :=
  match ofJson? IndexDocument.decoder v with
  | some doc => ofDocument doc
  | none => .error .malformedIndex

end Index

end JsonBinding
