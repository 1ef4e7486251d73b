import JsonBinding.Host
import JsonBinding.Schema
import JsonBinding.Writing

/-!
# The generic writer

The generic writer writes any value by its declared type at the time of writing (`Schema.reflect`).
An instance is written as one of its declared class when the index describes that class, else as one
of the class that it names, else by its JSON shape alone (`Schema.plain`).
-/

namespace JsonBinding

/-- How the index describes the instances of a class. -/
inductive Description where
  | enum
  | instance (i : Inspection)

/-- The form of a primitive or boxed type. -/
def TypeRef.scalarForm : TypeRef → ScalarForm
  | .prim .boolean => .boolean
  | .prim .char => .text
  | .cls n =>
    if n.text = Platform.boxedBoolean then .boolean
    else if n.text = Platform.boxedCharacter then .text
    else .number
  | _ => .number

namespace Schema

variable (s : Schema)

/-! ## Values of unknown type -/

mutual

/-- A value of unknown type as it is written: optionals as their content, the members of an object
under the keys that their names ask for and in the order of the settings, without the one that names
the class, and without null unless the settings ask for it. -/
def plain : Json → Json
  | .null => .null
  | .bool b => .bool b
  | .num n => .num n
  | .str t => .str t
  | .arr items => .arr (plainItems items)
  | .obj members =>
    match plainContent? members with
    | some content => content
    | none =>
      let named := (plainMembers members).mergeSort fun a b => a.1 ≤ b.1
      .obj (if s.settings.keyOrder.descends then named.reverse else named)

/-- Values of unknown type as they are written. -/
def plainItems : List Json → List Json
  | [] => []
  | v :: rest => plain v :: plainItems rest

/-- The content of an optional as it is written. -/
def plainContent? : Members → Option Json
  | [] => none
  | (k, v) :: rest => if k = Host.optionalMarker then some (plain v) else plainContent? rest

/-- The members of an object as they are written, in the order of the object. -/
def plainMembers : Members → Members
  | [] => []
  | (k, v) :: rest =>
    if k = Host.typeMarker || (v.isNull && !s.settings.writeNulls) then plainMembers rest
    else (Bean.memberKey k, plain v) :: plainMembers rest

end

/-- Writes a value of unknown type. -/
def writePlain (v : Json) : Writing Unit := .emitAll (s.plain v).events

/-! ## Values of declared type -/

/-- How the index describes a class, which is inspected for it. -/
def describe (name : ClassName) : Writing (Option Description) := do
  match s.index.class? name with
  | none => pure none
  | some c =>
    if c.kind = .enum then pure (some .enum)
    else
      Writing.inspect name
      let i := s.index.inspect c
      pure (if i.isPossible then some (.instance i) else none)

/-- How an instance of a declared class is described: by that class, or by the class that the
instance names. -/
def describeInstance (v : Json) (name : ClassName) : Writing (Option Description) := do
  match ← s.describe name with
  | some d => pure (some d)
  | none =>
    match Host.class? v with
    | some actual => if actual = name.text then pure none else s.describe ⟨actual⟩
    | none => pure none

/-- Whether a property has nothing to write: it is null, or an optional without content. -/
def isAbsent (t : TypeRef) (v : Json) : Except Fault Bool :=
  if v.isNull then .ok true
  else if t.kind = .optional then (Host.content v).map (·.isNone)
  else .ok false

/-- Writes a value of a declared type, under the annotations of the property that holds it. -/
def reflect (v : Json) (t : TypeRef) (annotations? : Option AnnotationSet) : Writing Unit := do
  if v.isNull then
    if t.isPrimitive then Writing.fail (.shape s!"a `{t}` value" v) else Writing.emit .null
  else
    match t.kind with
    | .primitive | .boxed => Writing.emitOk (Host.scalar v t.scalarForm)
    | .optional =>
      match _h : Host.content v with
      | .error e => Writing.fail e
      | .ok none => Writing.emit .null
      | .ok (some c) =>
        match t.element? with
        | some u => reflect c u annotations?
        | none => s.writePlain c
    | .array | .collection =>
      Writing.emit .startArray
      match _h : Host.elements v with
      | .error e => Writing.fail e
      | .ok items =>
        Writing.each items fun item _hi =>
          match t.element? with
          | some u => reflect item u annotations?
          | none => s.writePlain item
        Writing.emit .endArray
    | .map =>
      Writing.emit .startObject
      match _h : Host.entries v with
      | .error e => Writing.fail e
      | .ok members =>
        Writing.each members fun m _hm => do
          Writing.emit (.key m.1)
          match t.value? with
          | some u => reflect m.2 u annotations?
          | none => s.writePlain m.2
        Writing.emit .endObject
    | .plainClass =>
      match t with
      | .cls name =>
        if name.text ∈ Platform.strings then Writing.emitOk (Host.scalar v .text)
        else if name.text ∈ Platform.dates then do
          let format ← Writing.ofExcept (s.dateFormat annotations?)
          Writing.emitOk (Host.date v format)
        else
          match ← s.describeInstance v name with
          | none => s.writePlain v
          | some .enum => Writing.emitOk (Host.scalar v .enumConstant)
          | some (.instance i) => do
            if let some concrete := i.concrete? then
              discard (Writing.ofExcept (Host.cast v concrete))
            Writing.emit .startObject
            Writing.each (s.properties i) fun p _ =>
              match _h : Host.property v p.accessor with
              | .error e => Writing.fail e
              | .ok w => do
                let absent ← Writing.ofExcept (isAbsent p.type w)
                if absent && !p.type.isPrimitive then
                  if p.nillable then
                    Writing.emit (.key p.key)
                    Writing.emit .null
                else
                  Writing.emit (.key p.key)
                  reflect w p.type (some p.annotations)
            Writing.emit .endObject
      | _ => s.writePlain v
    | .generic | .unresolved => s.writePlain v
termination_by v.size
decreasing_by
  · exact Host.size_of_content _h
  · exact Host.size_of_elements _h _hi
  · exact Host.size_of_entries _h _hm
  · exact Host.size_of_property _h

end Schema

end JsonBinding
