import JsonBinding.Program.Basic
import JsonBinding.Support.Resolution

/-!
# Building programs

The statements that write a value are built along its declared type (`Schema.writeNotNull`,
`Schema.write`). A value of a class is written by the function of the class, which is requested on
the way and built afterwards (`Schema.objectFunction`, `Schema.program`), so that classes that refer
to each other give a finite program.
-/

namespace JsonBinding

/-- The state of a build: what is remembered of types, the number of the next local, and the classes
whose functions were requested, in order. -/
structure BuildState where
  memo : Memo := {}
  nextVar : Nat := 0
  requested : List ClassName := []

namespace BuildState

/-- The state with a class requested; a second request changes nothing. -/
def request (st : BuildState) (name : ClassName) : BuildState :=
  if name ∈ st.requested then st else { st with requested := st.requested ++ [name] }

/-- The first class requested that is not among those built, which were requested before it. -/
def next? (st : BuildState) (built : List ClassName) : Option ClassName :=
  (st.requested.drop built.length).find? (· ∉ built)

end BuildState

/-- A step of a build. It leaves its state behind also when it fails. -/
abbrev Build (α : Type) : Type := ExceptT Fault (StateM BuildState) α

/-- A value to be written: how it is read, and its declared type. -/
structure ValueRef where
  expr : Expr
  declared : TypeRef
  /-- The class of the value when a cast has confirmed it. -/
  narrowed? : Option ClassName := none

namespace ValueRef

/-- The value cast to a class. -/
def narrow (v : ValueRef) (name : ClassName) : ValueRef :=
  { v with expr := .cast v.expr name, narrowed? := some name }

/-- The class whose members the value has. -/
def effective? (v : ValueRef) : Option ClassName := v.narrowed?.or v.declared.className?

end ValueRef

/-- A value with what is known where it is written: whether it can be null, and the annotations of
the property that holds it. -/
structure Place where
  value : ValueRef
  notNull : Bool
  annotations? : Option AnnotationSet := none

namespace Place

/-- The place of another value under the same annotations. -/
def hold (c : Place) (value : ValueRef) (notNull : Bool) : Place :=
  { c with value, notNull := notNull || value.declared.isPrimitive }

/-- The place of a property of the value. -/
def property (c : Place) (value : ValueRef) (annotations : AnnotationSet) : Place :=
  { c.hold value false with annotations? := some annotations }

/-- The place of the value of a unit. -/
def root (t : TypeRef) : Place := { value := ⟨.root, t, none⟩, notNull := true }

end Place

/-- The form of a boxed primitive. -/
def TypeRef.boxedForm (t : TypeRef) : ScalarForm :=
  match t.className? with
  | some n =>
    if n.text = Platform.boxedBoolean then .boolean
    else if n.text = Platform.boxedCharacter then .text
    else .number
  | none => .number

/-- The expression that reads a property of a value. -/
def Accessor.read (target : Expr) : Accessor → Expr
  | .getter method => .getter target method
  | .field name => .field target name

namespace Build

/-- A new local. -/
def freshVar : Build Nat := modifyGet fun st => (st.nextVar, { st with nextVar := st.nextVar + 1 })

end Build

namespace Schema

variable (s : Schema)

/-! ## Resolution -/

/-- The form and the support of a type, with what is remembered afterwards. -/
def resolve (t : TypeRef) (memo : Memo) : Resolution × Memo :=
  let found := s.resolveIn [] t memo
  (found.result, found.memo)

/-- The form of a type that is supported. -/
def form? (t : TypeRef) : Build (Option Variant) :=
  modifyGet fun st =>
    let (r, memo) := s.resolve t st.memo
    (if r.support.isSupported then r.variant? else none, { st with memo })

/-- The form of the type of a property: what is not supported may be left to the generic writer. -/
def propertyForm? (t : TypeRef) : Build (Option Variant) := do
  match ← s.form? t with
  | some v => pure (some v)
  | none => pure (if s.isDeferrable t then some .unhandled else none)

/-- The form of a type that must be supported. -/
def form (t : TypeRef) (what : String) : Build Variant := do
  match ← s.form? t with
  | some v => pure v
  | none => throw (.mismatch what t.text)

/-- What is found out about a class. -/
def inspect (name : ClassName) : Build Inspection := do
  let c ← s.index.require name
  modify fun st => { st with memo := st.memo.inspect name }
  pure (s.index.inspect c)

/-! ## Values -/

mutual

/-- The statements that write a value of a form, which is not null. -/
def writeNotNull (v : Variant) (c : Place) : Build (List Stmt) := do
  let t := c.value.declared
  let e := c.value.expr
  match v with
  | .primitive =>
    match t with
    | .prim .boolean => pure [.writeScalar e .boolean]
    | .prim .char => pure [.writeScalar e .text]
    | .prim p =>
      if p.isNumeric then pure [.writeScalar e .number]
      else throw (.mismatch "primitive value" t.text)
    | _ => throw (.mismatch "primitive value" t.text)
  | .boxed => pure [.writeScalar e t.boxedForm]
  | .string =>
    pure [.writeScalar e (if t.className?.any s.isEnum then .enumConstant else .text)]
  | .date => pure [.writeDate e (← s.dateFormat c.annotations?)]
  | .optional =>
    let inner ← Build.freshVar
    pure [.ifPresent e inner (← writePresent inner c) [.writeNull]]
  | .collection =>
    match _h : t.element? with
    | none => throw (.mismatch "element" t.text)
    | some u =>
      let form ← s.form u "collection element"
      let element ← Build.freshVar
      let body ← write form (c.hold ⟨.var element, u, none⟩ false)
      pure [.beginArray, .forEachElement e element body, .endArray]
  | .map =>
    match _h : t.value? with
    | none => throw (.mismatch "map value" t.text)
    | some u =>
      let form ← s.form u "map value"
      let key ← Build.freshVar
      let value ← Build.freshVar
      let body ← write form (c.hold ⟨.var value, u, none⟩ false)
      pure [.beginObject, .forEachEntry e key value (.writeDynamicKey (.var key) :: body),
        .endObject]
  | .object =>
    match t.className? with
    | none => throw (.mismatch "object" t.text)
    | some name =>
      modify (·.request name)
      pure [.callObject name e]
  | .unhandled => pure [.writeUnhandled e t]
termination_by (c.value.declared.weight, 1)
decreasing_by
  · exact .right _ (by omega)
  · exact .left _ _ (TypeRef.weight_element_lt _h)
  · exact .left _ _ (TypeRef.weight_value_lt _h)

/-- The statements that write the content of an optional, which `inner` holds. -/
def writePresent (inner : Nat) (c : Place) : Build (List Stmt) := do
  match _h : c.value.declared.element? with
  | none => throw (.mismatch "element" c.value.declared.text)
  | some u =>
    let form ← s.form u "optional content"
    writeNotNull form (c.hold ⟨.var inner, u, none⟩ true)
termination_by (c.value.declared.weight, 0)
decreasing_by exact .left _ _ (TypeRef.weight_element_lt _h)

/-- The statements that write a value of a form, or null. -/
def write (v : Variant) (c : Place) : Build (List Stmt) := do
  if v = .unhandled || c.notNull then writeNotNull v c
  else if c.value.expr.isName then
    pure [.ifNotNull c.value.expr (← writeNotNull v (c.hold c.value true)) [.writeNull]]
  else
    let n ← Build.freshVar
    let held : ValueRef := { c.value with expr := .var n }
    pure [.bind n c.value.expr,
      .ifNotNull held.expr (← writeNotNull v (c.hold held true)) [.writeNull]]
termination_by (c.value.declared.weight, 2)
decreasing_by all_goals exact .right _ (by omega)

end

/-! ### How the statements for a value are built -/

section Opening

variable {s} {c : Place} {u : TypeRef} {inner : Nat}

theorem writeNotNull_collection (h : c.value.declared.element? = some u) :
    s.writeNotNull .collection c = (do
      let form ← s.form u "collection element"
      let element ← Build.freshVar
      let body ← s.write form (c.hold ⟨.var element, u, none⟩ false)
      pure [.beginArray, .forEachElement c.value.expr element body, .endArray]) := by
  rw [writeNotNull]
  split
  · simp_all
  · simp_all

theorem writeNotNull_element?_none (h : c.value.declared.element? = none) :
    s.writeNotNull .collection c = throw (.mismatch "element" c.value.declared.text) := by
  rw [writeNotNull]
  split
  · rfl
  · simp_all

theorem writeNotNull_map (h : c.value.declared.value? = some u) :
    s.writeNotNull .map c = (do
      let form ← s.form u "map value"
      let key ← Build.freshVar
      let value ← Build.freshVar
      let body ← s.write form (c.hold ⟨.var value, u, none⟩ false)
      pure [.beginObject,
        .forEachEntry c.value.expr key value (.writeDynamicKey (.var key) :: body),
        .endObject]) := by
  rw [writeNotNull]
  split
  · simp_all
  · simp_all

theorem writeNotNull_value?_none (h : c.value.declared.value? = none) :
    s.writeNotNull .map c = throw (.mismatch "map value" c.value.declared.text) := by
  rw [writeNotNull]
  split
  · rfl
  · simp_all

theorem writePresent_element?_none (h : c.value.declared.element? = none) :
    s.writePresent inner c = throw (.mismatch "element" c.value.declared.text) := by
  rw [writePresent]
  split
  · rfl
  · simp_all

theorem writePresent_of_element? (h : c.value.declared.element? = some u) :
    s.writePresent inner c = (do
      let form ← s.form u "optional content"
      s.writeNotNull form (c.hold ⟨.var inner, u, none⟩ true)) := by
  rw [writePresent]
  split
  · simp_all
  · simp_all

end Opening

/-! ## Functions -/

/-- The statements that write a property of a value: a primitive and a nillable property always,
another one only when it is neither null nor an optional without content. -/
def writeProperty (owner : Place) (p : Property) : Build (List Stmt) := do
  match ← s.propertyForm? p.type with
  | none => throw (.mismatch s!"property `{p.key}`" owner.value.declared.text)
  | some v =>
    let read := p.accessor.read owner.value.expr
    if p.type.isPrimitive then
      let body ← s.writeNotNull v (owner.property ⟨read, p.type, none⟩ p.annotations)
      pure (.writeKey p.key :: body)
    else
      let n ← Build.freshVar
      let c := owner.property ⟨.var n, p.type, none⟩ p.annotations
      if p.nillable then
        pure (.bind n read :: .writeKey p.key :: (← s.write v c))
      else
        let c := c.hold c.value true
        let present ←
          if v = .optional then do
            let inner ← Build.freshVar
            let content ← s.writePresent inner c
            pure [.ifPresent (.var n) inner (.writeKey p.key :: content) []]
          else do
            let content ← s.writeNotNull v c
            pure (.writeKey p.key :: content)
        pure [.bind n read, .ifNotNull (.var n) present []]

/-- The function of a class. An interface is read through its implementor after a cast. -/
def objectFunction (name : ClassName) (c : Place) : Build ObjectFunction := do
  let i ← s.inspect name
  if !i.isPossible then throw (.mismatch "object" name.text)
  let whole : ValueRef := ⟨.root, .cls name, none⟩
  let (narrowing, target) ← match i.concrete? with
    | none => pure (([] : List Stmt), whole)
    | some concrete => do
      let n ← Build.freshVar
      let narrowed := whole.narrow concrete
      pure ([Stmt.bind n narrowed.expr], { narrowed with expr := .var n })
  let owner := c.hold target true
  let written ← (s.properties i).mapM fun p => s.writeProperty owner p
  pure ⟨name, narrowing ++ .beginObject :: written.flatten ++ [.endObject]⟩

/-- The functions of the classes requested and of those that they request, but for those built. -/
def functions (c : Place) (built : List ClassName) : Build (List ObjectFunction) := do
  match _h : (← get).next? built with
  | none => pure []
  | some name =>
    match _hc : s.index.class? name with
    | none => throw (.classNotFound name.text)
    | some _ =>
      let f ← s.objectFunction name c
      pure (f :: (← functions c (name :: built)))
termination_by s.index.unmet built
decreasing_by
  refine Index.unmet_cons_lt _hc ?_
  have := List.find?_some _h
  simpa using this

/-- The program for a type of a form. -/
def program (v : Variant) (t : TypeRef) : Build Program := do
  let entry ← s.writeNotNull v (.root t)
  pure ⟨entry, ← s.functions (.root t) []⟩

end Schema

end JsonBinding
