import JsonBinding.Annotations
import JsonBinding.Fault
import JsonBinding.TypeRef.Basic

/-!
# The type index

What is known of the classes of a program: their members, packages, endpoints and the types with a
handler of their own (`Index`). No two classes of an index share a name.
-/

namespace JsonBinding

/-- What a class is. -/
inductive ClassKind where
  | cls
  | interface
  | enum
  deriving DecidableEq

/-- The name of a kind of class. -/
def ClassKind.name : ClassKind → String
  | .cls => "class"
  | .interface => "interface"
  | .enum => "enum"

/-- From where a member may be used. -/
inductive Visibility where
  | anywhere
  | subclasses
  | package
  | here
  deriving DecidableEq

/-- The name of a visibility. -/
def Visibility.name : Visibility → String
  | .anywhere => "public"
  | .subclasses => "protected"
  | .package => "package"
  | .here => "private"

/-- A method of a class. -/
structure Method where
  name : String
  result : TypeRef := .prim .void
  parameters : List TypeRef := []
  visibility : Visibility := .anywhere
  isStatic : Bool := false
  annotations : List AnnotationUse := []
  declaring : ClassName := ⟨""⟩

/-- A field of a class. -/
structure Field where
  name : String
  type : TypeRef
  visibility : Visibility := .here
  isStatic : Bool := false
  isTransient : Bool := false
  annotations : List AnnotationUse := []
  declaring : ClassName := ⟨""⟩

/-- A class, an interface or an enum with the members that it declares itself. -/
structure ClassInfo where
  name : ClassName
  kind : ClassKind := .cls
  isAbstract : Bool := false
  superclass? : Option ClassName := none
  interfaces : List ClassName := []
  typeParameters : List String := []
  annotations : List AnnotationUse := []
  methods : List Method := []
  fields : List Field := []

namespace ClassInfo

/-- Whether the class has instances of its own. -/
def isConcrete (c : ClassInfo) : Bool := c.kind = .cls && !c.isAbstract

/-- The field with a name. -/
def field? (c : ClassInfo) (name : String) : Option Field := c.fields.find? (·.name == name)

/-- The supertypes that the class names. -/
def supertypes (c : ClassInfo) : List ClassName := c.superclass?.toList ++ c.interfaces

end ClassInfo

/-- A package. -/
structure PackageInfo where
  name : String
  annotations : List AnnotationUse := []

/-- A place where values of a type are written. -/
structure Endpoint where
  name : String := ""
  result : TypeRef

/-- The types with a handler of their own, and whether there is one for everything. -/
structure CustomHandlers where
  contract : Bool := false
  types : List ClassName := []

/-- What is known of a program. -/
structure Index where
  classes : List ClassInfo := []
  packages : List PackageInfo := []
  endpoints : List Endpoint := []
  handlers : CustomHandlers := {}
  nodup_names : (classes.map (·.name)).Nodup := by exact List.nodup_nil

namespace Index

/-- The class with a name. -/
def class? (ix : Index) (name : ClassName) : Option ClassInfo := ix.classes.find? (·.name = name)

/-- The class with a name, which must be known. -/
def require (ix : Index) (name : ClassName) : Except Fault ClassInfo :=
  match ix.class? name with
  | some c => .ok c
  | none => .error (.classNotFound name.text)

/-- The package of a class; of packages with one name the last one counts. -/
def packageOf? (ix : Index) (name : ClassName) : Option PackageInfo :=
  name.package?.bind fun p => ix.packages.reverse.find? (·.name == p)

theorem name_of_class? {ix : Index} {name : ClassName} {c : ClassInfo}
    (h : ix.class? name = some c) : c.name = name := by
  have := List.find?_some h
  simpa using this

theorem mem_of_class? {ix : Index} {name : ClassName} {c : ClassInfo}
    (h : ix.class? name = some c) : c ∈ ix.classes := List.mem_of_find?_eq_some h

/-! ## Classes not met yet -/

/-- How many classes are not among some names. -/
def unmet (ix : Index) (seen : List ClassName) : Nat := ix.classes.countP (·.name ∉ seen)

theorem countP_lt_countP {α : Type} {p q : α → Bool} {xs : List α} {x : α}
    (hpq : ∀ y, p y = true → q y = true) (hx : x ∈ xs) (hp : p x = false) (hq : q x = true) :
    xs.countP p < xs.countP q := by
  induction xs with
  | nil => cases hx
  | cons y rest ih =>
    have hle : rest.countP p ≤ rest.countP q := List.countP_mono_left fun z _ => hpq z
    rw [List.countP_cons, List.countP_cons]
    rcases List.mem_cons.mp hx with rfl | hr
    · simp only [hp, hq, Bool.false_eq_true, if_false, if_true]; omega
    · have := ih hr
      by_cases h1 : p y = true
      · simp only [h1, hpq y h1, if_true]; omega
      · simp only [Bool.not_eq_true] at h1
        simp only [h1, Bool.false_eq_true, if_false]
        split <;> omega

/-- A class that is met for the first time is one class less to meet. -/
theorem unmet_cons_lt {ix : Index} {seen : List ClassName} {name : ClassName} {c : ClassInfo}
    (h : ix.class? name = some c) (hn : name ∉ seen) : ix.unmet (name :: seen) < ix.unmet seen := by
  have hname := name_of_class? h
  refine countP_lt_countP (fun d hd => ?_) (mem_of_class? h) ?_ ?_
  · simp only [decide_eq_true_eq, List.mem_cons, not_or] at hd ⊢
    exact hd.2
  · simp [hname]
  · simpa [hname] using hn

end Index

end JsonBinding
