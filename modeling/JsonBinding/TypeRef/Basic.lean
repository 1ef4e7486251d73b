import JsonBinding.ClassName
import JsonBinding.Platform

/-!
# Declared types

A declared type is a primitive, a class, an array, a class with type arguments, a type variable or
a wildcard (`TypeRef`). Its kind says which written form it may have (`TypeRef.kind`).
-/

namespace JsonBinding

/-- A primitive type. -/
inductive Primitive where
  | boolean
  | byte
  | short
  | int
  | long
  | float
  | double
  | char
  | void
  deriving DecidableEq

namespace Primitive

/-- The name of a primitive. -/
def name : Primitive → String
  | .boolean => "boolean"
  | .byte => "byte"
  | .short => "short"
  | .int => "int"
  | .long => "long"
  | .float => "float"
  | .double => "double"
  | .char => "char"
  | .void => "void"

/-- Every primitive. -/
def all : List Primitive := [.boolean, .byte, .short, .int, .long, .float, .double, .char, .void]

/-- The primitive with a name. -/
def ofName? (s : String) : Option Primitive := all.find? (·.name == s)

/-- Whether values are written as numbers. -/
def isNumeric : Primitive → Bool
  | .byte | .short | .int | .long | .float | .double => true
  | .boolean | .char | .void => false

theorem ofName?_name (p : Primitive) : ofName? p.name = some p := by cases p <;> rfl

end Primitive

/-- A declared type. -/
inductive TypeRef where
  | prim (p : Primitive)
  | cls (name : ClassName)
  | array (component : TypeRef)
  | app (raw : ClassName) (args : List TypeRef)
  | var (name : String)
  | wildcard
  deriving Inhabited

/-- The written forms that a type may have. -/
inductive TypeKind where
  | primitive
  | boxed
  | array
  | collection
  | map
  | optional
  | plainClass
  | generic
  | unresolved
  deriving DecidableEq

/-- The name of a kind. -/
def TypeKind.name : TypeKind → String
  | .primitive => "primitive"
  | .boxed => "boxed"
  | .array => "array"
  | .collection => "collection"
  | .map => "map"
  | .optional => "optional"
  | .plainClass => "plain_class"
  | .generic => "generic"
  | .unresolved => "unresolved"

namespace TypeRef

/-! ## Equality -/

mutual

/-- Equality of types is decidable. -/
def decEq : (a b : TypeRef) → Decidable (a = b)
  | .prim p, .prim q => if h : p = q then isTrue (h ▸ rfl) else isFalse fun e => h (by cases e; rfl)
  | .cls m, .cls n => if h : m = n then isTrue (h ▸ rfl) else isFalse fun e => h (by cases e; rfl)
  | .array a, .array b =>
    match decEq a b with
    | isTrue h => isTrue (h ▸ rfl)
    | isFalse h => isFalse fun e => h (by cases e; rfl)
  | .app m as, .app n bs =>
    if h : m = n then
      match decEqList as bs with
      | isTrue h' => isTrue (h ▸ h' ▸ rfl)
      | isFalse h' => isFalse fun e => h' (by cases e; rfl)
    else isFalse fun e => h (by cases e; rfl)
  | .var m, .var n => if h : m = n then isTrue (h ▸ rfl) else isFalse fun e => h (by cases e; rfl)
  | .wildcard, .wildcard => isTrue rfl
  | .prim _, .cls _ | .prim _, .array _ | .prim _, .app _ _ | .prim _, .var _ | .prim _, .wildcard
  | .cls _, .prim _ | .cls _, .array _ | .cls _, .app _ _ | .cls _, .var _ | .cls _, .wildcard
  | .array _, .prim _ | .array _, .cls _ | .array _, .app _ _ | .array _, .var _
  | .array _, .wildcard | .app _ _, .prim _ | .app _ _, .cls _ | .app _ _, .array _
  | .app _ _, .var _ | .app _ _, .wildcard | .var _, .prim _ | .var _, .cls _ | .var _, .array _
  | .var _, .app _ _ | .var _, .wildcard | .wildcard, .prim _ | .wildcard, .cls _
  | .wildcard, .array _ | .wildcard, .app _ _ | .wildcard, .var _ => isFalse fun e => nomatch e

/-- Equality of lists of types is decidable. -/
def decEqList : (as bs : List TypeRef) → Decidable (as = bs)
  | [], [] => isTrue rfl
  | a :: as, b :: bs =>
    match decEq a b with
    | isTrue h =>
      match decEqList as bs with
      | isTrue h' => isTrue (h ▸ h' ▸ rfl)
      | isFalse h' => isFalse fun e => h' (by cases e; rfl)
    | isFalse h => isFalse fun e => h (by cases e; rfl)
  | [], _ :: _ | _ :: _, [] => isFalse fun e => nomatch e

end

instance : DecidableEq TypeRef := decEq

/-! ## Text -/

mutual

/-- The signature of a type. -/
def text : TypeRef → String
  | .prim p => p.name
  | .cls n => n.text
  | .array c => text c ++ "[]"
  | .app raw args => raw.text ++ "<" ++ argsText args ++ ">"
  | .var n => n
  | .wildcard => "?"

/-- The signatures of type arguments. -/
def argsText : List TypeRef → String
  | [] => ""
  | [a] => text a
  | a :: rest => text a ++ ", " ++ argsText rest

end

instance : ToString TypeRef := ⟨text⟩

/-! ## Shape -/

/-- Which written form a type may have. -/
def kind : TypeRef → TypeKind
  | .prim _ => .primitive
  | .array _ => .array
  | .var _ | .wildcard => .unresolved
  | .cls n =>
    if n.text ∈ Platform.boxed then .boxed
    else if n.text ∈ Platform.primitiveOptionals then .optional
    else .plainClass
  | .app raw _ =>
    if raw.text ∈ Platform.collections then .collection
    else if raw.text ∈ Platform.maps then .map
    else if raw.text = Platform.optional then .optional
    else .generic

/-- The class of a type, without arguments. -/
def className? : TypeRef → Option ClassName
  | .cls n | .app n _ => some n
  | .prim _ | .array _ | .var _ | .wildcard => none

/-- The element type of an array, a collection or an optional. -/
def element? (t : TypeRef) : Option TypeRef :=
  match t with
  | .array c => some c
  | .app _ args => if t.kind = .collection ∨ t.kind = .optional then args.head? else none
  | .cls n =>
    if t.kind = .optional then
      some (.prim (if n.text = Platform.optionalInt then .int
        else if n.text = Platform.optionalLong then .long else .double))
    else none
  | .prim _ | .var _ | .wildcard => none

/-- The key type of a map. -/
def key? (t : TypeRef) : Option TypeRef :=
  match t with
  | .app _ args => if t.kind = .map then args[0]? else none
  | _ => none

/-- The value type of a map. -/
def value? (t : TypeRef) : Option TypeRef :=
  match t with
  | .app _ args => if t.kind = .map then args[1]? else none
  | _ => none

/-- The component of an array that is no array itself. -/
def innermost : TypeRef → TypeRef
  | .array c => innermost c
  | t => t

/-- Whether values are never null. -/
def isPrimitive : TypeRef → Bool
  | .prim _ => true
  | _ => false

mutual

/-- Whether a type variable or a wildcard occurs in a type. -/
def isOpen : TypeRef → Bool
  | .var _ | .wildcard => true
  | .array c => isOpen c
  | .app _ args => anyOpen args
  | .prim _ | .cls _ => false

/-- Whether a type variable or a wildcard occurs in some type. -/
def anyOpen : List TypeRef → Bool
  | [] => false
  | a :: rest => isOpen a || anyOpen rest

end

mutual

/-- The type with a variable for each class named like a type parameter. Raw classes stay. -/
def bindParameters (parameters : List String) : TypeRef → TypeRef
  | .cls n => if n.text ∈ parameters then .var n.text else .cls n
  | .array c => .array (bindParameters parameters c)
  | .app raw args => .app raw (bindAll parameters args)
  | .prim p => .prim p
  | .var n => .var n
  | .wildcard => .wildcard

/-- The types with variables for type parameters. -/
def bindAll (parameters : List String) : List TypeRef → List TypeRef
  | [] => []
  | a :: rest => bindParameters parameters a :: bindAll parameters rest

end

/-! ## Weight -/

mutual

/-- A measure that falls from a type to its parts; a class outweighs a primitive. -/
def weight : TypeRef → Nat
  | .prim _ => 0
  | .cls _ | .var _ | .wildcard => 1
  | .array c => weight c + 1
  | .app _ args => weightAll args + 1

/-- The weight of some types. -/
def weightAll : List TypeRef → Nat
  | [] => 0
  | a :: rest => weight a + weightAll rest

end

theorem weight_le_weightAll {t : TypeRef} {ts : List TypeRef} (h : t ∈ ts) :
    t.weight ≤ weightAll ts := by
  induction ts with
  | nil => cases h
  | cons a ts ih =>
    rw [weightAll]
    rcases List.mem_cons.mp h with rfl | h
    · omega
    · have := ih h; omega

theorem weight_element_lt {t e : TypeRef} (h : t.element? = some e) : e.weight < t.weight := by
  cases t with
  | array c => cases h; simp [weight]
  | app raw args =>
    simp only [element?] at h
    split at h
    · have := weight_le_weightAll (List.mem_of_mem_head? h)
      rw [weight]; omega
    · cases h
  | cls n =>
    simp only [element?] at h
    split at h
    · cases h; simp [weight]
    · cases h
  | prim _ | var _ | wildcard => cases h

theorem weight_value_lt {t v : TypeRef} (h : t.value? = some v) : v.weight < t.weight := by
  cases t with
  | app raw args =>
    simp only [value?] at h
    split at h
    · have := weight_le_weightAll (List.mem_of_getElem? h)
      rw [weight]; omega
    · cases h
  | _ => cases h

end TypeRef

end JsonBinding
