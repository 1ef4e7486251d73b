import JsonBinding.SerializerUnit.Basic

/-!
# Names of units

Every root type gets a unit name (`UnitId.assign`): what the settings put in front, the simple name of
the type and a common ending. Types that share a simple name take their whole names instead, and
names that still give one file are numbered from 2 on.
-/

namespace JsonBinding

/-- The name of a type without its package. -/
def TypeRef.simpleName (t : TypeRef) : String := t.className?.elim t.text ClassName.simpleName

/-- The whole name of a type as an identifier. -/
def TypeRef.mangledName (t : TypeRef) : String :=
  t.className?.elim
    (.ofList (t.text.toList.map fun c => if c.isAlphanum then c else '_'))
    ClassName.mangled

namespace UnitId

/-- The ending of every unit name. -/
abbrev ending : String := "Serializer"

/-- The names that a base may give, in order of preference. -/
def candidates (front base : String) (count : Nat) : List UnitId :=
  ⟨front ++ base ++ ending⟩ ::
    (List.range count).map fun i => ⟨front ++ base ++ ending ++ toString (i + 2)⟩

/-- The first name of a base whose file is not taken. Of the plain name and as many numbered ones as
files are taken, one is free. -/
def claim (front base : String) (taken : List String) : UnitId :=
  ((candidates front base taken.length).find? fun id => id.fileStem ∉ taken).getD
    ⟨front ++ base ++ ending⟩

/-- The part of a unit name that stands for a root type among others. -/
def base (roots : List TypeRef) (t : TypeRef) : String :=
  if 1 < (roots.map TypeRef.simpleName).count t.simpleName then t.mangledName else t.simpleName

/-- Root types with their unit names, when the files `taken` are taken. -/
def assignFrom (front : String) (roots : List TypeRef) :
    (taken : List String) → List TypeRef → List (TypeRef × UnitId)
  | _, [] => []
  | taken, t :: rest =>
    let id := claim front (base roots t) taken
    (t, id) :: assignFrom front roots (id.fileStem :: taken) rest

/-- Root types with their unit names. -/
def assign (front : String) (roots : List TypeRef) : List (TypeRef × UnitId) :=
  assignFrom front roots [] roots

end UnitId

end JsonBinding
