/-!
# Class names

A class name is dotted (`com.acme.Outer$Inner`); a dollar sign stands before the name of a nested
class.
-/

namespace JsonBinding

/-- The qualified name of a class. -/
structure ClassName where
  text : String
  deriving DecidableEq, Inhabited

namespace ClassName

instance : ToString ClassName := ⟨ClassName.text⟩

instance : Ord ClassName := ⟨fun a b => compare a.text b.text⟩

/-- Whether a character separates the parts of a class name. -/
def isSeparator (c : Char) : Bool := c = '.' || c = '$'

/-- The last part of the name. -/
def simpleName (n : ClassName) : String :=
  .ofList (n.text.toList.reverse.takeWhile (!isSeparator ·)).reverse

/-- What stands in front of the last dot; none without a dot. -/
def package? (n : ClassName) : Option String :=
  match n.text.toList.reverse.dropWhile (· ≠ '.') with
  | _ :: before => some (.ofList before.reverse)
  | [] => none

/-- Whether the class belongs to the platform. -/
def isPlatform (n : ClassName) : Bool := n.text.startsWith "java." || n.text.startsWith "javax."

/-- A text with an underscore for each separator. -/
def mangle (s : String) : String := .ofList (s.toList.map fun c => if isSeparator c then '_' else c)

/-- The name as an identifier. -/
def mangled (n : ClassName) : String := mangle n.text

end ClassName

end JsonBinding
