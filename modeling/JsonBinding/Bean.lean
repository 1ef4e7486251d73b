import JsonBinding.Index.Basic
import JsonBinding.Text.LetterCase

/-!
# Names of properties

A getter is named `get` and a property, or `is` and a property for truth values. The property takes
its name from what stands behind, with its first letter in lower case unless two capitals stand
there (`Bean.property?`). A member of an instance of unknown class is named in the same way from
its name alone (`Bean.memberKey`).
-/

namespace JsonBinding.Bean

/-- The text with its first letter in lower case, unless its first two letters are capitals. -/
def decapitalize : List Char → List Char
  | [] => []
  | [c] => Text.lowerChar c
  | c :: d :: rest =>
    if Text.isUppercase c && Text.isUppercase d then c :: d :: rest
    else Text.lowerChar c ++ d :: rest

/-- What stands behind a word at the start of a text. -/
def behind? (word name : String) : Option (List Char) :=
  if word.toList.isPrefixOf name.toList then some (name.toList.drop word.length) else none

/-- What stands behind the word of a getter in the name of a method. -/
def stem? (m : Method) : Option (List Char) :=
  match if m.result ≠ .prim .void then behind? "get" m.name else none with
  | some stem => some stem
  | none => if m.result = .prim .boolean then behind? "is" m.name else none

/-- The property that a method gets; none when it is no getter. -/
def property? (m : Method) : Option String :=
  if m.visibility = .anywhere && !m.isStatic && m.parameters.isEmpty && m.name != "getClass" then
    match stem? m with
    | some (c :: rest) =>
      if Text.isUppercase c || c = '_' then some (.ofList (decapitalize (c :: rest))) else none
    | _ => none
  else none

/-- The key of a member of an instance of unknown class. -/
def memberKey (name : String) : String :=
  let stem? (word : String) : Option (List Char) :=
    (behind? word name).filter fun stem => stem.head?.any Text.isUppercase
  match (stem? "get").or (stem? "is") with
  | some stem => .ofList (decapitalize stem)
  | none => name

end JsonBinding.Bean
