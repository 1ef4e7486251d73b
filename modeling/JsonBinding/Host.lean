import JsonBinding.DateFormat
import JsonBinding.Json.Event
import JsonBinding.Json.Size
import JsonBinding.Program.Basic
import JsonBinding.Property

/-!
# Host values

Host values are JSON values. An instance of a class is an object with a member for every getter and
field, and perhaps one that names its class; a member that is missing is null. An optional is an
object with one member for its content, which is null when there is none.
-/

namespace JsonBinding.Host

/-- The member that names the class of an instance. -/
abbrev typeMarker : String := "@type"

/-- The member that holds the content of an optional. -/
abbrev optionalMarker : String := "@optional"

/-! ## Reading -/

/-- A member of an instance. -/
def member (expected : String) (v : Json) (name : String) : Except Fault Json :=
  match v with
  | .obj members => .ok ((Json.lookup members name).getD .null)
  | _ => .error (.shape expected v)

/-- What a getter returns. -/
def invoke (v : Json) (method : String) : Except Fault Json :=
  member "an instance with getters" v method

/-- What a field holds. -/
def read (v : Json) (name : String) : Except Fault Json := member "an instance with fields" v name

/-- The class that an instance names. -/
def class? (v : Json) : Option String := (v.member? typeMarker).bind Json.string?

/-- The instance as one of a class, which it is unless it names another class. -/
def cast (v : Json) (name : ClassName) : Except Fault Json :=
  match class? v with
  | some actual => if actual = name.text then .ok v else .error (.wrongClass actual name.text)
  | none => .ok v

/-- Whether the value is an optional. -/
def isOptional (v : Json) : Bool := (v.member? optionalMarker).isSome

/-- The content of an optional. -/
def content (v : Json) : Except Fault (Option Json) :=
  match v.member? optionalMarker with
  | some .null => .ok none
  | some c => .ok (some c)
  | none => .error (.shape "an optional" v)

/-- The elements of a collection. -/
def elements (v : Json) : Except Fault (List Json) :=
  match v with
  | .arr items => .ok items
  | _ => .error (.shape "a collection" v)

/-- The entries of a map. -/
def entries (v : Json) : Except Fault Members :=
  match v with
  | .obj members => .ok members
  | _ => .error (.shape "a map" v)

/-- The value of a property of an instance. -/
def property (v : Json) : Accessor → Except Fault Json
  | .getter method => invoke v method
  | .field name => read v name

/-! ## Writing -/

/-- What is expected of a scalar. -/
def expectedScalar : ScalarForm → String
  | .boolean => "a boolean"
  | .number => "a number"
  | .text | .enumConstant => "a string"

/-- The event that writes a scalar. -/
def scalar (v : Json) (form : ScalarForm) : Except Fault Json.Event :=
  match form, v with
  | .boolean, .bool b => .ok (.bool b)
  | .number, .num n => .ok (.number n)
  | .text, .str s => .ok (.string s)
  | .enumConstant, .str s => .ok (.string s)
  | form, v => .error (.shape (expectedScalar form) v)

/-- The event that writes a date. -/
def date (v : Json) (format : DateFormat) : Except Fault Json.Event :=
  match v with
  | .str s => (format.apply s).map .string
  | _ => .error (.shape "a date string" v)

/-! ## Sizes -/

theorem size_of_member {expected name : String} {v w : Json} (h : member expected v name = .ok w) :
    w.size < v.size := by
  cases v with
  | obj members => cases h; exact Json.size_lookup_lt members name
  | _ => cases h

theorem size_of_property {v w : Json} {a : Accessor} (h : property v a = .ok w) :
    w.size < v.size := by
  cases a <;> exact size_of_member h

theorem size_of_content {v w : Json} (h : content v = .ok (some w)) : w.size < v.size := by
  unfold content at h
  split at h
  · cases h
  · rename_i c hc
    cases h
    cases v with
    | obj members => exact Json.size_member_lt (m := (optionalMarker, w)) (Json.mem_of_lookup hc)
    | _ => cases hc
  · cases h

theorem size_of_elements {v w : Json} {items : List Json} (h : elements v = .ok items)
    (hw : w ∈ items) : w.size < v.size := by
  cases v with
  | arr => cases h; exact Json.size_item_lt hw
  | _ => cases h

theorem size_of_entries {v : Json} {members : Members} {m : String × Json}
    (h : entries v = .ok members) (hm : m ∈ members) : m.2.size < v.size := by
  cases v with
  | obj => cases h; exact Json.size_member_lt hm
  | _ => cases h

theorem cast_eq_ok {v w : Json} {name : ClassName} (h : cast v name = .ok w) : w = v := by
  unfold cast at h
  split at h
  · split at h <;> cases h
    rfl
  · cases h; rfl

end JsonBinding.Host
