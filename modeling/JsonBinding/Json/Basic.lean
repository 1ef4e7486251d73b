import JsonBinding.Decimal.Shortest

/-!
# JSON values

Values keep the order of their members. A member is looked up by its first occurrence, and putting
a member under a key that is there already keeps its place (`putMember`).
-/

namespace JsonBinding

/-- A JSON number: an integer, or a binary floating-point number. -/
inductive Number where
  | int (n : Int)
  | float (x : Binary64)
  deriving DecidableEq

/-- The text of a number. -/
def Number.text : Number → String
  | .int n => toString n
  | .float x => x.text

/-- A JSON value. -/
inductive Json where
  | null
  | bool (b : Bool)
  | num (n : Number)
  | str (s : String)
  | arr (items : List Json)
  | obj (members : List (String × Json))
  deriving Inhabited

/-- The members of an object in order. -/
abbrev Members := List (String × Json)

namespace Json

/-- The member under a key. -/
def lookup (members : Members) (key : String) : Option Json :=
  (members.find? (·.1 == key)).map (·.2)

/-- The member of an object under a key; other values have none. -/
def member? (key : String) : Json → Option Json
  | .obj members => lookup members key
  | _ => none

/-- The members with `value` under `key`: in place when the key is there, else at the end. -/
def putMember (members : Members) (key : String) (value : Json) : Members :=
  if members.any (·.1 == key) then members.map fun m => if m.1 == key then (key, value) else m
  else members ++ [(key, value)]

/-- Whether the value is null. -/
def isNull : Json → Bool
  | .null => true
  | _ => false

/-- The text of a string value. -/
def string? : Json → Option String
  | .str s => some s
  | _ => none

/-- The truth value of a Boolean value. -/
def bool? : Json → Option Bool
  | .bool b => some b
  | _ => none

theorem member?_obj (key : String) (members : Members) :
    (Json.obj members).member? key = lookup members key := rfl

theorem lookup_cons (m : String × Json) (members : Members) (key : String) :
    lookup (m :: members) key = if m.1 == key then some m.2 else lookup members key := by
  simp only [lookup, List.find?_cons]
  cases m.1 == key <;> rfl

theorem mem_of_lookup {members : Members} {key : String} {value : Json}
    (h : lookup members key = some value) : (key, value) ∈ members := by
  induction members with
  | nil => cases h
  | cons m members ih =>
    rw [lookup_cons] at h
    split at h
    · rename_i hk
      cases h
      rw [← beq_iff_eq.mp hk]
      exact List.mem_cons_self
    · exact List.mem_cons_of_mem _ (ih h)

end Json

end JsonBinding
