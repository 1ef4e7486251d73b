import JsonBinding.Json.Token

/-!
# JSON text read

A draft is the tree of a JSON text as it is written: members may repeat, a number may be out of
range, a string may hold half of a surrogate pair (`Draft.ofText?`). It stands for a value when none
of its numbers and strings is faulty and it is not nested too deep (`Draft.json?`); of a repeated
member the last value counts, in the place of the first.

The tree is built by one pass over the tokens with the open containers as a stack (`Reading`).
-/

namespace JsonBinding.Json

/-- The tree of a JSON text. -/
inductive Draft where
  | null
  | bool (b : Bool)
  | number (n? : Option Number)
  | string (s? : Option String)
  | array (items : List Draft)
  | object (members : List (Option String × Draft))
  deriving Inhabited

/-! ## Reading tokens -/

/-- An open container with what it holds so far, in reverse. -/
inductive Open where
  | array (items : List Draft)
  /-- An object between two members. -/
  | object (members : List (Option String × Draft))
  /-- An object whose last key waits for its value. -/
  | member (members : List (Option String × Draft)) (key : Option String)

/-- What may come next. -/
inductive Slot where
  /-- A value. -/
  | value
  /-- A value, or the end of an array that holds nothing. -/
  | firstItem
  /-- A key. -/
  | key
  /-- A key, or the end of an object that holds nothing. -/
  | firstKey
  /-- The colon behind a key. -/
  | colon
  /-- A comma, or the end of the container; nothing behind the outermost value. -/
  | next

/-- The state of a reading: the open containers, innermost first, the outermost value when it is
complete, and what may come next. -/
structure Reading where
  stack : List Open := []
  root? : Option Draft := none
  slot : Slot := .value

namespace Reading

/-- The state after a complete value. -/
def place (r : Reading) (v : Draft) : Reading :=
  match r.stack with
  | [] => ⟨[], some v, .next⟩
  | .array items :: rest => ⟨.array (v :: items) :: rest, r.root?, .next⟩
  | .member members key :: rest => ⟨.object ((key, v) :: members) :: rest, r.root?, .next⟩
  | .object members :: rest => ⟨.object members :: rest, r.root?, .next⟩

/-- The state after the start of a container. -/
def enter (r : Reading) (c : Open) (slot : Slot) : Reading := { r with stack := c :: r.stack, slot }

/-- The state after the start of a value. -/
def value? (r : Reading) : Token → Option Reading
  | .null => some (r.place .null)
  | .bool b => some (r.place (.bool b))
  | .number n? => some (r.place (.number n?))
  | .string s? => some (r.place (.string s?))
  | .openArray => some (r.enter (.array []) .firstItem)
  | .openObject => some (r.enter (.object []) .firstKey)
  | .closeArray | .closeObject | .colon | .comma => none

/-- The state after the end of a container. -/
def close? (r : Reading) (t : Token) : Option Reading :=
  match t, r.stack with
  | .closeArray, .array items :: rest => some (place { r with stack := rest } (.array items.reverse))
  | .closeObject, .object members :: rest =>
    some (place { r with stack := rest } (.object members.reverse))
  | _, _ => none

/-- The state after a key. -/
def key? (r : Reading) (t : Token) : Option Reading :=
  match t, r.stack with
  | .string s?, .object members :: rest => some ⟨.member members s? :: rest, r.root?, .colon⟩
  | _, _ => none

/-- The state after a comma. -/
def comma? (r : Reading) : Option Reading :=
  match r.stack with
  | .array _ :: _ => some { r with slot := .value }
  | .object _ :: _ => some { r with slot := .key }
  | _ => none

/-- The state after a token, none when the token may not stand here. -/
def step? (r : Reading) (t : Token) : Option Reading :=
  match r.slot, t with
  | .value, t => r.value? t
  | .firstItem, .closeArray => r.close? .closeArray
  | .firstItem, t => r.value? t
  | .firstKey, .closeObject => r.close? .closeObject
  | .firstKey, t => r.key? t
  | .key, t => r.key? t
  | .colon, .colon => some { r with slot := .value }
  | .colon, _ => none
  | .next, .comma => r.comma?
  | .next, t => r.close? t

/-- The tree that is complete when the tokens end. -/
def result? (r : Reading) : Option Draft := if r.stack.isEmpty then r.root? else none

end Reading

namespace Draft

/-- The tree of a text that holds one value and nothing else. -/
def ofText? (s : String) : Option Draft := do
  let ts ← tokens? s.toList
  (← ts.foldlM Reading.step? {}).result?

/-! ## Values -/

/-- How deep containers may be nested in a text. -/
def maxLevels : Nat := 127

mutual

/-- The value of a tree with at most `levels` nested containers. -/
def json? (levels : Nat) : Draft → Option Json
  | .null => some .null
  | .bool b => some (.bool b)
  | .number n? => n?.map .num
  | .string s? => s?.map .str
  | .array items => if levels = 0 then none else (items? (levels - 1) items).map .arr
  | .object members => if levels = 0 then none else (members? (levels - 1) members []).map .obj

/-- The values of trees. -/
def items? (levels : Nat) : List Draft → Option (List Json)
  | [] => some []
  | d :: rest =>
    match json? levels d, items? levels rest with
    | some v, some vs => some (v :: vs)
    | _, _ => none

/-- The members of an object after those read already. -/
def members? (levels : Nat) : List (Option String × Draft) → Members → Option Members
  | [], done => some done
  | (k?, d) :: rest, done =>
    match k?, json? levels d with
    | some k, some v => members? levels rest (putMember done k v)
    | _, _ => none

end

mutual

/-- The tree of a value. -/
def ofJson : Json → Draft
  | .null => .null
  | .bool b => .bool b
  | .num n => .number (some n)
  | .str s => .string (some s)
  | .arr items => .array (ofItems items)
  | .obj members => .object (ofMembers members)

/-- The trees of values. -/
def ofItems : List Json → List Draft
  | [] => []
  | v :: rest => ofJson v :: ofItems rest

/-- The members of the tree of an object. -/
def ofMembers : Members → List (Option String × Draft)
  | [] => []
  | (k, v) :: rest => (some k, ofJson v) :: ofMembers rest

end

mutual

/-- How deep containers are nested. -/
def depth : Draft → Nat
  | .array items => depthItems items + 1
  | .object members => depthMembers members + 1
  | _ => 0

/-- The greatest depth of some trees. -/
def depthItems : List Draft → Nat
  | [] => 0
  | d :: rest => max (depth d) (depthItems rest)

/-- The greatest depth of some members. -/
def depthMembers : List (Option String × Draft) → Nat
  | [] => 0
  | (_, d) :: rest => max (depth d) (depthMembers rest)

end

end Draft

/-- The value of a text. -/
def ofText? (s : String) : Option Json := (Draft.ofText? s).bind (Draft.json? Draft.maxLevels)

end JsonBinding.Json
