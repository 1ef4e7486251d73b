import JsonBinding.Json.Basic

/-!
# JSON events

A value is listed as events: a scalar is one event, a container is the listing of its parts between
its start and its end, with the key of a member in front of its value (`Json.events`).
-/

namespace JsonBinding.Json

/-- An event of a JSON document. -/
inductive Event where
  | startObject
  | endObject
  | startArray
  | endArray
  | key (name : String)
  | null
  | bool (b : Bool)
  | number (n : Number)
  | string (s : String)
  deriving DecidableEq

mutual

/-- The events of a value. -/
def events : Json → List Event
  | .null => [.null]
  | .bool b => [.bool b]
  | .num n => [.number n]
  | .str s => [.string s]
  | .arr items => .startArray :: (itemEvents items ++ [.endArray])
  | .obj members => .startObject :: (memberEvents members ++ [.endObject])

/-- The events of the items of an array. -/
def itemEvents : List Json → List Event
  | [] => []
  | v :: rest => events v ++ itemEvents rest

/-- The events of the members of an object. -/
def memberEvents : Members → List Event
  | [] => []
  | (k, v) :: rest => .key k :: (events v ++ memberEvents rest)

end

end JsonBinding.Json
