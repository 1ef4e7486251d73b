import JsonBinding.Json.Event
import JsonBinding.Json.Printer

/-!
# Writing events

A writer turns events into compact text and refuses an event that may not stand where it comes
(`Writer.write`). A refused event may still leave a trace: the end of a container takes the
innermost container off the stack before the two are compared.
-/

namespace JsonBinding.Json

/-- Why an event is refused. -/
inductive Misuse where
  | incomplete
  | memberWithoutKey
  | secondRoot
  | keyWithoutValue
  | unbalancedEnd
  | secondKey
  | keyOutsideObject
  deriving DecidableEq

/-- The reason in words. -/
def Misuse.reason : Misuse → String
  | .incomplete => "document is incomplete"
  | .memberWithoutKey => "object member without a key"
  | .secondRoot => "more than one root value"
  | .keyWithoutValue => "key without a value"
  | .unbalancedEnd => "unbalanced container end"
  | .secondKey => "two keys in a row"
  | .keyOutsideObject => "key outside of an object"

/-- The kind of an open container. -/
inductive Scope where
  | object
  | array
  deriving DecidableEq

/-- An open container and how many members it holds. -/
structure Frame where
  scope : Scope
  members : Nat
  deriving DecidableEq

/-- The text written, the open containers, innermost first, whether a key waits for its value, and
whether the outermost value has begun. -/
structure Writer where
  text : String := ""
  frames : List Frame := []
  afterKey : Bool := false
  rootWritten : Bool := false
  deriving DecidableEq

namespace Writer

/-- The writer with more text. -/
def put (w : Writer) (s : String) : Writer := { w with text := w.text ++ s }

/-- The comma in front of a member, unless it is the first. -/
def separator (members : Nat) : String := if 0 < members then "," else ""

/-- The writer in front of a value. -/
def beforeValue (w : Writer) : Except Misuse Writer :=
  if w.afterKey then .ok { w with afterKey := false }
  else
    match w.frames with
    | ⟨.array, n⟩ :: rest =>
      .ok { w.put (separator n) with frames := ⟨.array, n + 1⟩ :: rest }
    | ⟨.object, _⟩ :: _ => .error .memberWithoutKey
    | [] => if w.rootWritten then .error .secondRoot else .ok { w with rootWritten := true }

/-- What became of an event: the writer after it, and the reason when it was refused. -/
abbrev Outcome : Type := Writer × Option Misuse

/-- A value whose text is written at once. -/
def scalar (w : Writer) (s : String) : Outcome :=
  match w.beforeValue with
  | .ok w' => (w'.put s, none)
  | .error e => (w, some e)

/-- The start of a container. -/
def start (w : Writer) (scope : Scope) (token : String) : Outcome :=
  match w.beforeValue with
  | .ok w' => ({ w'.put token with frames := ⟨scope, 0⟩ :: w'.frames }, none)
  | .error e => (w, some e)

/-- The end of a container. -/
def close (w : Writer) (scope : Scope) (token : String) : Outcome :=
  if w.afterKey then (w, some .keyWithoutValue)
  else
    match w.frames with
    | [] => (w, some .unbalancedEnd)
    | f :: rest =>
      let w' := { w with frames := rest }
      if f.scope = scope then (w'.put token, none) else (w', some .unbalancedEnd)

/-- The key of a member. -/
def key (w : Writer) (name : String) : Outcome :=
  if w.afterKey then (w, some .secondKey)
  else
    match w.frames with
    | ⟨.object, n⟩ :: rest =>
      ({ w.put (separator n ++ quoted name ++ ":") with
          frames := ⟨.object, n + 1⟩ :: rest, afterKey := true }, none)
    | _ => (w, some .keyOutsideObject)

/-- The writer after an event. -/
def write (w : Writer) : Event → Outcome
  | .startObject => w.start .object "\x7b"
  | .endObject => w.close .object "\x7d"
  | .startArray => w.start .array "["
  | .endArray => w.close .array "]"
  | .key name => w.key name
  | .null => w.scalar "null"
  | .bool b => w.scalar (if b then "true" else "false")
  | .number n => w.scalar n.text
  | .string s => w.scalar (quoted s)

/-- The writer after some events, up to the first one that is refused. -/
def writeAll (w : Writer) : List Event → Outcome
  | [] => (w, none)
  | e :: rest =>
    match w.write e with
    | (w', none) => writeAll w' rest
    | (w', some m) => (w', some m)

/-- The text of the document, refused when a container is open or a key has no value. -/
def finish (w : Writer) : Except Misuse String :=
  if w.frames.isEmpty && !w.afterKey then .ok w.text else .error .incomplete

end Writer

end JsonBinding.Json
