import JsonBinding.Json.Writer
import JsonBinding.Text.Diagnostic

/-!
# Faults

Every way in which reading, building, lowering or writing may fail (`Fault`), the category of a
fault and its wording (`Fault.message`).
-/

namespace JsonBinding

/-- The categories of faults. -/
inductive FaultKind where
  | classNotFound
  | configuration
  | fileOperation
  | internalConsistency
  | invalidSignature
  | lowering
  | serialization
  | typeIndex
  deriving DecidableEq

/-- The name of a category. -/
def FaultKind.name : FaultKind → String
  | .classNotFound => "ClassNotFound"
  | .configuration => "Configuration"
  | .fileOperation => "FileOperation"
  | .internalConsistency => "InternalConsistency"
  | .invalidSignature => "InvalidTypeSignature"
  | .lowering => "Lowering"
  | .serialization => "Serialization"
  | .typeIndex => "TypeIndex"

/-- A fault. -/
inductive Fault where
  | classNotFound (name : String)
  /-- A setting or an argument has no valid value. -/
  | invalidSetting (what details : String)
  | malformedSettings (path : String)
  | fileFailed (operation path reason : String)
  /-- No program could be built for a part that was found to be supported. -/
  | mismatch (what owner : String)
  /-- A unit holds another number of deferred leaves than its support level allows. -/
  | leafCount (unit : String) (leaves : Nat) (level : String)
  | internal (reason : String)
  | invalidSignature (signature reason : String)
  | definedTwice (unit name : String)
  | undefinedCall (unit name : String)
  /-- The key of a map entry is not held by a local. -/
  | dynamicKey (expr : String)
  /-- Calls nest deeper than a unit can need for a value. -/
  | callDepth (unit : String)
  | lowering (reason : String)
  /-- A host value has not the shape that is expected. -/
  | shape (expected : String) (found : Json)
  | wrongClass (actual expected : String)
  | notADate (text : String)
  | dateMismatch (pattern text : String)
  | notHostValue (unit : String)
  | noKey (var : String)
  | unbound (var : String)
  | misuse (m : Json.Misuse)
  | malformedIndex
  | declaredTwice (name : String)
  | typeIndex (reason : String)

namespace Fault

/-- The category of a fault. -/
def kind : Fault → FaultKind
  | .classNotFound _ => .classNotFound
  | .invalidSetting _ _ | .malformedSettings _ => .configuration
  | .fileFailed _ _ _ => .fileOperation
  | .mismatch _ _ | .leafCount _ _ _ | .internal _ => .internalConsistency
  | .invalidSignature _ _ => .invalidSignature
  | .definedTwice _ _ | .undefinedCall _ _ | .dynamicKey _ | .callDepth _ | .lowering _ => .lowering
  | .shape _ _ | .wrongClass _ _ | .notADate _ | .dateMismatch _ _ | .notHostValue _ | .noKey _
  | .unbound _ | .misuse _ => .serialization
  | .malformedIndex | .declaredTwice _ | .typeIndex _ => .typeIndex

/-- What happened, without the category. -/
def detail : Fault → String
  | .classNotFound name => name
  | .invalidSetting what details => s!"Invalid {what}: {details}"
  | .malformedSettings path => s!"Malformed configuration file {path}"
  | .fileFailed operation path reason => s!"Failed to {operation} {path}: {reason}"
  | .mismatch what owner =>
    s!"Could not generate serializer for {what} of type {owner} after support was reported"
  | .leafCount unit leaves level =>
    s!"Unit {unit} has {leaves} reflective leaves but support level {level}"
  | .internal reason => reason
  | .invalidSignature signature reason => s!"`{signature}`: {reason}"
  | .definedTwice unit name => s!"unit {unit} defines {name} twice"
  | .undefinedCall unit name => s!"unit {unit} calls {name} without defining it"
  | .dynamicKey expr => s!"dynamic key `{expr}` is not a map key local"
  | .callDepth unit => s!"unit {unit} calls its functions without end"
  | .lowering reason => reason
  | .shape expected found => s!"expected {expected}, found `{found.text}`"
  | .wrongClass actual expected => s!"cannot cast instance of `{actual}` to `{expected}`"
  | .notADate text => s!"`{text}` is not an ISO date or time"
  | .dateMismatch pattern text => s!"date format `{pattern}` does not apply to `{text}`"
  | .notHostValue unit => s!"unit {unit} received a value that is not a host value"
  | .noKey var => s!"local {var} does not hold a key"
  | .unbound var => s!"local {var} is not bound to a value"
  | .misuse m => s!"malformed JSON event sequence: {m.reason}"
  | .malformedIndex => "Malformed type index document"
  | .declaredTwice name => s!"Class {name} declared more than once"
  | .typeIndex reason => reason

/-- The wording of a fault. -/
def message (f : Fault) : String :=
  match f.kind with
  | .classNotFound => s!"Class not found in type index: {f.detail}"
  | .configuration => s!"Configuration error: {f.detail}"
  | .fileOperation => s!"File operation failed: {f.detail}"
  | .internalConsistency => s!"Internal consistency error: {f.detail}"
  | .invalidSignature => s!"Invalid type signature {f.detail}"
  | .lowering => s!"Backend lowering failed: {f.detail}"
  | .serialization => s!"Serialization failed: {f.detail}"
  | .typeIndex => s!"Type index error: {f.detail}"

/-- The fault as it is shown for diagnosis: its category with what belongs to it. -/
def diagnostic (f : Fault) : String :=
  let shown (s : String) : String := Text.diagnostic s.toList
  match f with
  | .classNotFound name => "ClassNotFound \x7b class_name: " ++ shown name ++ " \x7d"
  | .invalidSignature signature reason =>
    "InvalidTypeSignature \x7b signature: " ++ shown signature ++ ", reason: " ++ shown reason ++
      " \x7d"
  | f => f.kind.name ++ "(" ++ shown f.detail ++ ")"

end Fault

end JsonBinding
