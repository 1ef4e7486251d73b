import JsonBinding.DateFormat
import JsonBinding.TypeRef.Basic

/-!
# Programs

A program writes a host value: a block of statements for the value itself, and a function for every
class whose instances it meets (`Program`). A value is read by an expression over the value that the
block is about and over locals (`Expr`).
-/

namespace JsonBinding

/-- How a value is read. -/
inductive Expr where
  /-- The value that a block is about. -/
  | root
  | var (n : Nat)
  | getter (target : Expr) (method : String)
  | field (target : Expr) (name : String)
  | cast (target : Expr) (name : ClassName)
  deriving DecidableEq, Inhabited

namespace Expr

/-- The name of a local. -/
def varName (n : Nat) : String := s!"v{n}"

/-- The expression in words of the host. -/
def text : Expr → String
  | .root => "value"
  | .var n => varName n
  | .getter target method => text target ++ "." ++ method ++ "()"
  | .field target name => text target ++ "." ++ name
  | .cast target name => "((" ++ name.text ++ ") " ++ text target ++ ")"

/-- Whether the expression only names a value. -/
def isName : Expr → Bool
  | .root | .var _ => true
  | .getter _ _ | .field _ _ | .cast _ _ => false

end Expr

/-- The kinds of scalars. -/
inductive ScalarForm where
  | boolean
  | number
  | text
  | enumConstant
  deriving DecidableEq

namespace ScalarForm

/-- The name of a kind of scalar. -/
def name : ScalarForm → String
  | .boolean => "boolean"
  | .number => "number"
  | .text => "text"
  | .enumConstant => "enum_constant"

/-- Every kind of scalar. -/
def all : List ScalarForm := [.boolean, .number, .text, .enumConstant]

end ScalarForm

/-- A statement. -/
inductive Stmt where
  | beginObject
  | endObject
  | beginArray
  | endArray
  | writeKey (key : String)
  | writeDynamicKey (key : Expr)
  | writeNull
  | writeScalar (value : Expr) (form : ScalarForm)
  | writeDate (value : Expr) (format : DateFormat)
  | bind (var : Nat) (value : Expr)
  | ifNotNull (value : Expr) (yes no : List Stmt)
  /-- The content of an optional, when there is one, is held by `inner`. -/
  | ifPresent (optional : Expr) (inner : Nat) (yes no : List Stmt)
  | forEachElement (iterable : Expr) (element : Nat) (body : List Stmt)
  | forEachEntry (map : Expr) (key value : Nat) (body : List Stmt)
  /-- Runs the function of a class on a value. -/
  | callObject (name : ClassName) (value : Expr)
  /-- Leaves a value to the generic writer. -/
  | writeUnhandled (value : Expr) (declared : TypeRef)
  deriving Inhabited

namespace Stmt

mutual

/-- The statement and those inside of it, each in front of what it holds. -/
def all : Stmt → List Stmt
  | .ifNotNull e yes no => .ifNotNull e yes no :: (allOf yes ++ allOf no)
  | .ifPresent e n yes no => .ifPresent e n yes no :: (allOf yes ++ allOf no)
  | .forEachElement e n body => .forEachElement e n body :: allOf body
  | .forEachEntry e k v body => .forEachEntry e k v body :: allOf body
  | .beginObject => [.beginObject]
  | .endObject => [.endObject]
  | .beginArray => [.beginArray]
  | .endArray => [.endArray]
  | .writeKey key => [.writeKey key]
  | .writeDynamicKey e => [.writeDynamicKey e]
  | .writeNull => [.writeNull]
  | .writeScalar e form => [.writeScalar e form]
  | .writeDate e format => [.writeDate e format]
  | .bind n e => [.bind n e]
  | .callObject name e => [.callObject name e]
  | .writeUnhandled e t => [.writeUnhandled e t]

/-- The statements of a block and those inside of them. -/
def allOf : List Stmt → List Stmt
  | [] => []
  | st :: rest => all st ++ allOf rest

end

/-- The type of a value that is left to the generic writer. -/
def unhandled? : Stmt → Option TypeRef
  | .writeUnhandled _ t => some t
  | _ => none

/-- The class whose function is run. -/
def callee? : Stmt → Option ClassName
  | .callObject name _ => some name
  | _ => none

/-- The fixed key that is written. -/
def key? : Stmt → Option String
  | .writeKey key => some key
  | _ => none

end Stmt

/-- The function that writes an instance of a class. -/
structure ObjectFunction where
  name : ClassName
  body : List Stmt
  deriving Inhabited

/-- A program. -/
structure Program where
  entry : List Stmt := []
  functions : List ObjectFunction := []
  deriving Inhabited

namespace Program

/-- The function of a class; of several the first one. -/
def function? (p : Program) (name : ClassName) : Option ObjectFunction :=
  p.functions.find? (·.name = name)

/-- Every statement of the program. -/
def statements (p : Program) : List Stmt :=
  Stmt.allOf p.entry ++ p.functions.flatMap fun f => Stmt.allOf f.body

/-- How many values are left to the generic writer. -/
def unhandledCount (p : Program) : Nat := (p.statements.filterMap Stmt.unhandled?).length

/-- The fixed keys that the function of a class writes. -/
def keysOf (p : Program) (name : ClassName) : List String :=
  match p.function? name with
  | some f => (Stmt.allOf f.body).filterMap Stmt.key?
  | none => []

end Program

end JsonBinding
