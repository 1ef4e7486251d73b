import JsonBinding.SerializerUnit.Basic
import JsonBinding.Text.Diagnostic

/-!
# Units as source files

A unit is written as the text of a module (`SerializerUnit.source`): a structure named like the unit
with an entry function, and a function for every class. The text is a sequence of tokens with one
blank between each two of them. A literal escapes what a diagnostic escapes (`Source.literal`).
-/

namespace JsonBinding

namespace Source

/-! ## Tokens -/

/-- The characters of a literal. The null character is written longer in front of an octal digit. -/
def literalChars : List Char → List Char
  | [] => []
  | c :: rest =>
    if c.toNat = 0 then
      (if rest.head?.any fun d => '0' ≤ d ∧ d ≤ '7' then ['\\', 'x', '0', '0'] else ['\\', '0']) ++
        literalChars rest
    else Text.diagnosticChar c ++ literalChars rest

/-- The literal of a text. -/
def literal (s : String) : String := .ofList ('"' :: (literalChars s.toList ++ ['"']))

/-- Tokens in one line. -/
def line (tokens : List String) : String := String.intercalate " " tokens

/-- Tokens in braces. -/
def braced (tokens : List String) : String := line ("\x7b" :: tokens ++ ["\x7d"])

/-- An identifier: a text with an underscore for what cannot stand in one, and in front of a
digit. -/
def identifier (s : String) : String :=
  let cs := s.toList.map fun c => if c.isAlphanum || c = '_' then c else '_'
  .ofList (if cs.head?.all Char.isDigit then '_' :: cs else cs)

/-- The name of the function of a class at a position. -/
def functionName (position : Nat) (name : ClassName) : String :=
  s!"write_{position}_" ++ (identifier name.simpleName).toLower

/-! ## Statements -/

/-- The arguments of a call. -/
def arguments (args : List String) : String := "(" ++ String.intercalate " , " args ++ ")"

/-- A call of a function of the host. -/
def host (function : String) (args : List String) : String :=
  line [":: jsonb_codegen :: runtime :: host ::", function, arguments args, "?"]

/-- A call of the writer. -/
def writer (function : String) (args : List String) : String :=
  line ["ctx . generator () .", function, arguments args, "? ;"]

/-- The tokens of an expression. -/
def expr : Expr → String
  | .root => "value"
  | .var n => Expr.varName n
  | .getter target method => host "invoke_getter" [expr target, literal method]
  | .field target name => host "read_field" [expr target, literal name]
  | .cast target name =>
    host "checked_cast" [expr target,
      line ["& :: jsonb_codegen :: type_descriptor :: ClassName :: from",
        arguments [literal name.text]]]

/-- The tokens of a kind of scalars. -/
def form (f : ScalarForm) : String :=
  ":: jsonb_codegen :: ir :: ScalarKind :: " ++
    match f with
    | .boolean => "Boolean"
    | .number => "Number"
    | .text => "Text"
    | .enumConstant => "EnumConstant"

/-- The tokens of a date format. -/
def dateFormat (f : DateFormat) : String :=
  ":: jsonb_codegen :: config :: DateFormat :: " ++
    match f with
    | .iso => "Iso"
    | .pattern p => line ["Pattern", arguments [literal p ++ " . to_string ()"]]

/-- The name of the function of a class of a program. -/
def callee (p : Program) (name : ClassName) : Except Fault String :=
  match p.functions.findIdx? (·.name = name) with
  | some position => .ok (functionName position name)
  | none => .error (.lowering s!"no function emitted for {name}")

mutual

/-- The tokens of a statement. -/
def stmt (p : Program) : Stmt → Except Fault String
  | .beginObject => .ok (writer "write_start_object" [])
  | .endObject => .ok (writer "write_end_object" [])
  | .beginArray => .ok (writer "write_start_array" [])
  | .endArray => .ok (writer "write_end_array" [])
  | .writeKey key => .ok (writer "write_key" [literal key])
  | .writeDynamicKey e =>
    match e with
    | .var n => .ok (writer "write_key" [Expr.varName n])
    | e => .error (.dynamicKey e.text)
  | .writeNull => .ok (writer "write_null" [])
  | .writeScalar e f => .ok (host "write_scalar" ["ctx . generator ()", expr e, form f] ++ " ;")
  | .writeDate e f =>
    .ok (host "write_date" ["ctx . generator ()", expr e, "& " ++ dateFormat f] ++ " ;")
  | .bind n e => .ok (line ["let", Expr.varName n, "=", expr e, ";"])
  | .ifNotNull e yes no => do
    let present ← block p yes
    if no.isEmpty then pure (line ["if !", expr e, ". is_null ()", braced present])
    else
      let absent ← block p no
      pure (line ["if", expr e, ". is_null ()", braced absent, "else", braced present])
  | .ifPresent e inner yes no => do
    let present ← block p yes
    let absent ← block p no
    pure (line ["if let Some", arguments [Expr.varName inner], "=",
      host "optional_content" [expr e], braced present, "else", braced absent])
  | .forEachElement e n body => do
    let inside ← block p body
    pure (line ["for", Expr.varName n, "in", host "elements" [expr e], braced inside])
  | .forEachEntry e k n body => do
    let inside ← block p body
    pure (line ["for", arguments [Expr.varName k, Expr.varName n], "in",
      host "entries" [expr e], braced inside])
  | .callObject name e => do
    let function ← callee p name
    pure (line [function, arguments [expr e, "ctx"], "? ;"])
  | .writeUnhandled e t =>
    .ok (line ["ctx . write_unhandled_signature", arguments [expr e, literal t.text], "? ;"])

/-- The tokens of the statements of a block. -/
def block (p : Program) : List Stmt → Except Fault (List String)
  | [] => .ok []
  | st :: rest => do
    let first ← stmt p st
    let others ← block p rest
    pure (first :: others)

end

/-! ## Modules -/

/-- A doc comment. -/
def doc (text : String) : String := "# [doc = r\" " ++ text ++ "\"]"

/-- What a function returns that may fail. -/
def outcome : String := "-> :: jsonb_codegen :: error :: Result < () >"

/-- The parameters of a function that writes a value. -/
def parameters (valueType : String) : String :=
  "(value : & " ++ valueType ++
    " , ctx : & mut :: jsonb_codegen :: runtime :: SerializationContext < '_ > ,)"

/-- The type of host values. -/
def hostValue : String := ":: serde_json :: Value"

/-- A function that writes a value by some statements. -/
def function (name : String) (body : List String) : String :=
  line ["fn", name, parameters hostValue, outcome, braced (body ++ ["Ok (())"])]

/-- The function that takes a value of any type. -/
def erasedFunction (id : UnitId) : String :=
  let refusal := s!"unit {id} received a value that is not a host value"
  let fault := line [":: jsonb_codegen :: error :: Error :: Serialization",
    arguments [literal refusal ++ " . to_string ()"]]
  let report := braced [":: error_stack :: Report :: new (" ++ fault ++ " ,)"]
  line ["pub fn serialize_erased", parameters "dyn :: std :: any :: Any", outcome,
    braced [
      line ["let value = value . downcast_ref :: <", hostValue, "> () . ok_or_else (||",
        report ++ ") ? ;"],
      "Self :: serialize (value , ctx)"]]

end Source

/-- A file with its text. -/
structure SourceFile where
  name : String
  text : String
  deriving DecidableEq

open Source in
/-- The source file of a unit. -/
def SerializerUnit.source (u : SerializerUnit) : Except Fault SourceFile := do
  u.check
  let entry ← block u.program u.program.entry
  let functions ← u.program.functions.mapM fun f => do
    let name ← callee u.program f.name
    pure (function name (← block u.program f.body))
  let name := identifier u.id.simpleName
  let root := u.root.text
  let tokens := [
    "# [doc = " ++ literal (" Generated serializer for `" ++ root ++ "`") ++ "]",
    line ["pub struct", name, "; impl", name],
    braced [
      doc "Root type written by this unit",
      line ["pub const ROOT_TYPE : & 'static str =", literal root, ";"],
      doc "Whether some leaf is written reflectively",
      line ["pub const NEEDS_REFLECTION : bool =", toString u.support.needsReflection, ";"],
      doc "Write a non-null value of the root type",
      "pub " ++ function "serialize" entry,
      doc "Type-erased bridge; the value must be a host value",
      erasedFunction u.id]] ++ functions
  pure {
    name := u.id.fileStem ++ ".rs"
    text := "// @generated by jsonb-codegen for " ++ root ++ "\n\n" ++ line tokens ++ "\n" }

end JsonBinding
