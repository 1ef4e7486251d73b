import JsonBinding.Program.Basic

/-!
# Programs in JSON

The JSON values that show expressions, statements and programs.
-/

namespace JsonBinding

/-- A JSON object with one member. -/
def Json.tagged (tag : String) (content : Json) : Json := .obj [(tag, content)]

/-- The number of a local. -/
def Json.ofVar (n : Nat) : Json := .num (.int n)

/-- An expression as a JSON value. -/
def Expr.toJson : Expr → Json
  | .root => .str "root"
  | .var n => .tagged "local" (.ofVar n)
  | .getter target method =>
    .tagged "getter" (.obj [("target", toJson target), ("method", .str method)])
  | .field target name =>
    .tagged "field" (.obj [("target", toJson target), ("name", .str name)])
  | .cast target name =>
    .tagged "cast" (.obj [("target", toJson target), ("class", .str name.text)])

namespace Stmt

mutual

/-- A statement as a JSON value. -/
def toJson : Stmt → Json
  | .beginObject => .str "begin_object"
  | .endObject => .str "end_object"
  | .beginArray => .str "begin_array"
  | .endArray => .str "end_array"
  | .writeKey key => .tagged "write_key" (.str key)
  | .writeDynamicKey e => .tagged "write_dynamic_key" e.toJson
  | .writeNull => .str "write_null"
  | .writeScalar e form =>
    .tagged "write_scalar" (.obj [("value", e.toJson), ("kind", .str form.name)])
  | .writeDate e format =>
    .tagged "write_date" (.obj [("value", e.toJson), ("format", format.toJson)])
  | .bind n e => .tagged "let" (.obj [("local", .ofVar n), ("value", e.toJson)])
  | .ifNotNull e yes no =>
    .tagged "if_not_null" (.obj [("value", e.toJson), ("then", .arr (blockJson yes)),
      ("otherwise", .arr (blockJson no))])
  | .ifPresent e n yes no =>
    .tagged "if_present" (.obj [("optional", e.toJson), ("inner", .ofVar n),
      ("then", .arr (blockJson yes)), ("otherwise", .arr (blockJson no))])
  | .forEachElement e n body =>
    .tagged "for_each_element" (.obj [("iterable", e.toJson), ("element", .ofVar n),
      ("body", .arr (blockJson body))])
  | .forEachEntry e k v body =>
    .tagged "for_each_entry" (.obj [("map", e.toJson), ("key", .ofVar k), ("value", .ofVar v),
      ("body", .arr (blockJson body))])
  | .callObject name e =>
    .tagged "call_object" (.obj [("class", .str name.text), ("value", e.toJson)])
  | .writeUnhandled e t =>
    .tagged "write_unhandled" (.obj [("value", e.toJson), ("declared_type", .str t.text)])

/-- The statements of a block as JSON values. -/
def blockJson : List Stmt → List Json
  | [] => []
  | st :: rest => toJson st :: blockJson rest

end

end Stmt

/-- A function as a JSON value. -/
def ObjectFunction.toJson (f : ObjectFunction) : Json :=
  .obj [("class", .str f.name.text), ("body", .arr (Stmt.blockJson f.body))]

/-- A program as a JSON value. -/
def Program.toJson (p : Program) : Json :=
  .obj [("entry", .arr (Stmt.blockJson p.entry)),
    ("functions", .arr (p.functions.map ObjectFunction.toJson))]

end JsonBinding
