import JsonBinding.Reflection
import JsonBinding.SerializerUnit.Basic
import JsonBinding.TypeRef.Signature

/-!
# Running programs

A unit runs on a host value and writes it (`Schema.run`). Every function has locals of its own; a
local keeps its value behind the block that binds it.

Calls may nest only so deep (`SerializerUnit.callLimit`). A call of a function on a value that it is
running on already does the same again, so that beyond one level for every function and every part
of the value calls end only when the writer refuses what they write, at the latest when they have
closed every container that was open. For that there are a million levels more.
-/

namespace JsonBinding

/-- What a local holds. -/
inductive Bound where
  | value (v : Json)
  /-- The key of an entry of a map. -/
  | key (name : String)

/-- The locals of a block, the last one bound first. -/
abbrev Locals : Type := List (Nat × Bound)

/-- The value of an expression. -/
def Expr.eval (root : Json) (locals : Locals) : Expr → Except Fault Json
  | .root => .ok root
  | .var n =>
    match locals.lookup n with
    | some (.value v) => .ok v
    | _ => .error (.unbound (varName n))
  | .getter target method => do Host.invoke (← eval root locals target) method
  | .field target name => do Host.read (← eval root locals target) name
  | .cast target name => do Host.cast (← eval root locals target) name

/-- The key that an expression holds. -/
def Expr.evalKey (root : Json) (locals : Locals) : Expr → Except Fault String
  | .var n =>
    match locals.lookup n with
    | some (.key name) => .ok name
    | some (.value (.str name)) => .ok name
    | _ => .error (.noKey (varName n))
  | e => do
    match ← e.eval root locals with
    | .str name => pure name
    | v => throw (.shape "a key" v)

/-- What statements need from outside: to run the function of a class on a value, and to leave a
value of a declared type to the generic writer. -/
structure Surroundings where
  call : ClassName → Json → Writing Unit
  generic : Json → TypeRef → Writing Unit

namespace Stmt

mutual

/-- Runs a statement about `root`; the locals afterwards. -/
def run (around : Surroundings) (root : Json) : Stmt → Locals → Writing Locals
  | .beginObject, ls => do Writing.emit .startObject; pure ls
  | .endObject, ls => do Writing.emit .endObject; pure ls
  | .beginArray, ls => do Writing.emit .startArray; pure ls
  | .endArray, ls => do Writing.emit .endArray; pure ls
  | .writeKey key, ls => do Writing.emit (.key key); pure ls
  | .writeDynamicKey e, ls => do
    let key ← Writing.ofExcept (e.evalKey root ls)
    Writing.emit (.key key)
    pure ls
  | .writeNull, ls => do Writing.emit .null; pure ls
  | .writeScalar e form, ls => do
    let v ← Writing.ofExcept (e.eval root ls)
    Writing.emitOk (Host.scalar v form)
    pure ls
  | .writeDate e format, ls => do
    let v ← Writing.ofExcept (e.eval root ls)
    Writing.emitOk (Host.date v format)
    pure ls
  | .bind n e, ls => do
    let v ← Writing.ofExcept (e.eval root ls)
    pure ((n, .value v) :: ls)
  | .ifNotNull e yes no, ls => do
    let v ← Writing.ofExcept (e.eval root ls)
    if v.isNull then runAll around root no ls else runAll around root yes ls
  | .ifPresent e inner yes no, ls => do
    let v ← Writing.ofExcept (e.eval root ls)
    match ← Writing.ofExcept (Host.content v) with
    | some c => runAll around root yes ((inner, .value c) :: ls)
    | none => runAll around root no ls
  | .forEachElement e n body, ls => do
    let v ← Writing.ofExcept (e.eval root ls)
    let items ← Writing.ofExcept (Host.elements v)
    items.foldlM (fun ls item => runAll around root body ((n, .value item) :: ls)) ls
  | .forEachEntry e k n body, ls => do
    let v ← Writing.ofExcept (e.eval root ls)
    let members ← Writing.ofExcept (Host.entries v)
    members.foldlM
      (fun ls m => runAll around root body ((n, .value m.2) :: (k, .key m.1) :: ls)) ls
  | .callObject name e, ls => do
    let v ← Writing.ofExcept (e.eval root ls)
    around.call name v
    pure ls
  | .writeUnhandled e t, ls => do
    let v ← Writing.ofExcept (e.eval root ls)
    around.generic v t
    pure ls

/-- Runs the statements of a block. -/
def runAll (around : Surroundings) (root : Json) : List Stmt → Locals → Writing Locals
  | [], ls => pure ls
  | st :: rest, ls => do
    let ls ← run around root st ls
    runAll around root rest ls

end

/-- The key of an entry is written from behind the local that holds the value. -/
theorem run_entryKey {around : Surroundings} {root : Json} {ls : Locals} {n : Nat}
    {m : String × Json} :
    run around root (.writeDynamicKey (.var n)) ((n + 1, .value m.2) :: (n, .key m.1) :: ls) =
      (Writing.emit (.key m.1) >>= fun _ =>
        pure ((n + 1, .value m.2) :: (n, .key m.1) :: ls)) := by
  have hkey : (Expr.var n).evalKey root ((n + 1, .value m.2) :: (n, .key m.1) :: ls) =
      .ok m.1 := by
    rw [Expr.evalKey, List.lookup_cons, beq_eq_false_iff_ne.mpr (Nat.ne_of_lt (by omega))]
    simp
  rw [run, hkey]
  rfl

end Stmt

namespace SerializerUnit

/-- How deep calls may nest when the unit runs on a value. -/
def callLimit (u : SerializerUnit) (v : Json) : Nat :=
  u.program.functions.length * (v.size + 2) + 1000000

end SerializerUnit

namespace Schema

variable (s : Schema)

/-- Leaves a value to the generic writer. -/
def writeUnhandled (v : Json) (t : TypeRef) : Writing Unit := s.reflect v t none

/-- Leaves a value of the type with a signature to the generic writer. -/
def writeUnhandledSignature (v : Json) (signature : String) : Writing Unit :=
  match TypeRef.ofText signature with
  | .ok t => s.writeUnhandled v t
  | .error e => .fail (.invalidSignature signature e.message)

/-- Runs the function of a class on a value, with calls at most so deep. -/
def callWithin (u : SerializerUnit) : Nat → ClassName → Json → Writing Unit
  | 0, _, _ => .fail (.callDepth u.id.text)
  | depth + 1, name, v =>
    match u.program.function? name with
    | some f => discard (Stmt.runAll ⟨callWithin u depth, s.writeUnhandled⟩ v f.body [])
    | none => .fail (.undefinedCall u.id.text name.text)

/-- Runs a unit on a value, which must not be null. -/
def run (u : SerializerUnit) (v : Json) : Writing Unit :=
  if v.isNull then .fail (.shape s!"a non-null `{u.root}`" v)
  else
    discard (Stmt.runAll ⟨s.callWithin u (u.callLimit v), s.writeUnhandled⟩ v u.program.entry [])

end Schema

end JsonBinding
