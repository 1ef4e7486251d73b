import JsonBinding.ClassName
import JsonBinding.Fault

/-!
# Writing

A computation that writes sends events to a JSON writer and inspects classes on the way (`Writing`).
It stops at the first fault, be it one of its own or that the writer refuses an event. What it makes
of a new writer is its written form (`Writing.written`).
-/

namespace JsonBinding

/-- A writer, and the classes inspected so far, the last one first. -/
structure Output where
  writer : Json.Writer := {}
  inspected : List ClassName := []

/-- A computation that writes. It leaves its output behind also when it fails. -/
def Writing (α : Type) : Type := Output → Except Fault α × Output

namespace Writing

variable {α β : Type}

instance : Monad Writing where
  pure a := fun o => (.ok a, o)
  bind x f := fun o =>
    match x o with
    | (.ok a, o) => f a o
    | (.error e, o) => (.error e, o)

/-- A computation that fails. -/
def fail (f : Fault) : Writing α := fun o => (.error f, o)

/-- A computation that writes nothing. -/
def ofExcept (x : Except Fault α) : Writing α := fun o => (x, o)

/-- Writes an event. -/
def emit (e : Json.Event) : Writing Unit := fun ⟨w, names⟩ =>
  match w.write e with
  | (w, none) => (.ok (), ⟨w, names⟩)
  | (w, some m) => (.error (.misuse m), ⟨w, names⟩)

/-- Writes some events. -/
def emitAll (es : List Json.Event) : Writing Unit := fun ⟨w, names⟩ =>
  match w.writeAll es with
  | (w, none) => (.ok (), ⟨w, names⟩)
  | (w, some m) => (.error (.misuse m), ⟨w, names⟩)

/-- Writes an event that may not exist. -/
def emitOk (e : Except Fault Json.Event) : Writing Unit := do emit (← ofExcept e)

/-- Inspects a class. -/
def inspect (name : ClassName) : Writing Unit := fun o =>
  (.ok (), { o with inspected := name :: o.inspected })

/-- Does something for every one of some values. -/
def each : (xs : List α) → ((x : α) → x ∈ xs → Writing Unit) → Writing Unit
  | [], _ => pure ()
  | x :: rest, f => do
    f x List.mem_cons_self
    each rest fun y hy => f y (List.mem_cons_of_mem _ hy)

end Writing

/-- What becomes of a computation that writes to a new writer. -/
inductive Written where
  | complete (text : String)
  /-- It fails with some text written. -/
  | broken (fault : Fault) (text : String)
  /-- It ends without fault and without a complete document. -/
  | incomplete (m : Json.Misuse)

/-- The written form of a computation, and the classes that it inspects, the last one first. -/
def Writing.written (x : Writing Unit) : Written × List ClassName :=
  match x {} with
  | (.error f, o) => (.broken f o.writer.text, o.inspected)
  | (.ok (), o) =>
    match o.writer.finish with
    | .ok text => (.complete text, o.inspected)
    | .error m => (.incomplete m, o.inspected)

end JsonBinding
