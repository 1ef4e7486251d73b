import JsonBinding.SerializerUnit.Build
import JsonBinding.SerializerUnit.Naming
import JsonBinding.TypeRef.Order

/-!
# Generations

A generation builds a unit for every candidate among the types of a program, except for those with a
handler of their own, and reports in a manifest what became of each candidate
(`Schema.generate`, `Manifest`).
-/

namespace JsonBinding

/-! ## Candidates -/

/-- The types that may get a unit, and which of them have a handler of their own. -/
structure Candidates where
  roots : List TypeRef
  /-- Whether everything has a handler of its own. -/
  contract : Bool := false
  isCustom : TypeRef → Bool := fun _ => false

/-- Whether values of a type that an endpoint returns are instances of a class of the program. -/
def TypeRef.isOwnClass (t : TypeRef) : Bool :=
  match t with
  | .cls name => !name.isPlatform && t.kind = .plainClass
  | .prim _ | .array _ | .app _ _ | .var _ | .wildcard => false

/-- The class whose values an endpoint returns, alone or in a collection. -/
def Endpoint.candidate? (e : Endpoint) : Option TypeRef :=
  if e.result.isOwnClass then some e.result
  else if e.result.kind = .collection then e.result.element?.filter (·.isOwnClass)
  else none

/-- The candidates among the types that endpoints return. -/
def Index.candidates (ix : Index) : Candidates where
  roots := ix.endpoints.filterMap Endpoint.candidate?
  contract := ix.handlers.contract
  isCustom t := t.className?.any (· ∈ ix.handlers.types)

/-! ## Manifests -/

/-- Why a candidate has no unit. -/
structure Exclusion where
  reason : String
  failingType : String
  deriving DecidableEq

/-- What became of the candidates. -/
structure Manifest where
  enabled : Bool := false
  contract : Bool := false
  /-- The units by root type. -/
  generated : List (String × UnitId) := []
  withoutReflection : List String := []
  withReflection : List String := []
  notGenerated : List (String × Exclusion) := []
  skippedCustom : List String := []
  deriving DecidableEq

/-- Entries by ascending key, with an entry put in place of one with its key. -/
def putSorted {α : Type} (key : String) (a : α) : List (String × α) → List (String × α)
  | [] => [(key, a)]
  | e :: rest =>
    match compare key e.1 with
    | .lt => (key, a) :: e :: rest
    | .eq => (key, a) :: rest
    | .gt => e :: putSorted key a rest

namespace Manifest

/-- The manifest with a unit. -/
def addUnit (m : Manifest) (u : SerializerUnit) : Manifest :=
  let name := u.root.text
  let m := { m with generated := putSorted name u.id m.generated }
  if u.support.needsReflection then { m with withReflection := m.withReflection ++ [name] }
  else { m with withoutReflection := m.withoutReflection ++ [name] }

/-- The manifest with a candidate that has no unit. -/
def addExclusion (m : Manifest) (root : TypeRef) (reason? : Option Reason) : Manifest :=
  let e : Exclusion :=
    match reason? with
    | some reason => ⟨reason.text, reason.failingType⟩
    | none => ⟨"not generated", root.text⟩
  { m with notGenerated := putSorted root.text e m.notGenerated }

/-- The manifest as a JSON value. -/
def toJson (m : Manifest) : Json :=
  .obj [
    ("enabled", .bool m.enabled),
    ("contract_handler_present", .bool m.contract),
    ("generated", .obj (m.generated.map fun (name, id) => (name, .str id.text))),
    ("without_reflection", .arr (m.withoutReflection.map .str)),
    ("with_reflection", .arr (m.withReflection.map .str)),
    ("not_generated", .obj (m.notGenerated.map fun (name, e) =>
      (name, .obj [("reason", .str e.reason), ("failing_type", .str e.failingType)]))),
    ("skipped_custom", .arr (m.skippedCustom.map .str))]

end Manifest

/-! ## Generations -/

/-- The units of a generation, by root type, and its manifest. -/
structure Outcome where
  units : List SerializerUnit := []
  manifest : Manifest := {}

/-- Root types with the units that they are to get, and the manifest before they are built. -/
structure Plan where
  roots : List (TypeRef × UnitId)
  manifest : Manifest

namespace Schema

variable (s : Schema)

/-- What is to be built; none when nothing is to be generated at all. -/
def plan? (c : Candidates) : Option Plan :=
  if s.settings.enabled && !c.contract then
    let (custom, roots) := (TypeRef.sortedSet c.roots).partition c.isCustom
    some {
      roots := UnitId.assign s.settings.unitPackage roots
      manifest := { enabled := true, skippedCustom := custom.map TypeRef.text } }
  else none

/-- The outcome when nothing is to be generated. -/
def inactive (c : Candidates) : Outcome where
  manifest := { enabled := s.settings.enabled, contract := s.settings.enabled && c.contract }

/-- What became of a root type. -/
abbrev Attempt : Type := TypeRef × Except Fault (Option SerializerUnit)

/-- Builds units in order, up to the first fault when `eager` does not hold. -/
def buildAll (eager : Bool) : List (TypeRef × UnitId) → Memo → List Attempt × Memo
  | [], memo => ([], memo)
  | (root, id) :: rest, memo =>
    let (built, memo) := s.unit root id memo
    match built, eager with
    | .error e, false => ([(root, .error e)], memo)
    | _, _ =>
      let (others, memo) := buildAll eager rest memo
      ((root, built) :: others, memo)

/-- Enters what became of root types into an outcome. -/
def collect : List (TypeRef × Option SerializerUnit) → Outcome → Memo → Outcome × Memo
  | [], o, memo => (o, memo)
  | (_, some u) :: rest, o, memo =>
    collect rest ⟨o.units ++ [u], o.manifest.addUnit u⟩ memo
  | (root, none) :: rest, o, memo =>
    let (r, memo) := s.resolve root memo
    collect rest { o with manifest := o.manifest.addExclusion root r.support.reason? } memo

/-- Generates the units of candidates, with what is remembered afterwards. The first root type in
order that cannot be built is the fault; those behind it are built all the same when `eager`
holds. -/
def generate (c : Candidates) (eager : Bool) (memo : Memo) : Except Fault Outcome × Memo :=
  match s.plan? c with
  | none => (.ok (s.inactive c), memo)
  | some plan =>
    let (attempts, memo) := s.buildAll eager plan.roots memo
    match attempts.mapM fun (root, built) => built.map (root, ·) with
    | .error e => (.error e, memo)
    | .ok built =>
      let (o, memo) := s.collect built { manifest := plan.manifest } memo
      (.ok o, memo)

end Schema

end JsonBinding
