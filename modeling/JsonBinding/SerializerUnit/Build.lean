import JsonBinding.Program.Build
import JsonBinding.SerializerUnit.Basic

/-!
# Building units

A unit is built for a root type that is supported (`Schema.unit`). A root class that the index does
not know is a fault; any other type without support has no unit.
-/

namespace JsonBinding.Schema

variable (s : Schema)

/-- The class that a root type names when the index should know it and does not. -/
def missingRoot? : TypeRef → Option ClassName
  | .cls name => if !name.isPlatform && (s.index.class? name).isNone then some name else none
  | .prim _ | .array _ | .app _ _ | .var _ | .wildcard => none

/-- A unit whose support level agrees with what its program leaves to the generic writer. -/
def sealed (u : SerializerUnit) : Except Fault SerializerUnit :=
  let leaves := u.program.unhandledCount
  if decide (0 < leaves) = u.support.needsReflection then .ok u
  else .error (.leafCount u.id.text leaves u.support.name)

/-- The unit for a root type, with what is remembered afterwards. -/
def unit (root : TypeRef) (id : UnitId) (memo : Memo) :
    Except Fault (Option SerializerUnit) × Memo :=
  match s.missingRoot? root with
  | some name => (.error (.classNotFound name.text), memo)
  | none =>
    let (r, memo) := s.resolve root memo
    if r.support.isSupported then
      match r.variant? with
      | none => (.error (.mismatch "root" root.text), memo)
      | some v =>
        let (built, st) := (s.program v root).run.run { memo }
        let unit := do sealed ⟨id, root, r.support.level, ← built⟩
        (unit.map some, st.memo)
    else (.ok none, memo)

end JsonBinding.Schema
