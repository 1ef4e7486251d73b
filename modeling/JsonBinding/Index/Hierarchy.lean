import JsonBinding.Index.Basic

/-!
# Hierarchies

The superclasses, the interfaces and the subtypes of a class (`Index.superclasses`,
`Index.allInterfaces`, `Index.implementors`). Hierarchies may have cycles and may name classes that
are not known: a chain of superclasses ends at the first of these, and a walk passes them over.
-/

namespace JsonBinding.Index

/-! ## Superclasses -/

/-- The chain of superclasses that starts at `next?`, up to the first class that is not known or is
among `seen`, and whether it ends at one of `seen`. -/
def ascent (ix : Index) (seen : List ClassName) (next? : Option ClassName) :
    List ClassInfo × Bool :=
  match next? with
  | none => ([], false)
  | some name =>
    if _hn : name ∈ seen then ([], true)
    else
      match _h : ix.class? name with
      | none => ([], false)
      | some c =>
        let (chain, cyclic) := ascent ix (name :: seen) c.superclass?
        (c :: chain, cyclic)
termination_by ix.unmet seen
decreasing_by exact unmet_cons_lt _h _hn

/-- The superclasses of a class, the nearest first. -/
def superclasses (ix : Index) (c : ClassInfo) : List ClassInfo := (ix.ascent [c.name] c.superclass?).1

/-- Whether the superclasses of a class lead back to one that was there before. -/
def isCyclic (ix : Index) (c : ClassInfo) : Bool := (ix.ascent [c.name] c.superclass?).2

/-! ## Walks -/

/-- The classes that a walk meets from the names `pending` on, going from a class to those that
`next` names; names among `seen` are passed over. -/
def walk (ix : Index) (next : ClassInfo → List ClassName) :
    (seen pending : List ClassName) → List ClassInfo
  | _, [] => []
  | seen, name :: rest =>
    if _hn : name ∈ seen then walk ix next seen rest
    else
      match _h : ix.class? name with
      | none => walk ix next seen rest
      | some c => c :: walk ix next (name :: seen) (next c ++ rest)
termination_by seen pending => (ix.unmet seen, pending.length)
decreasing_by
  · exact .right _ (Nat.lt_succ_self _)
  · exact .right _ (Nat.lt_succ_self _)
  · exact .left _ _ (unmet_cons_lt _h _hn)

/-- Classes in the order of their names. -/
def byName (cs : List ClassInfo) : List ClassInfo :=
  cs.mergeSort fun a b => a.name.text ≤ b.name.text

/-- The interfaces of a class and of its superclasses, with all that these extend, by name. -/
def allInterfaces (ix : Index) (c : ClassInfo) : List ClassInfo :=
  byName (ix.walk (·.interfaces) [] ((c :: ix.superclasses c).flatMap (·.interfaces)))

/-- The classes that name a class as a supertype. -/
def subtypes (ix : Index) (name : ClassName) : List ClassName :=
  (ix.classes.filter fun c => name ∈ c.supertypes).map (·.name)

/-- The classes below a class or interface that have instances of their own, by name. -/
def implementors (ix : Index) (name : ClassName) : List ClassInfo :=
  byName ((ix.walk (fun c => ix.subtypes c.name) [] (ix.subtypes name)).filter (·.isConcrete))

end JsonBinding.Index
