import JsonBinding.Proofs.Index.Reordering

/-!
# Redeclared members

Which class is read for a class, and what bears on its properties, depends on nothing that its
methods and fields are.

* `Index.Redeclaration`: other methods and fields for each class; `Index.redeclared`.
* `superclasses_redeclared`, `allInterfaces_redeclared`, `implementors_redeclared`: hierarchies are
  the same ones.
* **`target_redeclared`**, **`classAnnotations_redeclared`**: so are the class that is read for a
  class and what bears on it.
-/

namespace JsonBinding.Index

/-- Methods and fields for each class. -/
structure Redeclaration where
  methods : ClassInfo → List Method
  fields : ClassInfo → List Field

/-- A class with other methods and fields. -/
def Redeclaration.apply (r : Redeclaration) (c : ClassInfo) : ClassInfo :=
  { c with methods := r.methods c, fields := r.fields c }

variable {r : Redeclaration} {ix : Index} {c : ClassInfo} {n : ClassName} {cs : List ClassInfo}

theorem map_name_apply : (cs.map r.apply).map (·.name) = cs.map (·.name) := by
  rw [List.map_map]
  rfl

/-- An index whose classes have other methods and fields. -/
def redeclared (ix : Index) (r : Redeclaration) : Index :=
  { ix with
    classes := ix.classes.map r.apply
    nodup_names := by
      rw [map_name_apply]
      exact ix.nodup_names }

/-! ## Hierarchies -/

theorem class?_redeclared : (ix.redeclared r).class? n = (ix.class? n).map r.apply :=
  List.find?_map

theorem ascent_redeclared (seen : List ClassName) (next? : Option ClassName) :
    (ix.redeclared r).ascent seen next? =
      ((ix.ascent seen next?).1.map r.apply, (ix.ascent seen next?).2) := by
  induction seen, next? using ascent.induct ix with
  | case1 seen => simp [ascent]
  | case2 seen n hn => simp [ascent, hn]
  | case3 seen n hn hc =>
    have hc' : (ix.redeclared r).class? n = none := by rw [class?_redeclared, hc]; rfl
    rw [ascent_of_unknown hn hc, ascent_of_unknown hn hc']
    rfl
  | case4 seen n hn c hc chain cyclic he ih =>
    have hc' : (ix.redeclared r).class? n = some (r.apply c) := by
      rw [class?_redeclared, hc]
      rfl
    rw [ascent_of_known hn hc, ascent_of_known hn hc']
    have ih' : (ix.redeclared r).ascent (n :: seen) (r.apply c).superclass? = _ := ih
    rw [ih']
    rfl

theorem superclasses_redeclared :
    (ix.redeclared r).superclasses (r.apply c) = (ix.superclasses c).map r.apply :=
  congrArg Prod.fst (ascent_redeclared [c.name] c.superclass?)

theorem isCyclic_redeclared : (ix.redeclared r).isCyclic (r.apply c) = ix.isCyclic c := by
  have hascent : (ix.redeclared r).ascent [(r.apply c).name] (r.apply c).superclass? = _ :=
    ascent_redeclared [c.name] c.superclass?
  rw [isCyclic, hascent]
  rfl

/-- A walk that does not look at members meets the same classes. -/
theorem walk_redeclared {next next' : ClassInfo → List ClassName}
    (hnext : ∀ c, next' (r.apply c) = next c) (seen pending : List ClassName) :
    (ix.redeclared r).walk next' seen pending = (ix.walk next seen pending).map r.apply := by
  induction seen, pending using walk.induct ix next with
  | case1 seen => simp [walk]
  | case2 seen n rest hn ih => rw [walk_of_seen hn, walk_of_seen hn, ih]
  | case3 seen n rest hn hc ih =>
    have hc' : (ix.redeclared r).class? n = none := by rw [class?_redeclared, hc]; rfl
    rw [walk_of_unknown hn hc, walk_of_unknown hn hc', ih]
  | case4 seen n rest hn c hc ih =>
    have hc' : (ix.redeclared r).class? n = some (r.apply c) := by
      rw [class?_redeclared, hc]
      rfl
    rw [walk_of_known hn hc, walk_of_known hn hc', hnext, ih, List.map_cons]

theorem byName_map_apply : byName (cs.map r.apply) = (byName cs).map r.apply := by
  rw [byName, byName]
  exact (List.map_mergeSort (f := r.apply) fun _ _ _ _ => rfl).symm

theorem flatMap_interfaces_map_apply :
    (cs.map r.apply).flatMap (·.interfaces) = cs.flatMap (·.interfaces) :=
  List.flatMap_map ..

theorem allInterfaces_redeclared :
    (ix.redeclared r).allInterfaces (r.apply c) = (ix.allInterfaces c).map r.apply := by
  rw [allInterfaces, superclasses_redeclared, ← List.map_cons, flatMap_interfaces_map_apply,
    walk_redeclared fun _ => rfl, byName_map_apply]
  rfl

theorem subtypes_redeclared : (ix.redeclared r).subtypes n = ix.subtypes n := by
  have hclasses : (ix.redeclared r).classes = ix.classes.map r.apply := rfl
  rw [subtypes, hclasses, List.filter_map, map_name_apply]
  rfl

theorem implementors_redeclared :
    (ix.redeclared r).implementors n = (ix.implementors n).map r.apply := by
  have hnext : ∀ c, (ix.redeclared r).subtypes (r.apply c).name = ix.subtypes c.name :=
    fun c => subtypes_redeclared
  rw [implementors, subtypes_redeclared, walk_redeclared hnext, List.filter_map, byName_map_apply]
  rfl

/-! ## Targets -/

theorem target_redeclared :
    (ix.redeclared r).target (r.apply c) = (ix.target c).map r.apply := by
  have hchecked : ∀ t, (ix.redeclared r).checked (r.apply t) = (ix.checked t).map r.apply := by
    intro t
    rw [checked, checked, isCyclic_redeclared]
    have hparameters : (r.apply t).typeParameters = t.typeParameters := rfl
    rw [hparameters]
    split_ifs <;> rfl
  rw [target_eq, target_eq]
  have hkept : (r.apply c).kind = c.kind ∧ (r.apply c).isAbstract = c.isAbstract ∧
      (r.apply c).name = c.name := ⟨rfl, rfl, rfl⟩
  rw [hkept.1, hkept.2.1, hkept.2.2, implementors_redeclared]
  cases c.kind with
  | enum => rfl
  | interface =>
    rcases ix.implementors c.name with _ | ⟨t, _ | ⟨u, rest⟩⟩
    · rfl
    · exact hchecked t
    · simp [only, Except.map, Function.comp_def, Redeclaration.apply]
  | cls =>
    cases c.isAbstract with
    | true => rfl
    | false => exact hchecked c

theorem classAnnotations_redeclared :
    (ix.redeclared r).classAnnotations (r.apply c) = ix.classAnnotations c := by
  rw [classAnnotations, superclasses_redeclared, allInterfaces_redeclared, ← List.map_append,
    List.flatMap_map]
  rfl

end JsonBinding.Index
