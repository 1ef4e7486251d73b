import JsonBinding.Proofs.Program.Functions

/-!
# What a program leaves to the generic writer

The statements that leave a value to the generic writer stand in the functions of the classes with a
deferred property, and in no other block.

* `Schema.Served`: a type whose values are written without a function that is missing;
  `ProgramCode.served` carries it along the parts of a type.
* **`ProgramCode.mem_leaves_iff`**: what a program leaves to the generic writer.
* **`ProgramCode.unhandledCount_pos_iff`**: a program leaves something to the generic writer just
  when its type reaches a class with a deferred property.
-/

namespace JsonBinding.Schema

attribute [local simp] List.filterMap_cons

variable {s : Schema} {t u : TypeRef} {a? : Option AnnotationSet} {v : Variant} {e : Expr}
  {n m : Nat}
  {body : List Stmt} {p : Property} {names : List ClassName}

/-! ## Leaves -/

theorem Code.leaves (h : s.Code a? v e t n body m) (hv : v ≠ .unhandled) :
    Stmt.leaves body = [] := by
  induction h with
  | unhandled => exact absurd rfl hv
  | optional _ hw _ ih | collection _ hw _ ih | map _ hw _ ih =>
    have := ih fun he => formOf_ne_unhandled (he ▸ hw)
    simp [this]
  | _ => simp

theorem Code.leaves_of_formOf (h : s.Code a? v e t n body m) (hf : s.formOf u = some v) :
    Stmt.leaves body = [] :=
  h.leaves fun he => formOf_ne_unhandled (he ▸ hf)

theorem NillableCode.mem_leaves_iff (h : s.NillableCode a? e t n body m) :
    u ∈ Stmt.leaves body ↔ u = t ∧ s.isDeferrable t = true ∧ s.formOf t = none := by
  cases h with
  | handled hf hc => simp [hf, hc.leaves_of_formOf hf]
  | unhandled hf hd =>
    simp [hf, hd]

theorem PresentCode.mem_leaves_iff {key : String} (h : s.PresentCode a? key e t n body m) :
    u ∈ Stmt.leaves body ↔ u = t ∧ s.isDeferrable t = true ∧ s.formOf t = none := by
  cases h with
  | optional hf _ hw hc =>
    simp [hf, hc.leaves_of_formOf hw]
  | handled hf _ hc =>
    simp [hf, hc.leaves_of_formOf hf]
  | unhandled hf hd =>
    simp [hf, hd]

theorem PropertyCode.mem_leaves_iff (h : s.PropertyCode e p n body m) :
    u ∈ Stmt.leaves body ↔ u = p.type ∧ s.isDeferrable p.type = true ∧ s.formOf p.type = none := by
  cases h with
  | primitive _ hf hc =>
    simp [hf, hc.leaves_of_formOf hf]
  | nillable _ _ hc =>
    rw [← hc.mem_leaves_iff]
    simp
  | present _ _ hc =>
    rw [← hc.mem_leaves_iff]
    simp

theorem PropertiesCode.mem_leaves_iff {ps : List Property} (h : s.PropertiesCode e ps n body m) :
    u ∈ Stmt.leaves body ↔
      ∃ p ∈ ps, u = p.type ∧ s.isDeferrable p.type = true ∧ s.formOf p.type = none := by
  induction h with
  | nil => simp
  | cons hc _ ih =>
    rw [Stmt.leaves_append, List.mem_append, hc.mem_leaves_iff, ih]
    simp

theorem defers_iff {name : ClassName} {c : ClassInfo} (hf : s.formOf (.cls name) = some .object)
    (hc : s.index.class? name = some c) :
    s.Defers (.cls name) p ↔ p ∈ s.properties (s.index.inspect c) ∧ s.isDeferrable p.type = true ∧
      s.formOf p.type = none := by
  have hb : s.formOf p.type = none ↔ s.Blocked p.type := by
    constructor
    · intro h
      refine Classical.byContradiction fun hb => ?_
      obtain ⟨v, hv⟩ := exists_formOf hb
      rw [h] at hv
      cases hv
    · intro h
      simp [formOf, h]
  rw [hb]
  constructor
  · rintro ⟨⟨n', c', hn, -, hc', hp⟩, hd, hb⟩
    cases hn
    rw [hc] at hc'
    cases hc'
    exact ⟨hp, hd, hb⟩
  · rintro ⟨hp, hd, hb⟩
    exact ⟨hasProperty_of_formOf hf hc hp, hd, hb⟩

/-- The function of a class leaves to the generic writer what its deferred properties hold. -/
theorem FunctionCode.mem_leaves_iff {f : ObjectFunction} (h : s.FunctionCode n f m)
    (hf : s.formOf (.cls f.name) = some .object) :
    u ∈ Stmt.leaves f.body ↔ ∃ p, s.Defers (.cls f.name) p ∧ u = p.type := by
  cases h with
  | own hc _ _ hw | narrowed hc _ _ hw =>
    have hbody := hw.mem_leaves_iff (u := u)
    simp only [defers_iff hf hc]
    constructor
    · intro hu
      obtain ⟨p, hp, he, hd, hn⟩ := hbody.mp (by simpa using hu)
      exact ⟨p, ⟨hp, hd, hn⟩, he⟩
    · rintro ⟨p, ⟨hp, hd, hn⟩, he⟩
      simpa using hbody.mpr ⟨p, hp, he, hd, hn⟩

/-! ## Served types -/

variable (s) in
/-- The types whose values are written with the functions of some classes. -/
inductive Served (names : List ClassName) : TypeRef → Prop
  | scalar {t : TypeRef} {v : Variant} : s.formOf t = some v →
    v ∈ [.primitive, .boxed, .string, .date] → Served names t
  | element {t u : TypeRef} {v : Variant} : s.formOf t = some v → v = .optional ∨ v = .collection →
    t.element? = some u → Served names u → Served names t
  | value {t u : TypeRef} : s.formOf t = some .map → t.value? = some u → Served names u →
    Served names t
  | object {k : ClassName} : s.formOf (.cls k) = some .object → k ∈ names → Served names (.cls k)

theorem Code.served (h : s.Code a? v e t n body m) (hf : s.formOf t = some v)
    (hn : Stmt.callees body ⊆ names) : s.Served names t := by
  induction h with
  | primitive | boxed | string | date => exact .scalar hf (by decide)
  | optional hu hw _ ih =>
    refine .element hf (.inl rfl) hu (ih hw ?_)
    simpa using hn
  | collection hu hw _ ih =>
    refine .element hf (.inr rfl) hu (ih hw ?_)
    simpa using hn
  | map hu hw _ ih =>
    refine .value hf hu (ih hw ?_)
    simpa using hn
  | object =>
    refine .object hf (hn ?_)
    simp
  | unhandled => exact absurd hf formOf_ne_unhandled

theorem PropertyCode.served (h : s.PropertyCode e p n body m) (hf : s.formOf p.type = some v)
    (hn : Stmt.callees body ⊆ names) : s.Served names p.type := by
  cases h with
  | primitive _ hv hc =>
    refine hc.served hv ?_
    simpa using hn
  | nillable _ _ hc =>
    cases hc with
    | handled hv hc =>
      refine hc.served hv ?_
      simpa using hn
    | unhandled hv _ =>
      rw [hf] at hv
      cases hv
  | present _ _ hc =>
    cases hc with
    | optional hv hu hw hc =>
      refine .element hv (.inl rfl) hu (hc.served hw ?_)
      simpa using hn
    | handled hv _ hc =>
      refine hc.served hv ?_
      simpa using hn
    | unhandled hv _ =>
      rw [hf] at hv
      cases hv

theorem PropertiesCode.property {ps : List Property} (h : s.PropertiesCode e ps n body m)
    (hp : p ∈ ps) :
    ∃ n' body' m', s.PropertyCode e p n' body' m' ∧ Stmt.allOf body' ⊆ Stmt.allOf body := by
  induction h with
  | nil => cases hp
  | cons hc _ ih =>
    rw [Stmt.allOf_append]
    rcases List.mem_cons.mp hp with rfl | hp
    · exact ⟨_, _, _, hc, List.subset_append_left _ _⟩
    · obtain ⟨n', body', m', hc', hs⟩ := ih hp
      exact ⟨n', body', m', hc', List.subset_append_of_subset_right _ hs⟩

theorem FunctionCode.property {f : ObjectFunction} (h : s.FunctionCode n f m)
    (hp : s.HasProperty (.cls f.name) p) :
    ∃ e n' body' m', s.PropertyCode e p n' body' m' ∧ Stmt.allOf body' ⊆ Stmt.allOf f.body := by
  obtain ⟨name, c, hn, -, hc, hp⟩ := hp
  cases hn
  cases h with
  | own hc' _ _ hw | narrowed hc' _ _ hw =>
    rw [hc] at hc'
    cases hc'
    obtain ⟨n', body', m', hcode, hs⟩ := hw.property hp
    refine ⟨_, n', body', m', hcode, fun st hst => ?_⟩
    simp [Stmt.allOf_append, hs hst]

theorem FunctionsCode.function {fs : List ObjectFunction} {f : ObjectFunction}
    (h : s.FunctionsCode n fs m) (hf : f ∈ fs) : ∃ n' m', s.FunctionCode n' f m' := by
  induction h with
  | nil => cases hf
  | cons hc _ ih =>
    rcases List.mem_cons.mp hf with rfl | hf
    · exact ⟨_, _, hc⟩
    · exact ih hf

variable {prog : Program}

theorem ProgramCode.function (h : s.ProgramCode t prog) {f : ObjectFunction}
    (hf : f ∈ prog.functions) : ∃ n m, s.FunctionCode n f m := by
  obtain ⟨_, _, _, -, -, hfs⟩ := h.code
  exact hfs.function hf

/-- A part that can be written is served as its whole is. -/
theorem ProgramCode.served_step (h : s.ProgramCode t prog) {w : TypeRef}
    (hu : s.Served (prog.functions.map (·.name)) u) (hw : s.WrittenPart u w) :
    s.Served (prog.functions.map (·.name)) w := by
  obtain ⟨v, hv⟩ := exists_formOf hw.2
  have hpart := hw.1.by_form
  cases hu with
  | scalar hf hm =>
    rw [(formOf_eq_some_iff.mp hf).2] at hpart
    grind
  | element hf hm he hs =>
    rw [(formOf_eq_some_iff.mp hf).2, he] at hpart
    grind
  | value hf he hs =>
    rw [(formOf_eq_some_iff.mp hf).2, he] at hpart
    grind
  | @object k hf hk =>
    obtain ⟨p, hp, rfl⟩ : ∃ p, s.HasProperty (.cls k) p ∧ p.type = w := by
      rw [(formOf_eq_some_iff.mp hf).2] at hpart
      grind
    obtain ⟨f, hf', rfl⟩ := List.mem_map.mp hk
    obtain ⟨n, m, hcode⟩ := h.function hf'
    obtain ⟨e, n', body', m', hc, hs⟩ := hcode.property hp
    exact hc.served hv fun j hj => h.closed f hf' (Stmt.gather_subset _ hs hj)

/-- Everything that a type comes to through parts that can be written is served. -/
theorem ProgramCode.served (h : s.ProgramCode t prog)
    (hu : Relation.ReflTransGen s.WrittenPart t u) : s.Served (prog.functions.map (·.name)) u := by
  induction hu with
  | refl =>
    obtain ⟨v, n, m, hf, hc, -⟩ := h.code
    exact hc.served hf h.entry
  | tail _ hw ih => exact h.served_step ih hw

theorem ProgramCode.object_function (h : s.ProgramCode t prog) {k : ClassName}
    (hu : Relation.ReflTransGen s.WrittenPart t (.cls k))
    (hv : s.variant? (.cls k) = some .object) :
    s.formOf (.cls k) = some .object ∧ ∃ f ∈ prog.functions, f.name = k := by
  cases h.served hu with
  | scalar hf hm =>
    rw [(formOf_eq_some_iff.mp hf).2] at hv
    cases hv
    simp at hm
  | element hf hm =>
    rw [(formOf_eq_some_iff.mp hf).2] at hv
    cases hv
    simp at hm
  | value hf =>
    rw [(formOf_eq_some_iff.mp hf).2] at hv
    cases hv
  | object hf hk => exact ⟨hf, List.mem_map.mp hk⟩

theorem leaves_statements (prog : Program) : prog.statements.filterMap Stmt.unhandled? =
    Stmt.leaves prog.entry ++ prog.functions.flatMap fun f => Stmt.leaves f.body := by
  rw [Program.statements, List.filterMap_append, List.filterMap_flatMap]
  rfl

/-- **A program leaves to the generic writer what the deferred properties of its classes hold.** -/
theorem ProgramCode.mem_leaves_iff (h : s.ProgramCode t prog) :
    u ∈ prog.statements.filterMap Stmt.unhandled? ↔
      ∃ f ∈ prog.functions, ∃ p, s.Defers (.cls f.name) p ∧ u = p.type := by
  obtain ⟨v, n, m, hf, hc, -⟩ := h.code
  rw [leaves_statements, hc.leaves_of_formOf hf, List.nil_append, List.mem_flatMap]
  refine exists_congr fun f => and_congr_right fun hf' => ?_
  obtain ⟨n', m', hcode⟩ := h.function hf'
  exact hcode.mem_leaves_iff (h.needed f hf').2

/-- **A program leaves something to the generic writer just when its type reaches a class with a
deferred property.** -/
theorem ProgramCode.unhandledCount_pos_iff (h : s.ProgramCode t prog) :
    0 < prog.unhandledCount ↔ s.Leaky t := by
  rw [Program.unhandledCount, List.length_pos_iff_exists_mem]
  simp only [h.mem_leaves_iff]
  constructor
  · rintro ⟨_, f, hf, p, hp, -⟩
    exact ⟨.cls f.name, p, (h.needed f hf).1, hp⟩
  · rintro ⟨u, p, hu, hp⟩
    obtain ⟨k, c, rfl, hsh, -, -⟩ := hp.1
    obtain ⟨-, f, hf, rfl⟩ := h.object_function hu (variant?_of_shape? hsh)
    exact ⟨p.type, f, hf, p, hp, rfl⟩

end JsonBinding.Schema
