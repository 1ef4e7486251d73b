import JsonBinding.Proofs.Index.Annotations
import JsonBinding.Proofs.Program.Leaves
import JsonBinding.SerializerUnit.Build
import Mathlib

/-!
# What becomes of a root type

A unit is built for a root type just when the type is supported, and it is on the level that the
type is resolved to.

* `Index.HasDates`: an index whose date formats are all valid; `dated_of_hasDates`.
* `unit_of_missing`, `unit_of_blocked`, `unit_of_supported`: the three ways that a build goes.
* **`unit_outcome`**: when there is a unit, when there is none and what is the only fault.
-/

namespace JsonBinding

/-- Whether every date format that an annotation of the index asks for is one. -/
def Index.HasDates (ix : Index) : Prop :=
  ∀ a, ix.Bears a → a.kind = .dateFormat → ∀ text,
    a.string? AnnotationUse.valueAttribute = some text → ∃ f, DateFormat.ofText text = .ok f

namespace Schema

open Build

variable {s : Schema} {memo : Memo} {root : TypeRef} {id : UnitId}

theorem dated_of_hasDates (h : s.index.HasDates) : s.Dated := by
  rintro t p ⟨name, c, rfl, -, hc, hp⟩
  show ∃ f, p.annotations.dateFormat s.settings.dateFormat = .ok f
  unfold AnnotationSet.dateFormat
  split
  · rename_i text htext
    obtain ⟨a, ha, hs⟩ := Option.bind_eq_some_iff.mp htext
    obtain ⟨x, hx, rfl⟩ := Option.map_eq_some_iff.mp ha
    have hk : x.2.kind = .dateFormat := by simpa using List.find?_some hx
    exact h x.2 (Index.bears_of_mem_properties (Index.mem_of_class? hc) hp
      (List.mem_of_find?_eq_some hx)) hk text hs
  · exact ⟨_, rfl⟩

/-! ## Missing roots -/

theorem missingRoot?_eq_some_iff {name : ClassName} : s.missingRoot? root = some name ↔
    root = .cls name ∧ name.isPlatform = false ∧ s.index.class? name = none := by
  cases root with
  | cls n =>
    simp only [missingRoot?, TypeRef.cls.injEq]
    split_ifs with h
    · simp only [Bool.and_eq_true, Bool.not_eq_true', Option.isNone_iff_eq_none] at h
      constructor
      · rintro ⟨⟩
        exact ⟨rfl, h⟩
      · rintro ⟨rfl, -⟩
        rfl
    · simp only [Bool.and_eq_true, Bool.not_eq_true', Option.isNone_iff_eq_none] at h
      constructor
      · intro h'
        cases h'
      · rintro ⟨rfl, h'⟩
        exact absurd h' h
  | _ => simp [missingRoot?]

theorem blocked_of_missing {name : ClassName} (hp : name.isPlatform = false)
    (hc : s.index.class? name = none) : s.Blocked (.cls name) := by
  have he : s.isEnum name = false := by simp [isEnum, hc]
  exact ⟨_, .refl, .missing hc (shape?_eq_none_of_object (variant?_of_own hp he) hc)⟩

/-! ## Units -/

theorem unit_of_missing {name : ClassName} (h : s.missingRoot? root = some name) :
    s.unit root id memo = (.error (.classNotFound name.text), memo) := by
  rw [unit, h]

theorem unit_of_blocked (hr : s.Reached memo) (h : s.missingRoot? root = none)
    (hb : s.Blocked root) : s.unit root id memo = (.ok none, (s.resolve root memo).2) := by
  have hs : (s.resolve root memo).1.support.isSupported = false := by
    rw [Bool.eq_false_iff, ne_eq, (hr.exact_resolve root).isSupported_iff]
    exact fun h => h hb
  rw [unit, h]
  simp only [hs, Bool.false_eq_true, if_false]

theorem missingRoot?_of_not_blocked (hb : ¬ s.Blocked root) : s.missingRoot? root = none := by
  cases h : s.missingRoot? root with
  | none => rfl
  | some name =>
    obtain ⟨rfl, hp, hc⟩ := missingRoot?_eq_some_iff.mp h
    exact absurd (blocked_of_missing hp hc) hb

theorem unit_of_supported (hr : s.Reached memo) {v : Variant} (hv : s.formOf root = some v) :
    s.unit root id memo =
      let x := (s.program v root).run.run { memo := (s.resolve root memo).2 }
      ((x.1.bind fun p => sealed ⟨id, root, (s.resolve root memo).1.support.level, p⟩).map some,
        x.2.memo) := by
  have hb := not_blocked_of_formOf hv
  have he := hr.exact_resolve root
  have hs := he.isSupported_iff.mpr hb
  rw [unit, missingRoot?_of_not_blocked hb]
  simp only [hs, if_true]
  rw [he.variant?_eq, hv]
  rfl

theorem sealed_eq_ok {u : SerializerUnit}
    (h : 0 < u.program.unhandledCount ↔ u.support = .withUnhandled) : sealed u = .ok u := by
  rw [sealed, if_pos]
  cases hs : u.support <;> simp_all [SupportLevel.needsReflection]

/-- The unit of a type that can be written. Only a date format that is none keeps it from being
built. -/
theorem unit_program (id : UnitId) (hr : s.Reached memo) (hb : ¬ s.Blocked root) :
    (∃ p, s.ProgramCode root p ∧ (s.unit root id memo).1 =
      .ok (some ⟨id, root, (s.resolve root memo).1.support.level, p⟩)) ∨
    ¬ s.Dated ∧ ∃ e, (s.unit root id memo).1 = .error e := by
  obtain ⟨v, hv⟩ := exists_formOf hb
  have he := hr.exact_resolve root
  obtain ⟨-, hp⟩ := ensures_program (s.resolve root memo).2 (hr.resolve root) hv
  rw [unit_of_supported hr hv]
  cases hbuilt : ((s.program v root).run.run { memo := (s.resolve root memo).2 }).1 with
  | error e =>
    rw [hbuilt] at hp
    exact .inr ⟨hp, e, by simp only [hbuilt]; rfl⟩
  | ok p =>
    rw [hbuilt] at hp
    refine .inl ⟨p, hp, ?_⟩
    have hs : sealed ⟨id, root, (s.resolve root memo).1.support.level, p⟩ =
        .ok ⟨id, root, (s.resolve root memo).1.support.level, p⟩ := by
      refine sealed_eq_ok ?_
      rw [hp.unhandledCount_pos_iff, he.withUnhandled]
      simp [hb]
    simp only [hbuilt]
    show (sealed ⟨id, root, (s.resolve root memo).1.support.level, p⟩).map some = _
    rw [hs]
    rfl

theorem unit_of_dated (hd : s.Dated) (hr : s.Reached memo) (hb : ¬ s.Blocked root) (id : UnitId) :
    ∃ p, s.ProgramCode root p ∧ (s.unit root id memo).1 =
      .ok (some ⟨id, root, (s.resolve root memo).1.support.level, p⟩) :=
  (unit_program id hr hb).resolve_right fun h => h.1 hd

theorem unit_eq_some (hr : s.Reached memo) {u : SerializerUnit}
    (hu : (s.unit root id memo).1 = .ok (some u)) :
    ∃ p, s.ProgramCode root p ∧ u = ⟨id, root, (s.resolve root memo).1.support.level, p⟩ := by
  by_cases hb : s.Blocked root
  · cases hm : s.missingRoot? root with
    | some name => rw [unit_of_missing hm] at hu; cases hu
    | none => rw [unit_of_blocked hr hm hb] at hu; cases hu
  · rcases unit_program id hr hb with ⟨p, hp, h⟩ | ⟨-, e, h⟩
    · rw [hu] at h
      cases h
      exact ⟨p, hp, rfl⟩
    · rw [hu] at h
      cases h

theorem Reached.unit (hr : s.Reached memo) (root : TypeRef) (id : UnitId) :
    s.Reached (s.unit root id memo).2 := by
  by_cases hb : s.Blocked root
  · cases hm : s.missingRoot? root with
    | some name => rw [unit_of_missing hm]; exact hr
    | none => rw [unit_of_blocked hr hm hb]; exact hr.resolve root
  · obtain ⟨v, hv⟩ := exists_formOf hb
    rw [unit_of_supported hr hv]
    exact (ensures_program (s.resolve root memo).2 (hr.resolve root) hv).1

theorem leaf_iff (p : Program) :
    (∃ e t, .writeUnhandled e t ∈ p.statements) ↔ 0 < p.unhandledCount := by
  rw [Program.unhandledCount, List.length_pos_iff_exists_mem]
  constructor
  · rintro ⟨e, t, h⟩
    exact ⟨t, List.mem_filterMap.mpr ⟨_, h, rfl⟩⟩
  · rintro ⟨t, h⟩
    obtain ⟨st, hst, ht⟩ := List.mem_filterMap.mp h
    cases st with
    | writeUnhandled e t' => exact ⟨e, t', hst⟩
    | _ => cases ht

theorem unit_cases (hd : s.Dated) (hr : s.Reached memo) (root : TypeRef) (id : UnitId) :
    (∃ name, s.missingRoot? root = some name ∧
      (s.unit root id memo).1 = .error (.classNotFound name.text)) ∨
    (s.missingRoot? root = none ∧ s.Blocked root ∧ (s.unit root id memo).1 = .ok none) ∨
    (s.missingRoot? root = none ∧ ¬ s.Blocked root ∧ ∃ p, s.ProgramCode root p ∧
      (s.unit root id memo).1 =
        .ok (some ⟨id, root, (s.resolve root memo).1.support.level, p⟩)) := by
  cases hm : s.missingRoot? root with
  | some name => exact .inl ⟨name, rfl, by rw [unit_of_missing hm]⟩
  | none =>
    by_cases hb : s.Blocked root
    · exact .inr (.inl ⟨rfl, hb, by rw [unit_of_blocked hr hm hb]⟩)
    · exact .inr (.inr ⟨rfl, hb, unit_of_dated hd hr hb id⟩)

/-- **What becomes of a root type.** The only fault is a class that the index does not know. Else
there is a unit just when the type is supported, on the level that the type is resolved to, and it
leaves values to the generic writer just when that level says so. What is remembered afterwards may
have been remembered before. -/
theorem unit_outcome (hd : s.index.HasDates) (hr : s.Reached memo) (root : TypeRef) (id : UnitId) :
    (∀ e, (s.unit root id memo).1 = .error e ↔ ∃ name, root = .cls name ∧
      name.isPlatform = false ∧ s.index.class? name = none ∧ e = .classNotFound name.text) ∧
    ((¬ ∃ name, root = .cls name ∧ name.isPlatform = false ∧ s.index.class? name = none) →
      ((s.unit root id memo).1 = .ok none ↔
        (s.resolve root memo).1.support.level = .unsupported)) ∧
    ((s.resolve root memo).1.support.level ≠ .unsupported →
      ∃ u, (s.unit root id memo).1 = .ok (some u) ∧ u.id = id ∧ u.root = root ∧
        u.support = (s.resolve root memo).1.support.level ∧
        ((∃ e t, .writeUnhandled e t ∈ u.program.statements) ↔ u.support = .withUnhandled)) ∧
    s.Reached (s.unit root id memo).2 := by
  have he := hr.exact_resolve root
  have hmissing : (∃ name, root = .cls name ∧ name.isPlatform = false ∧
      s.index.class? name = none) ↔ ∃ name, s.missingRoot? root = some name :=
    exists_congr fun name => missingRoot?_eq_some_iff.symm
  refine ⟨fun e => ?_, fun hm => ?_, fun hl => ?_, hr.unit root id⟩
  · have hfault : (∃ name, root = .cls name ∧ name.isPlatform = false ∧
        s.index.class? name = none ∧ e = .classNotFound name.text) ↔
        ∃ name, s.missingRoot? root = some name ∧ e = .classNotFound name.text := by
      simp only [missingRoot?_eq_some_iff, and_assoc]
    rw [hfault]
    rcases unit_cases (dated_of_hasDates hd) hr root id with ⟨name, hm, h⟩ | ⟨hm, -, h⟩ |
      ⟨hm, -, p, -, h⟩
    · rw [h, hm]
      simp [eq_comm]
    · rw [h, hm]
      simp
    · rw [h, hm]
      simp
  · rw [hmissing] at hm
    rw [he.unsupported]
    rcases unit_cases (dated_of_hasDates hd) hr root id with ⟨name, hm', -⟩ | ⟨-, hb, h⟩ |
      ⟨-, hb, p, -, h⟩
    · exact absurd ⟨name, hm'⟩ hm
    · simp [h, hb]
    · simp [h, hb]
  · rw [ne_eq, he.unsupported] at hl
    rcases unit_cases (dated_of_hasDates hd) hr root id with ⟨name, hm, -⟩ | ⟨-, hb, -⟩ |
      ⟨-, -, p, hp, h⟩
    · rw [missingRoot?_of_not_blocked hl] at hm
      cases hm
    · exact absurd hb hl
    · refine ⟨_, h, rfl, rfl, rfl, ?_⟩
      rw [leaf_iff, hp.unhandledCount_pos_iff, he.withUnhandled]
      simp [hl]

/-! ## A tree -/

namespace Tree

/-- The date format of the tree. -/
def dayFirst : AnnotationUse := ⟨.dateFormat, [(AnnotationUse.valueAttribute, .str "%d.%m.%Y")]⟩

/-- A class whose instances hold a list of such instances, a date, and anything at all. -/
def node : ClassInfo where
  name := ⟨"com.acme.Node"⟩
  fields := [
    { name := "children", type := .app ⟨"java.util.List"⟩ [.cls ⟨"com.acme.Node"⟩],
      visibility := .anywhere },
    { name := "due", type := .cls ⟨"java.time.LocalDate"⟩, visibility := .anywhere,
      annotations := [dayFirst] },
    { name := "owner", type := .cls ⟨"java.lang.Object"⟩, visibility := .anywhere }]

end Tree

/-- The schema of the tree. -/
def tree : Schema := { index := { classes := [Tree.node], nodup_names := by decide } }

namespace Tree

theorem properties_node : tree.properties (tree.index.inspect node) = [
    ⟨"children", "children", false, .app ⟨"java.util.List"⟩ [.cls ⟨"com.acme.Node"⟩],
      .field "children", []⟩,
    ⟨"due", "due", false, .cls ⟨"java.time.LocalDate"⟩, .field "due", [(.field, dayFirst)]⟩,
    ⟨"owner", "owner", false, .cls ⟨"java.lang.Object"⟩, .field "owner", []⟩] := by
  cbv

theorem class?_node : tree.index.class? node.name = some node := rfl

theorem ofText_dayFirst : DateFormat.ofText "%d.%m.%Y" = .ok (.pattern "%d.%m.%Y") := by
  have h₁ : ("%d.%m.%Y".isEmpty || DateFormat.sameLetters "%d.%m.%Y" "iso") = false := by cbv
  have h₂ : (Calendar.Pattern.ofText? "%d.%m.%Y").isSome = true := by cbv
  rw [DateFormat.ofText, h₁, h₂]
  rfl

theorem hasDates_of_bears {ix : Index} (h : ∀ a, ix.Bears a → a = dayFirst) : ix.HasDates := by
  intro a ha _ text ht
  cases h a ha
  cases ht
  exact ⟨_, ofText_dayFirst⟩

theorem hasDates : tree.index.HasDates :=
  hasDates_of_bears fun a ha => by simpa [Index.Bears, tree, node] using ha

/-- Lists of nodes. -/
abbrev nodes : TypeRef := .app ⟨"java.util.List"⟩ [.cls node.name]

theorem element?_nodes : nodes.element? = some (.cls node.name) := rfl

theorem variant?_node : tree.variant? (.cls node.name) = some .object :=
  variant?_of_own (by simp [node, ClassName.isPlatform]) rfl

theorem variant?_nodes : tree.variant? nodes = some .collection := rfl

theorem impossibility?_node : (tree.index.inspect node).impossibility? = none := by cbv

theorem firm_closed {t u : TypeRef} (ht : t = .cls node.name ∨ t = nodes)
    (h : tree.FirmPart t u) : u = .cls node.name ∨ u = nodes := by
  have hp := h.by_form
  rcases ht with rfl | rfl
  · rw [variant?_node] at hp
    simp only [Option.some.injEq, reduceCtorEq, false_and, or_self, false_or, true_and] at hp
    obtain ⟨p, ⟨n, c, hn, -, hc, hm⟩, hd, rfl⟩ := hp
    cases hn
    rw [class?_node] at hc
    cases hc
    rw [properties_node] at hm
    simp only [List.mem_cons, List.not_mem_nil, or_false] at hm
    rcases hm with rfl | rfl | rfl
    · exact .inr rfl
    · cases hd
    · cases hd
  · rw [variant?_nodes, element?_nodes] at hp
    simp only [Option.some.injEq, reduceCtorEq, false_and, or_false, false_or, true_and] at hp
    exact .inl hp.symm

theorem not_hopeless {t : TypeRef} (ht : t = .cls node.name ∨ t = nodes) : ¬ tree.Hopeless t := by
  intro h
  have hf := h.by_form
  rcases ht with rfl | rfl
  · rw [variant?_node] at hf
    simp only [Option.some.injEq, reduceCtorEq, false_and, or_self, false_or, true_and] at hf
    obtain ⟨n, hn, hi⟩ := hf
    cases hn
    exact hi node class?_node impossibility?_node
  · rw [variant?_nodes, element?_nodes] at hf
    simp at hf

theorem not_blocked {t : TypeRef} (ht : t = .cls node.name ∨ t = nodes) : ¬ tree.Blocked t := by
  rintro ⟨u, hu, hh⟩
  have key : u = .cls node.name ∨ u = nodes := by
    clear hh
    induction hu with
    | refl => exact ht
    | tail _ hp ih => exact firm_closed ih hp
  exact not_hopeless key hh

theorem not_blocked_node : ¬ tree.Blocked (.cls node.name) := not_blocked (.inl rfl)

theorem exists_unit :
    ∃ u, (tree.unit (.cls node.name) ⟨"NodeSerializer"⟩ {}).1 = .ok (some u) := by
  obtain ⟨p, -, hu⟩ :=
    unit_of_dated (dated_of_hasDates hasDates) .start not_blocked_node ⟨"NodeSerializer"⟩
  exact ⟨_, hu⟩

theorem formOf_node : tree.formOf (.cls node.name) = some .object :=
  formOf_eq_some_iff.mpr ⟨not_blocked_node, variant?_node⟩

theorem leaky_node : tree.Leaky (.cls node.name) := by
  refine ⟨_, ⟨"owner", "owner", false, .cls ⟨"java.lang.Object"⟩, .field "owner", []⟩, .refl,
    hasProperty_of_formOf formOf_node class?_node ?_, rfl, _, .refl, .platform ?_ ?_⟩
  · rw [properties_node]
    exact .tail _ (.tail _ (.head _))
  · simp [ClassName.isPlatform]
  · refine shape?_eq_none_of_variant? ?_
    rw [variant?_of_unknown (by decide) rfl]
    simp [ClassName.isPlatform]

theorem unit_outcome_tree :
    tree.index.HasDates ∧ tree.Reached (tree.resolve nodes {}).2 ∧
    ∃ u,
      (tree.unit (.cls node.name) ⟨"NodeSerializer"⟩ (tree.resolve nodes {}).2).1 = .ok (some u) ∧
      u.support = .withUnhandled ∧ ∃ e t, .writeUnhandled e t ∈ u.program.statements := by
  have hr : tree.Reached (tree.resolve nodes {}).2 := .resolve _ .start
  have hl := (hr.exact_resolve (.cls node.name)).withUnhandled.mpr ⟨not_blocked_node, leaky_node⟩
  refine ⟨hasDates, hr, ?_⟩
  obtain ⟨-, -, h, -⟩ := unit_outcome hasDates hr (.cls node.name) ⟨"NodeSerializer"⟩
  obtain ⟨u, hu, -, -, hs, hw⟩ := h (by rw [hl]; decide)
  rw [hl] at hs
  exact ⟨u, hu, hs, hw.mpr hs⟩

end Tree

end Schema

end JsonBinding
