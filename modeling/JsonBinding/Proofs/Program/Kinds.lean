import JsonBinding.Proofs.Program.Ensures
import JsonBinding.Reflection

/-!
# Forms and kinds

A program writes a value by the form of its type, the generic writer by the kind of its type.

* `Schema.EnumsApart`: the enums that have another form than their kind says are none.
* `class_of_string`, `class_of_date`, `class_of_object`: the classes of some forms.
* `kind_of_primitive`, `kind_of_boxed`, `kind_of_collection`, **`kind_eq_optional_iff`**: the kind
  of a type of some form.
* **`kind_ne_optional`**: the kind of what is left to the generic writer.
-/

namespace JsonBinding

namespace Schema

variable {s : Schema} {t : TypeRef} {v : Variant} {n : ClassName}

variable (s) in
/-- No enum bears the name of a date class or of an optional of a primitive. -/
def EnumsApart : Prop :=
  ∀ n, s.isEnum n = true → n.text ∉ Platform.dates ∧ n.text ∉ Platform.primitiveOptionals

theorem enumsApart_of_classes (h : ∀ c ∈ s.index.classes, c.kind ≠ .enum) : s.EnumsApart := by
  intro n hn
  cases hc : s.index.class? n with
  | none =>
    rw [isEnum, hc] at hn
    cases hn
  | some c =>
    rw [isEnum, hc] at hn
    exact absurd (of_decide_eq_true hn) (h c (Index.mem_of_class? hc))

/-! ## The kind of a form -/

theorem dates_apart : ∀ x ∈ Platform.dates, x ∉ Platform.primitiveOptionals := by decide

theorem strings_apart : ∀ x ∈ Platform.strings, x ∉ Platform.primitiveOptionals := by decide

theorem kind_plainClass (hb : n.text ∉ Platform.boxed) (ho : n.text ∉ Platform.primitiveOptionals) :
    (TypeRef.cls n).kind = .plainClass := by
  rw [TypeRef.kind, if_neg hb, if_neg ho]

/-- The form of a class by its name. -/
theorem variant?_cls_cases (h : s.variant? (.cls n) = some v) :
    n.text ∈ Platform.boxed ∧ v = .boxed ∨
    n.text ∉ Platform.boxed ∧ (n.text ∈ Platform.strings ∨ s.isEnum n = true) ∧ v = .string ∨
    n.text ∉ Platform.boxed ∧ n.text ∉ Platform.strings ∧ s.isEnum n = false ∧
      (n.text ∈ Platform.dates ∧ v = .date ∨
        n.text ∉ Platform.dates ∧ n.text ∈ Platform.primitiveOptionals ∧ v = .optional ∨
        n.text ∉ Platform.dates ∧ n.text ∉ Platform.primitiveOptionals ∧ v = .object) := by
  simp only [variant?] at h
  split_ifs at h with hb hs hd ho hp <;> cases h
  · exact .inl ⟨hb, rfl⟩
  · simp only [Bool.or_eq_true, decide_eq_true_eq] at hs
    exact .inr (.inl ⟨hb, hs, rfl⟩)
  all_goals
    simp only [Bool.or_eq_true, decide_eq_true_eq, not_or, Bool.not_eq_true] at hs
    refine .inr (.inr ⟨hb, hs.1, hs.2, ?_⟩)
  · exact .inl ⟨hd, rfl⟩
  · exact .inr (.inl ⟨hd, ho, rfl⟩)
  · exact .inr (.inr ⟨hd, ho, rfl⟩)

theorem exists_cls (h : s.variant? t = some v) (hv : v ∈ [.boxed, .string, .date, .object]) :
    ∃ n, t = .cls n := by
  cases t with
  | cls n => exact ⟨n, rfl⟩
  | prim p => cases p <;> cases h <;> simp at hv
  | array c => cases h; simp at hv
  | app raw args =>
    simp only [variant?] at h
    split at h <;> cases h <;> simp at hv
  | var _ | wildcard => cases h

/-- The name of an enum may be that of a date or of an optional for primitives, but of no boxed
primitive. -/
theorem class_of_string (h : s.variant? t = some .string) : ∃ n, t = .cls n ∧
    n.text ∉ Platform.boxed ∧ (n.text ∈ Platform.strings ∨ s.isEnum n = true) := by
  obtain ⟨n, rfl⟩ := exists_cls h (by decide)
  rcases variant?_cls_cases h with h | ⟨hb, hn, -⟩ | ⟨-, -, -, h⟩
  · simp at h
  · exact ⟨n, rfl, hb, hn⟩
  · simp at h

theorem class_of_date (h : s.variant? t = some .date) : ∃ n, t = .cls n ∧
    (TypeRef.cls n).kind = .plainClass ∧ n.text ∉ Platform.strings ∧ n.text ∈ Platform.dates := by
  obtain ⟨n, rfl⟩ := exists_cls h (by decide)
  rcases variant?_cls_cases h with h | h | ⟨hb, hs, -, ⟨hd, -⟩ | h | h⟩
  · simp at h
  · simp at h
  · exact ⟨n, rfl, kind_plainClass hb (dates_apart _ hd), hs, hd⟩
  · simp at h
  · simp at h

theorem class_of_object (h : s.variant? (.cls n) = some .object) :
    (TypeRef.cls n).kind = .plainClass ∧ n.text ∉ Platform.strings ∧ n.text ∉ Platform.dates ∧
      s.isEnum n = false := by
  rcases variant?_cls_cases h with h | h | ⟨hb, hs, he, h | h | ⟨hd, ho, -⟩⟩
  · simp at h
  · simp at h
  · simp at h
  · simp at h
  · exact ⟨kind_plainClass hb ho, hs, hd, he⟩

theorem eq_primitive_of_isPrimitive (h : s.variant? t = some v) (hp : t.isPrimitive = true) :
    v = .primitive := by
  cases t with
  | prim p => cases p <;> cases h <;> rfl
  | _ => cases hp

theorem kind_of_primitive (h : s.variant? t = some .primitive) : t.kind = .primitive := by
  cases t with
  | prim p => rfl
  | cls n => rcases variant?_cls_cases h with h | h | h <;> simp at h
  | array c => cases h
  | app raw args => simp only [variant?] at h; split at h <;> cases h
  | var _ | wildcard => cases h

theorem kind_of_boxed (h : s.variant? t = some .boxed) :
    t.kind = .boxed ∧ t.boxedForm = t.scalarForm := by
  obtain ⟨n, rfl⟩ := exists_cls h (by decide)
  rcases variant?_cls_cases h with ⟨hb, -⟩ | h | h
  · exact ⟨by rw [TypeRef.kind, if_pos hb], rfl⟩
  · simp at h
  · simp at h

theorem kind_of_collection (h : s.variant? t = some .collection) :
    t.kind = .array ∨ t.kind = .collection := by
  cases t with
  | array c => exact .inl rfl
  | prim p => cases p <;> cases h
  | cls n => rcases variant?_cls_cases h with h | h | h <;> simp at h
  | app raw args =>
    simp only [variant?] at h
    split at h
    · exact .inr ‹_›
    · cases h
    · cases h
    · cases h
  | var _ | wildcard => cases h

theorem kind_eq_optional_iff (hs : s.EnumsApart) (h : s.variant? t = some v) :
    t.kind = .optional ↔ v = .optional := by
  cases t with
  | cls n =>
    rw [TypeRef.kind]
    rcases variant?_cls_cases h with ⟨hb, rfl⟩ | ⟨hb, he, rfl⟩ | ⟨hb, -, -, h⟩
    · simp [hb]
    · have ho : n.text ∉ Platform.primitiveOptionals :=
        he.elim (strings_apart _) fun he => (hs n he).2
      simp [hb, ho]
    · rcases h with ⟨hd, rfl⟩ | ⟨-, ho, rfl⟩ | ⟨-, ho, rfl⟩
      · simp [hb, dates_apart _ hd]
      · simp [hb, ho]
      · simp [hb, ho]
  | prim p => cases p <;> cases h <;> simp [TypeRef.kind]
  | array c => cases h; simp [TypeRef.kind]
  | app raw args =>
    simp only [variant?] at h
    split at h <;> cases h <;> simp [*]
  | var _ | wildcard => cases h

/-! ## Forms that block nothing -/

theorem not_blocked_of_parts (hh : ¬ s.Hopeless t) (hp : ∀ u, s.FirmPart t u → ¬ s.Blocked u) :
    ¬ s.Blocked t := by
  rintro ⟨u, hu, hh'⟩
  rcases hu.cases_head with rfl | ⟨w, hw, hu⟩
  · exact hh hh'
  · exact hp w hw ⟨u, hu, hh'⟩

theorem not_blocked_of_leaf (hv : s.variant? t = some v)
    (hl : v ∉ [.optional, .collection, .map, .object]) : ¬ s.Blocked t := by
  simp only [List.mem_cons, List.not_mem_nil, or_false, not_or] at hl
  refine not_blocked_of_parts (fun h => ?_) fun u h => ?_
  · have := h.by_form
    simp [hv, hl] at this
  · have := h.by_form
    simp [hv, hl] at this

theorem not_blocked_of_primitive (hv : s.variant? t = some .primitive) : ¬ s.Blocked t :=
  not_blocked_of_leaf hv (by decide)

theorem not_blocked_of_map {key u : TypeRef} (hv : s.variant? t = some .map)
    (hk : t.key? = some key) (hw : s.isWritableKey key = true) (hu : t.value? = some u)
    (hb : ¬ s.Blocked u) : ¬ s.Blocked t := by
  refine not_blocked_of_parts (fun h => ?_) fun w h => ?_
  · have := h.by_form
    simp [hv, hk, hu, hw] at this
  · have := h.by_form
    simp only [hv, hu, Option.some.injEq, reduceCtorEq, false_and, or_self, true_and, or_false,
      false_or] at this
    exact this ▸ hb

/-- A class is not blocked when those of its properties are not that cannot be left to the generic
writer. -/
theorem not_blocked_of_firm {c : ClassInfo} (hv : s.variant? (.cls n) = some .object)
    (hc : s.index.class? n = some c) (hi : (s.index.inspect c).impossibility? = none)
    (hp : ∀ p ∈ s.properties (s.index.inspect c), s.isDeferrable p.type = false →
      ¬ s.Blocked p.type) : ¬ s.Blocked (.cls n) := by
  refine not_blocked_of_parts (fun h => ?_) fun u h => ?_
  · have hf := h.by_form
    simp only [hv, Option.some.injEq, reduceCtorEq, false_and, or_self, false_or, true_and] at hf
    obtain ⟨k, hk, hn⟩ := hf
    cases hk
    exact hn c hc hi
  · have hf := h.by_form
    simp only [hv, Option.some.injEq, reduceCtorEq, false_and, or_self, false_or, true_and] at hf
    obtain ⟨p, ⟨k, c', hk, -, hc', hm⟩, hd, rfl⟩ := hf
    cases hk
    cases hc.symm.trans hc'
    exact hp p hm hd

theorem not_blocked_of_properties {c : ClassInfo} (hv : s.variant? (.cls n) = some .object)
    (hc : s.index.class? n = some c) (hi : (s.index.inspect c).impossibility? = none)
    (hp : ∀ p ∈ s.properties (s.index.inspect c), ¬ s.Blocked p.type) :
    ¬ s.Blocked (.cls n) :=
  not_blocked_of_firm hv hc hi fun p hm _ => hp p hm

theorem not_blocked_of_primitiveOptional (hv : s.variant? (.cls n) = some .optional) :
    ¬ s.Blocked (.cls n) := by
  have hk : (TypeRef.cls n).kind = .optional := by
    rcases variant?_cls_cases hv with h | h | ⟨hb, -, -, h⟩
    · simp at h
    · simp at h
    · rcases h with h | ⟨-, ho, -⟩ | h
      · simp at h
      · rw [TypeRef.kind, if_neg hb, if_pos ho]
      · simp at h
  obtain ⟨p, hp, hu⟩ : ∃ p, p ≠ .void ∧ (TypeRef.cls n).element? = some (.prim p) := by
    rw [TypeRef.element?, if_pos hk]
    split_ifs
    · exact ⟨_, by decide, rfl⟩
    · exact ⟨_, by decide, rfl⟩
    · exact ⟨_, by decide, rfl⟩
  refine not_blocked_of_parts (fun h => ?_) fun u h => ?_
  · have := h.by_form
    simp [hv, hu] at this
  · have := h.by_form
    simp only [hv, hu, true_and, Option.some.injEq, reduceCtorEq, false_and,
      or_false] at this
    subst this
    refine not_blocked_of_primitive ?_
    cases p with
    | void => exact absurd rfl hp
    | _ => rfl

theorem kind_ne_optional (hs : s.EnumsApart) (hf : s.formOf t = none)
    (hd : s.isDeferrable t = true) : t.kind ≠ .optional := by
  intro hk
  have hv : s.variant? t = some .optional := by
    cases t with
    | cls n =>
      rw [TypeRef.kind] at hk
      split_ifs at hk with hb ho
      have hd : n.text ∉ Platform.dates := fun hd => dates_apart _ hd ho
      have hn : n.text ∉ Platform.strings := fun hn => strings_apart _ hn ho
      have he : s.isEnum n = false := Bool.eq_false_iff.mpr fun he => (hs n he).2 ho
      simp [variant?, hb, ho, hd, hn, he]
    | array c => cases hk
    | _ => cases hd
  cases t with
  | cls n =>
    rw [formOf_eq_some_iff.mpr ⟨not_blocked_of_primitiveOptional hv, hv⟩] at hf
    cases hf
  | array c => cases hk
  | _ => cases hd

end Schema

end JsonBinding
