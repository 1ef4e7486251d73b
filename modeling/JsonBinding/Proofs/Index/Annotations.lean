import JsonBinding.Index.Hierarchy
import JsonBinding.Property
import Mathlib.Tactic.SplitIfs

/-!
# Where annotations come from

Whatever is written of a class comes from the index: the classes of its hierarchy, their members and
the annotations on all of them.

* `walk_subset`, `superclasses_subset`, `implementors_subset`: hierarchies stay inside the index.
* `Inspection.mem_registered_of_mem_properties`: the properties that are written are among those
  found.
* **`Index.exists_member_of_mem_properties`**: the members that properties come from.
* `Index.Bears`, **`bears_of_mem_properties`**: the annotations of a property stand in the index.
-/

namespace JsonBinding

namespace Index

variable {ix : Index} {c d t : ClassInfo}

/-! ## Hierarchies -/

theorem ascent_subset (seen : List ClassName) (next? : Option ClassName) :
    (ix.ascent seen next?).1 ⊆ ix.classes := by
  induction seen, next? using ascent.induct ix with
  | case1 => simp [ascent]
  | case2 seen name hn => simp [ascent, hn]
  | case3 seen name hn hc =>
    rw [ascent, dif_neg hn]
    split
    · simp
    · simp_all
  | case4 seen name hn c hc chain cyclic he ih =>
    rw [ascent, dif_neg hn]
    split
    · simp
    · rename_i c' hc'
      rw [hc] at hc'
      cases hc'
      exact List.cons_subset.mpr ⟨mem_of_class? hc, ih⟩

theorem superclasses_subset (c : ClassInfo) : ix.superclasses c ⊆ ix.classes :=
  ascent_subset _ _

theorem walk_subset (next : ClassInfo → List ClassName) (seen pending : List ClassName) :
    ix.walk next seen pending ⊆ ix.classes := by
  induction seen, pending using walk.induct ix next with
  | case1 => simp [walk]
  | case2 seen name rest hn ih =>
    rw [walk, dif_pos hn]
    exact ih
  | case3 seen name rest hn hc ih =>
    rw [walk, dif_neg hn]
    split
    · exact ih
    · simp_all
  | case4 seen name rest hn c hc ih =>
    rw [walk, dif_neg hn]
    split
    · simp_all
    · rename_i c' hc'
      rw [hc] at hc'
      cases hc'
      exact List.cons_subset.mpr ⟨mem_of_class? hc, ih⟩

theorem mem_byName {cs : List ClassInfo} : c ∈ byName cs ↔ c ∈ cs := List.mem_mergeSort

theorem allInterfaces_subset (c : ClassInfo) : ix.allInterfaces c ⊆ ix.classes :=
  fun _ hd => walk_subset _ _ _ (mem_byName.mp hd)

theorem implementors_subset (name : ClassName) : ix.implementors name ⊆ ix.classes :=
  fun _ hd => walk_subset _ _ _ (List.mem_filter.mp (mem_byName.mp hd)).1

theorem mem_of_target (hc : c ∈ ix.classes) (ht : ix.target c = .ok t) : t ∈ ix.classes := by
  have done (d : ClassInfo) (hd : d ∈ ix.classes)
      (h : (if !d.typeParameters.isEmpty then Except.error (.generic d.typeParameters)
        else if ix.isCyclic d then Except.error Impossibility.cyclic else Except.ok d) = .ok t) :
      t ∈ ix.classes := by
    split_ifs at h
    cases h
    exact hd
  unfold target at ht
  cases hk : c.kind with
  | enum => rw [hk] at ht; cases ht
  | interface =>
    rw [hk] at ht
    cases hi : ix.implementors c.name with
    | nil => rw [hi] at ht; cases ht
    | cons d rest =>
      have hd : d ∈ ix.classes := implementors_subset c.name (hi ▸ List.mem_cons_self)
      cases rest with
      | nil => rw [hi] at ht; exact done d hd ht
      | cons => rw [hi] at ht; cases ht
  | cls =>
    rw [hk] at ht
    cases ha : c.isAbstract with
    | true => simp only [ha] at ht; cases ht
    | false => simp only [ha] at ht; exact done c hc ht

/-- The annotations on the classes, the members and the packages of an index. -/
def Bears (ix : Index) (a : AnnotationUse) : Prop :=
  (∃ c ∈ ix.classes, a ∈ c.annotations ∨ (∃ m ∈ c.methods, a ∈ m.annotations) ∨
    ∃ f ∈ c.fields, a ∈ f.annotations) ∨
  ∃ p ∈ ix.packages, a ∈ p.annotations

end Index

/-! ## Properties -/

namespace Property

variable {p q : Property} {ps : List Property}

theorem mem_register (h : p ∈ register q ps) : p = q ∨ p ∈ ps := by
  induction ps with
  | nil => exact .inl (List.mem_singleton.mp h)
  | cons r rest ih =>
    rw [register] at h
    split at h
    · exact List.mem_cons.mp h
    · rcases List.mem_cons.mp h with h | h
      · exact .inl h
      · exact .inr (List.mem_cons_of_mem _ h)
    · rcases List.mem_cons.mp h with h | h
      · exact .inr (h ▸ List.mem_cons_self)
      · exact (ih h).imp_right (List.mem_cons_of_mem _)

theorem mem_foldl_register (found : List Property)
    (h : p ∈ found.foldl (fun ps q => register q ps) ps) : p ∈ found ∨ p ∈ ps := by
  induction found generalizing ps with
  | nil => exact .inr h
  | cons q rest ih =>
    rcases ih h with h | h
    · exact .inl (List.mem_cons_of_mem _ h)
    · rcases mem_register h with rfl | h
      · exact .inl List.mem_cons_self
      · exact .inr h

theorem mem_front (names : List String) (h : p ∈ front names ps) : p ∈ ps := by
  induction names generalizing ps with
  | nil => exact h
  | cons n names ih =>
    rw [front] at h
    split at h
    · rename_i q hq
      rcases List.mem_cons.mp h with rfl | h
      · exact List.mem_of_find?_eq_some hq
      · exact List.mem_of_mem_eraseP (ih h)
    · exact ih h

end Property

namespace Inspection

theorem mem_registered_of_mem_properties {i : Inspection} {settings : Settings} {p : Property}
    (h : p ∈ i.properties settings) : p ∈ i.registered settings := by
  have h := Property.mem_front _ h
  have h : p ∈ (i.registered settings).foldl (fun ps q => Property.register q ps) [] := by
    split at h
    · exact List.mem_reverse.mp h
    · exact h
  exact (Property.mem_foldl_register _ h).resolve_right List.not_mem_nil

theorem mem_of_mem_firstOfEachName {claims : List (String × Method)} {x : String × Method}
    (h : x ∈ firstOfEachName claims) : x ∈ claims := by
  induction claims with
  | nil => cases h
  | cons y rest ih =>
    rw [firstOfEachName] at h
    rcases List.mem_cons.mp h with rfl | h
    · exact List.mem_cons_self
    · exact List.mem_cons_of_mem _ (ih (List.mem_filter.mp h).1)

theorem mem_of_mem_claims {methods : List Method} {x : String × Method} (h : x ∈ claims methods) :
    x.2 ∈ methods := by
  obtain ⟨m, hm, hx⟩ := List.mem_filterMap.mp (mem_of_mem_firstOfEachName h)
  obtain ⟨name, -, rfl⟩ := Option.map_eq_some_iff.mp hx
  exact hm

/-- The getter of a property and the field behind it are members of the hierarchy. -/
theorem mem_of_mem_getterProperties {methods : List Method} {fields : List Field}
    {g : GetterProperty} (h : g ∈ getterProperties methods fields) :
    g.getter ∈ methods ∧ ∀ f, g.field? = some f → f ∈ fields := by
  obtain ⟨⟨name, m⟩, hm, hg⟩ := List.mem_filterMap.mp h
  simp only at hg
  split_ifs at hg
  cases hg
  exact ⟨mem_of_mem_claims hm, fun f hf => List.mem_of_find?_eq_some hf⟩

theorem mem_of_mem_fieldProperties {fields : List Field} {claimed : List String} {f : Field}
    (h : f ∈ fieldProperties fields claimed) : f ∈ fields := by
  induction fields generalizing claimed with
  | nil => cases h
  | cons g rest ih =>
    rw [fieldProperties] at h
    split_ifs at h
    · rcases List.mem_cons.mp h with rfl | h
      · exact List.mem_cons_self
      · exact List.mem_cons_of_mem _ (ih h)
    · exact List.mem_cons_of_mem _ (ih h)

end Inspection

/-! ## Members -/

namespace Index

variable {ix : Index} {c : ClassInfo} {p : Property}

/-- **A property comes from a getter or from a field of a class of the index**, with the annotations
that bear on some class of the index. -/
theorem exists_member_of_mem_properties {settings : Settings} (hc : c ∈ ix.classes)
    (hp : p ∈ (ix.inspect c).properties settings) : ∃ t ∈ ix.classes,
      (∃ g, p = .ofGetter settings (ix.classAnnotations t) g ∧
        (∃ d ∈ ix.classes, g.getter ∈ d.methods) ∧
        ∀ f, g.field? = some f → ∃ d ∈ ix.classes, f ∈ d.fields) ∨
      ∃ f, p = .ofField settings (ix.classAnnotations t) f ∧ ∃ d ∈ ix.classes, f ∈ d.fields := by
  have hp := Inspection.mem_registered_of_mem_properties hp
  unfold inspect at hp
  cases ht : ix.target c with
  | error i => rw [ht] at hp; simp [Inspection.registered] at hp
  | ok t =>
    rw [ht] at hp
    have ht := mem_of_target hc ht
    have hier : ∀ d ∈ t :: ix.superclasses t, d ∈ ix.classes :=
      fun d hd => (List.mem_cons.mp hd).elim (· ▸ ht) (superclasses_subset t ·)
    have hfield : ∀ f ∈ (t :: ix.superclasses t).flatMap (·.fields),
        ∃ d ∈ ix.classes, f ∈ d.fields := by
      intro f hf
      obtain ⟨d, hd, hf⟩ := List.mem_flatMap.mp hf
      exact ⟨d, hier d hd, hf⟩
    refine ⟨t, ht, ?_⟩
    rcases List.mem_append.mp hp with hp | hp
    · obtain ⟨g, hg, rfl⟩ := List.mem_map.mp hp
      obtain ⟨hgm, hgf⟩ := Inspection.mem_of_mem_getterProperties hg
      obtain ⟨d, hd, hgm⟩ := List.mem_flatMap.mp hgm
      exact .inl ⟨g, rfl, ⟨d, hier d hd, hgm⟩, fun f hf => hfield f (hgf f hf)⟩
    · obtain ⟨f, hf, rfl⟩ := List.mem_map.mp hp
      exact .inr ⟨f, rfl, hfield f (Inspection.mem_of_mem_fieldProperties hf)⟩

end Index

/-! ## Annotations -/

namespace Index

variable {ix : Index} {c t : ClassInfo} {x : AnnotationSource × AnnotationUse}

theorem mem_found {source : AnnotationSource} {uses : List AnnotationUse}
    (h : x ∈ AnnotationSet.found source uses) : x.2 ∈ uses := by
  obtain ⟨a, ha, rfl⟩ := List.mem_map.mp h
  exact ha

theorem bears_of_mem_classAnnotations (ht : t ∈ ix.classes) (h : x ∈ ix.classAnnotations t) :
    ix.Bears x.2 := by
  rw [classAnnotations, List.mem_append, List.mem_append] at h
  rcases h with (h | h) | h
  · exact .inl ⟨t, ht, .inl (mem_found h)⟩
  · obtain ⟨d, hd, hx⟩ := List.mem_flatMap.mp h
    have hd : d ∈ ix.classes := by
      rcases List.mem_append.mp hd with hd | hd
      · exact superclasses_subset t hd
      · exact allInterfaces_subset t hd
    exact .inl ⟨d, hd, .inl (mem_found hx)⟩
  · cases hp : ix.packageOf? t.name with
    | none => rw [hp] at h; cases h
    | some p =>
      rw [hp] at h
      obtain ⟨name, -, hp⟩ := Option.bind_eq_some_iff.mp hp
      exact .inr ⟨p, List.mem_reverse.mp (List.mem_of_find?_eq_some hp), mem_found h⟩

/-- **The annotations of a property stand in the index.** -/
theorem bears_of_mem_properties {settings : Settings} {p : Property} (hc : c ∈ ix.classes)
    (hp : p ∈ (ix.inspect c).properties settings) (hx : x ∈ p.annotations) : ix.Bears x.2 := by
  have hfield : ∀ {f : Field} {a : AnnotationUse}, (∃ d ∈ ix.classes, f ∈ d.fields) →
      a ∈ f.annotations → ix.Bears a := fun ⟨d, hd, hf⟩ ha => .inl ⟨d, hd, .inr (.inr ⟨_, hf, ha⟩)⟩
  obtain ⟨t, ht, ⟨g, rfl, ⟨d, hd, hgm⟩, hgf⟩ | ⟨f, rfl, hf⟩⟩ :=
    exists_member_of_mem_properties hc hp
  · rcases List.mem_append.mp hx with hx | hx
    · rcases List.mem_append.mp hx with hx | hx
      · exact .inl ⟨d, hd, .inr (.inl ⟨_, hgm, mem_found hx⟩)⟩
      · cases hfound : g.field? with
        | none => rw [hfound] at hx; cases hx
        | some f => rw [hfound] at hx; exact hfield (hgf f hfound) (mem_found hx)
    · exact bears_of_mem_classAnnotations ht hx
  · rcases List.mem_append.mp hx with hx | hx
    · exact hfield hf (mem_found hx)
    · exact bears_of_mem_classAnnotations ht hx

end Index

end JsonBinding
