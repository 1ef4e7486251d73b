import JsonBinding.Proofs.Index.Redeclaration
import JsonBinding.Proofs.Property.Rekeying
import JsonBinding.Proofs.Property.Renaming

/-!
# Empty texts in annotations

A scanner may write down that an annotation has no value of its own as an empty text. As the first
text of a member is the only one that is looked at, an empty text in front of a later one hides it.

* `AnnotationUse.Blanked`, `Index.Redeclaration.Blanks`: empty texts are added to annotations of
  methods and fields that had none.
* `firstKey_blanked_iff`: the keys that change.
* `Inspection.names_registered_blanked`, `memberAnnotations_blanked`: the same properties are found,
  at members with blanked annotations.
* **`Inspection.renaming_exact`**: the key of a property, and when empty texts show.
* `Inspection.Item.index`: a class where they do.
-/

namespace JsonBinding

open AnnotationUse (valueAttribute)
open Index (Redeclaration)

/-! ## Blanked members -/

/-- An annotation, and the same one with an empty text in case that it may have a text and has no
value. -/
inductive AnnotationUse.Blanked : AnnotationUse → AnnotationUse → Prop
  | same (a : AnnotationUse) : Blanked a a
  | added {front back : Members} (h : Json.lookup (front ++ back) valueAttribute = none) :
    Blanked ⟨.property, front ++ back⟩ ⟨.property, front ++ (valueAttribute, .str "") :: back⟩

/-- A method, and the same one with blanked annotations. -/
inductive Method.Blanked : Method → Method → Prop
  | mk {m : Method} {annotations : List AnnotationUse} :
    List.Forall₂ AnnotationUse.Blanked m.annotations annotations →
    Blanked m { m with annotations }

/-- A field, and the same one with blanked annotations. -/
inductive Field.Blanked : Field → Field → Prop
  | mk {f : Field} {annotations : List AnnotationUse} :
    List.Forall₂ AnnotationUse.Blanked f.annotations annotations →
    Blanked f { f with annotations }

/-- The methods and fields of all classes with blanked annotations. -/
structure Index.Redeclaration.Blanks (r : Redeclaration) : Prop where
  methods (c : ClassInfo) : List.Forall₂ Method.Blanked c.methods (r.methods c)
  fields (c : ClassInfo) : List.Forall₂ Field.Blanked c.fields (r.fields c)

/-- The annotation with an empty text in case that it may have a text and has no value. -/
def AnnotationUse.emptied (a : AnnotationUse) : AnnotationUse :=
  if a.kind = .property ∧ a.get? valueAttribute = none then
    { a with values := (valueAttribute, .str "") :: a.values }
  else a

/-- All methods and fields with empty texts wherever an annotation may have one. -/
def Index.Redeclaration.emptied : Redeclaration where
  methods c := c.methods.map fun m => { m with annotations := m.annotations.map (·.emptied) }
  fields c := c.fields.map fun f => { f with annotations := f.annotations.map (·.emptied) }

theorem AnnotationUse.blanked_emptied (a : AnnotationUse) : a.Blanked a.emptied := by
  rw [emptied]
  split_ifs with h
  · obtain ⟨kind, values⟩ := a
    obtain ⟨rfl, hnone⟩ := h
    exact @Blanked.added [] values hnone
  · exact .same a

theorem Index.Redeclaration.blanks_emptied : emptied.Blanks := by
  have huses (uses : List AnnotationUse) :
      List.Forall₂ AnnotationUse.Blanked uses (uses.map (·.emptied)) :=
    List.forall₂_map_right_iff.mpr (List.forall₂_same.mpr fun a _ => a.blanked_emptied)
  exact ⟨fun c => List.forall₂_map_right_iff.mpr (List.forall₂_same.mpr fun m _ => .mk (huses _)),
    fun c => List.forall₂_map_right_iff.mpr (List.forall₂_same.mpr fun f _ => .mk (huses _))⟩

section Annotations

variable {a a' : AnnotationUse} {member member' : List AnnotationUse} {default key key' : String}

theorem AnnotationUse.Blanked.kind (h : a.Blanked a') : a'.kind = a.kind := by
  cases h <;> rfl

theorem AnnotationUse.Blanked.renaming? (h : a.Blanked a') :
    a'.renaming? = a.renaming? ∨ a.renaming? = none ∧ a'.renaming? = some "" := by
  cases h with
  | same => exact .inl rfl
  | @added front back h =>
    have hfront : front.find? (·.1 == valueAttribute) = none := by
      rw [Json.lookup, Option.map_eq_none_iff, List.find?_append, Option.or_eq_none_iff] at h
      exact h.1
    refine .inr ⟨?_, ?_⟩
    · simp [AnnotationUse.renaming?, string?, get?, h]
    · simp [AnnotationUse.renaming?, string?, get?, Json.lookup, List.find?_append, hfront,
        Json.string?]

theorem isLeftOut_blanked (h : List.Forall₂ AnnotationUse.Blanked member member') :
    Inspection.isLeftOut member' = Inspection.isLeftOut member := by
  induction h with
  | nil => rfl
  | cons ha _ ih =>
    rw [Inspection.isLeftOut, List.any_cons, ha.kind]
    exact congrArg _ ih

/-- An empty text that comes first is all that blanking may change. -/
theorem findSome?_blanked (h : List.Forall₂ AnnotationUse.Blanked member member') :
    member'.findSome? (·.renaming?) = member.findSome? (·.renaming?) ∨
      member'.findSome? (·.renaming?) = some "" := by
  induction h with
  | nil => exact .inl rfl
  | cons ha _ ih =>
    rw [List.findSome?_cons, List.findSome?_cons]
    rcases ha.renaming? with hsame | ⟨-, hempty⟩
    · rw [hsame]
      split
      · exact .inl rfl
      · exact ih
    · rw [hempty]
      exact .inr rfl

/-- Whether annotations asked for a key other than the default and an empty text now comes first. -/
def Hides (member member' : List AnnotationUse) (default : String) : Prop :=
  ∃ text, FirstText member text ∧ text ≠ "" ∧ text ≠ default ∧ FirstText member' ""

theorem firstKey_blanked_iff (h : List.Forall₂ AnnotationUse.Blanked member member') :
    firstKey member default = firstKey member' default ↔ ¬ Hides member member' default := by
  rw [firstKey, firstKey, Hides]
  simp only [firstText_iff]
  rcases findSome?_blanked h with hsame | hempty
  · rw [hsame]
    refine iff_of_true rfl ?_
    rintro ⟨text, htext, hne, -, hempty⟩
    exact hne (Option.some.inj (htext.symm.trans hempty))
  · rw [hempty]
    cases member.findSome? (·.renaming?) with
    | none => simp [Option.filter_some]
    | some text => by_cases ht : text = "" <;> simp [Option.filter_some, ht]

end Annotations

/-! ## Blanked classes -/

namespace Inspection

/-- What is found first of two lists that correspond to each other. -/
theorem forall₂_find? {α β : Type} {R : α → β → Prop} {xs : List α} {ys : List β} {p : α → Bool}
    {q : β → Bool} (h : List.Forall₂ R xs ys) (hpq : ∀ x y, R x y → q y = p x) :
    Option.Rel R (xs.find? p) (ys.find? q) := by
  induction h with
  | nil => exact .none
  | @cons x y _ _ hxy _ ih =>
    rw [List.find?_cons, List.find?_cons, hpq x y hxy]
    cases p x with
    | true => exact .some hxy
    | false => exact ih

variable {m m' : Method} {f f' : Field} {methods methods' : List Method}
  {fields fields' : List Field} {n : String}

theorem property?_blanked (h : m.Blanked m') : Bean.property? m' = Bean.property? m := by
  cases h
  rfl

theorem isReadable_blanked (h : f.Blanked f') : isReadable f' = isReadable f := by
  obtain ⟨h⟩ := h
  simp only [isReadable, isLeftOut_blanked h]

theorem getter?_blanked (h : List.Forall₂ Method.Blanked methods methods') :
    Option.Rel Method.Blanked (getter? methods n) (getter? methods' n) :=
  forall₂_find? h fun _ _ hm => by rw [property?_blanked hm]

theorem backingField?_blanked (h : List.Forall₂ Field.Blanked fields fields') :
    Option.Rel Field.Blanked (backingField? fields n) (backingField? fields' n) :=
  forall₂_find? h fun _ _ ⟨_⟩ => rfl

theorem readable?_blanked (h : List.Forall₂ Field.Blanked fields fields') :
    Option.Rel Field.Blanked (readable? fields n) (readable? fields' n) :=
  forall₂_find? h fun _ _ hf => by
    rw [isReadable_blanked hf]
    cases hf
    rfl

theorem claims_blanked (h : List.Forall₂ Method.Blanked methods methods') :
    List.Forall₂ (fun x x' => x'.1 = x.1 ∧ x.2.Blanked x'.2) (claims methods)
      (claims methods') := by
  have hnamed : List.Forall₂ (fun x x' : String × Method => x'.1 = x.1 ∧ x.2.Blanked x'.2)
      (methods.filterMap fun m => (Bean.property? m).map (·, m))
      (methods'.filterMap fun m => (Bean.property? m).map (·, m)) := by
    refine List.rel_filterMap (fun m m' hm => ?_) h
    rw [property?_blanked hm]
    cases Bean.property? m with
    | none => exact .none
    | some n => exact .some ⟨rfl, hm⟩
  rw [claims, claims]
  generalize methods.filterMap _ = xs at hnamed ⊢
  generalize methods'.filterMap _ = xs' at hnamed ⊢
  induction hnamed with
  | nil => exact .nil
  | @cons x x' _ _ hx _ ih =>
    rw [firstOfEachName, firstOfEachName, hx.1]
    refine .cons ⟨rfl, hx.2⟩ (List.rel_filter (fun y y' hy => ?_) ih)
    simp only [hy.1]

theorem names_claims_blanked (h : List.Forall₂ Method.Blanked methods methods') :
    (claims methods').map (·.1) = (claims methods).map (·.1) := by
  have hclaims := claims_blanked h
  generalize claims methods = xs at hclaims ⊢
  generalize claims methods' = xs' at hclaims ⊢
  induction hclaims with
  | nil => rfl
  | cons hx _ ih => rw [List.map_cons, List.map_cons, hx.1, ih]

theorem any_isLeftOut_blanked {f? f'? : Option Field} (h : Option.Rel Field.Blanked f? f'?) :
    f'?.any (isLeftOut ·.annotations) = f?.any (isLeftOut ·.annotations) := by
  cases h with
  | none => rfl
  | some hf =>
    obtain ⟨hf⟩ := hf
    exact isLeftOut_blanked hf

theorem annotations_blanked {f? f'? : Option Field} (h : Option.Rel Field.Blanked f? f'?) :
    List.Forall₂ AnnotationUse.Blanked (f?.elim [] (·.annotations))
      (f'?.elim [] (·.annotations)) := by
  cases h with
  | none => exact .nil
  | some hf =>
    obtain ⟨hf⟩ := hf
    exact hf

theorem names_getterProperties_blanked (h : List.Forall₂ Method.Blanked methods methods')
    (hf : List.Forall₂ Field.Blanked fields fields') :
    (getterProperties methods' fields').map (·.name) =
      (getterProperties methods fields).map (·.name) := by
  have hback (n : String) := any_isLeftOut_blanked (backingField?_blanked hf (n := n))
  have hclaims := claims_blanked h
  rw [getterProperties, getterProperties]
  generalize claims methods = xs at hclaims ⊢
  generalize claims methods' = xs' at hclaims ⊢
  induction hclaims with
  | nil => rfl
  | @cons x x' _ _ hx _ ih =>
    obtain ⟨n, m⟩ := x
    obtain ⟨n', m'⟩ := x'
    obtain rfl : n' = n := hx.1
    have hleft : isLeftOut m'.annotations = isLeftOut m.annotations := by
      obtain ⟨hm⟩ : m.Blanked m' := hx.2
      exact isLeftOut_blanked hm
    rw [List.filterMap_cons, List.filterMap_cons]
    dsimp only
    rw [hback n', hleft]
    split_ifs
    · exact ih
    · exact congrArg (List.cons n') ih

theorem names_fieldProperties_blanked (h : List.Forall₂ Field.Blanked fields fields')
    (claimed : List String) : (fieldProperties fields' claimed).map (·.name) =
      (fieldProperties fields claimed).map (·.name) := by
  induction h generalizing claimed with
  | nil => rfl
  | @cons f f' _ _ hf _ ih =>
    have hname : f'.name = f.name := by
      cases hf
      rfl
    rw [fieldProperties, fieldProperties, isReadable_blanked hf, hname]
    split_ifs
    · rw [List.map_cons, List.map_cons, hname, ih]
    · exact ih claimed

section Hierarchies

variable {r : Redeclaration} {hierarchy : List ClassInfo} {ix : Index} {c t : ClassInfo}

theorem methods_blanked (hr : r.Blanks) (hierarchy : List ClassInfo) :
    List.Forall₂ Method.Blanked (hierarchy.flatMap (·.methods))
      ((hierarchy.map r.apply).flatMap (·.methods)) := by
  induction hierarchy with
  | nil => exact .nil
  | cons c _ ih => exact List.rel_append (hr.methods c) ih

theorem fields_blanked (hr : r.Blanks) (hierarchy : List ClassInfo) :
    List.Forall₂ Field.Blanked (hierarchy.flatMap (·.fields))
      ((hierarchy.map r.apply).flatMap (·.fields)) := by
  induction hierarchy with
  | nil => exact .nil
  | cons c _ ih => exact List.rel_append (hr.fields c) ih

theorem memberAnnotations_blanked (hr : r.Blanks) (hierarchy : List ClassInfo) (n : String) :
    List.Forall₂ AnnotationUse.Blanked (memberAnnotations hierarchy n)
      (memberAnnotations (hierarchy.map r.apply) n) := by
  have hgetter := getter?_blanked (methods_blanked hr hierarchy) (n := n)
  have hfields := fields_blanked hr hierarchy
  rw [memberAnnotations, memberAnnotations]
  generalize getter? (hierarchy.flatMap (·.methods)) n = m? at hgetter ⊢
  generalize getter? ((hierarchy.map r.apply).flatMap (·.methods)) n = m'? at hgetter ⊢
  cases hgetter with
  | none => exact annotations_blanked (readable?_blanked hfields)
  | some hm =>
    obtain ⟨hm⟩ := hm
    exact List.rel_append hm (annotations_blanked (backingField?_blanked hfields))

theorem names_registered_blanked (hr : r.Blanks) (ht : ix.target c = .ok t)
    (settings : Settings) :
    (((ix.redeclared r).inspect (r.apply c)).registered settings).map (·.name) =
      ((ix.inspect c).registered settings).map (·.name) := by
  have ht' : (ix.redeclared r).target (r.apply c) = .ok (r.apply t) := by
    rw [Index.target_redeclared, ht]
    rfl
  have hmethods := methods_blanked hr (t :: ix.superclasses t)
  have hfields := fields_blanked hr (t :: ix.superclasses t)
  rw [map_name_registered, map_name_registered, Index.inspect, Index.inspect, ht, ht']
  dsimp only
  rw [Index.superclasses_redeclared, ← List.map_cons, names_claims_blanked hmethods,
    names_getterProperties_blanked hmethods hfields, names_fieldProperties_blanked hfields]

end Hierarchies

/-- **The key of a property, and when empty texts show.** The key is the one that the first text of
the getter's and then of the field's annotations leads to; it is the one that the first non-empty
text leads to unless an empty text hides another key than the name. When empty texts are added to
annotations of methods and fields, the same properties are written under the same keys in the same
order just when none that is written, before or after, has a text hidden that was its key. -/
theorem renaming_exact (ix : Index) (c : ClassInfo) (settings : Settings)
    (h : (ix.inspect c).impossibility? = none) : ∃ t, ix.target c = .ok t ∧
      (ix.inspect c).effective = t.name ∧
      (∀ p ∈ (ix.inspect c).properties settings,
        p.accessor = accessor (t :: ix.superclasses t) p.name ∧
        Naming (memberAnnotations (t :: ix.superclasses t) p.name) p.name p.key ∧
        (Renaming (memberAnnotations (t :: ix.superclasses t) p.name) p.name p.key ↔
          ¬ (FirstText (memberAnnotations (t :: ix.superclasses t) p.name) "" ∧
            ∃ key, key ≠ p.name ∧
              Renaming (memberAnnotations (t :: ix.superclasses t) p.name) p.name key))) ∧
      ∀ r : Redeclaration, r.Blanks →
        (((ix.redeclared r).inspect (r.apply c)).impossibility? = none ∧
        ((((ix.redeclared r).inspect (r.apply c)).properties settings).map (·.outline) =
            ((ix.inspect c).properties settings).map (·.outline) ↔
          ∀ p ∈ (ix.inspect c).properties settings ++
              ((ix.redeclared r).inspect (r.apply c)).properties settings,
            ¬ Hides (memberAnnotations (t :: ix.superclasses t) p.name)
              (memberAnnotations ((t :: ix.superclasses t).map r.apply) p.name) p.name)) := by
  obtain ⟨t, ht, hname⟩ := exists_target h
  refine ⟨t, ht, hname, fun p hp => ?_, fun r hr => ?_⟩
  · have hfound := mem_registered_of_mem_properties hp
    have hnaming := naming_of_mem_registered ht hfound
    exact ⟨(annotated_of_mem_registered ht hfound).1, hnaming, hnaming.renaming_iff⟩
  · have ht' : (ix.redeclared r).target (r.apply c) = .ok (r.apply t) := by
      rw [Index.target_redeclared, ht]
      rfl
    have hshared : ((ix.redeclared r).inspect (r.apply c)).annotations =
        (ix.inspect c).annotations := by
      rw [Index.inspect, Index.inspect, ht, ht']
      exact Index.classAnnotations_redeclared
    have hkey : ∀ p ∈ (ix.inspect c).registered settings,
        p.key = firstKey (memberAnnotations (t :: ix.superclasses t) p.name) p.name :=
      fun p hp => (naming_iff.mp (naming_of_mem_registered ht hp)).symm
    have hkey' : ∀ p ∈ ((ix.redeclared r).inspect (r.apply c)).registered settings, p.key =
        firstKey (memberAnnotations ((t :: ix.superclasses t).map r.apply) p.name) p.name := by
      intro p hp
      rw [List.map_cons, ← Index.superclasses_redeclared]
      exact (naming_iff.mp (naming_of_mem_registered ht' hp)).symm
    have hnames := names_registered_blanked hr ht settings
    refine ⟨by rw [Index.inspect, ht'], ?_⟩
    -- The names are the same ones, and their keys differ where a text is hidden.
    rw [eq_comm, Property.properties_eq_arranged, Property.properties_eq_arranged, hshared,
      Property.outlines_eq_iff _ _ (fun n => firstKey (memberAnnotations _ n) n)
        (fun n => firstKey (memberAnnotations _ n) n) hkey hkey' hnames.symm]
    simp only [firstKey_blanked_iff (memberAnnotations_blanked hr _ _)]

/-! ## A class where an empty text shows -/

namespace Item

/-- A getter whose annotation gives no text. -/
def getName : Method where
  name := "getName"
  result := .cls ⟨"java.lang.String"⟩
  annotations := [⟨.property, [("nillable", .bool true)]⟩]

/-- A field whose annotation gives one. -/
def name : Field where
  name := "name"
  type := .cls ⟨"java.lang.String"⟩
  annotations := [⟨.property, [("value", .str "label")]⟩]

/-- A class whose getter has an annotation without a text in front of the one of its field. -/
def item : ClassInfo where
  name := ⟨"com.acme.Item"⟩
  methods := [getName]
  fields := [name]

/-- The class alone. -/
def index : Index := { classes := [item], nodup_names := by decide }

/-- The class when its getter's annotation has an empty text. -/
def emptied : ClassInfo := Redeclaration.emptied.apply item

theorem target_item : index.target item = .ok item := by cbv

theorem superclasses_item : index.superclasses item = [] := by cbv

theorem outline_item :
    ((index.inspect item).properties {}).map (·.outline) = [("name", "label")] := by
  cbv

theorem outline_emptied :
    (((index.redeclared .emptied).inspect emptied).properties {}).map (·.outline) =
      [("name", "name")] := by
  cbv

/-- The name that the field asks for is hidden. -/
theorem renaming_exact_item :
    (index.inspect item).impossibility? = none ∧
    (∀ p ∈ (index.inspect item).properties {},
      Naming (memberAnnotations [item] p.name) p.name p.key) ∧
    ∃ p ∈ (index.inspect item).properties {} ++
        ((index.redeclared .emptied).inspect emptied).properties {},
      Hides (memberAnnotations [item] p.name) (memberAnnotations [emptied] p.name) p.name := by
  have h : (index.inspect item).impossibility? = none := by cbv
  obtain ⟨t, ht, -, hkeys, hempty⟩ := renaming_exact index item {} h
  cases target_item.symm.trans ht
  rw [superclasses_item] at hkeys hempty
  refine ⟨h, fun p hp => (hkeys p hp).2.1, ?_⟩
  by_contra hnone
  simp only [not_exists, not_and] at hnone
  have hsame := (hempty .emptied Redeclaration.blanks_emptied).2.mpr hnone
  have houtline := (outline_emptied.symm.trans hsame).trans outline_item
  exact absurd houtline (by decide)

/-- The field asks for a name that is not empty, and the property is written under another key. -/
theorem label_hidden : Redeclaration.emptied.Blanks ∧
    ((index.inspect item).properties {}).map (·.outline) = [("name", "label")] ∧
    (((index.redeclared .emptied).inspect emptied).properties {}).map (·.outline) =
      [("name", "name")] ∧
    Renaming (memberAnnotations [emptied] "name") "name" "label" := by
  refine ⟨Redeclaration.blanks_emptied, outline_item, outline_emptied, ?_⟩
  exact renaming_iff.mpr (by cbv)

end Item

end Inspection

end JsonBinding
