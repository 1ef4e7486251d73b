import JsonBinding.Proofs.Property.NullPolicy

/-!
# Renamed properties

The annotations of a member may ask for a key other than the name of its property. An empty text
asks for nothing, but the first text is the only one that is looked at.

* `Renaming`: the key that annotations ask for when empty texts are passed over.
* `FirstText`, `Naming`: the first text, empty or not, and the key that it leads to.
* **`Naming.renaming_iff`**: the two keys are the same unless an empty text hides a later one.
* `Inspection.naming_of_mem_registered`: the key of a property is the one its first text leads to.
-/

namespace JsonBinding

open AnnotationUse (valueAttribute)

/-! ## Keys -/

/-- The text that an annotation of a member asks for as a key. -/
def AnnotationUse.renaming? (a : AnnotationUse) : Option String :=
  if a.kind = .property then a.string? valueAttribute else none

/-- The first text that the annotations of a member ask for. -/
inductive FirstText (member : List AnnotationUse) : String → Prop
  | mk {front rest : List AnnotationUse} {a : AnnotationUse} {text : String} :
    member = front ++ a :: rest → (∀ x ∈ front, x.renaming? = none) → a.renaming? = some text →
    FirstText member text

/-- The key that the annotations of a member ask for: the first text that is not empty, and a
default when there is none. -/
inductive Renaming (member : List AnnotationUse) (default : String) : String → Prop
  | said {front rest : List AnnotationUse} {a : AnnotationUse} {key : String} :
    member = front ++ a :: rest → (∀ x ∈ front, ∀ text ∈ x.renaming?, text = "") →
    a.renaming? = some key → key ≠ "" → Renaming member default key
  | default : (∀ x ∈ member, ∀ text ∈ x.renaming?, text = "") → Renaming member default default

/-- The key that the first text leads to: the text, or a default when it is empty or missing. -/
inductive Naming (member : List AnnotationUse) (default : String) : String → Prop
  | first {text : String} : FirstText member text → text ≠ "" → Naming member default text
  | default : (∀ text, FirstText member text → text = "") → Naming member default default

variable {member : List AnnotationUse} {default key text : String}

theorem firstText_iff : FirstText member text ↔ member.findSome? (·.renaming?) = some text := by
  rw [List.findSome?_eq_some_iff]
  constructor
  · rintro ⟨hsplit, hfront, ha⟩
    exact ⟨_, _, _, hsplit, ha, hfront⟩
  · rintro ⟨_, _, _, hsplit, ha, hfront⟩
    exact ⟨hsplit, hfront, ha⟩

/-- The text of an annotation when it is not empty. -/
def AnnotationUse.filled? (a : AnnotationUse) : Option String := a.renaming?.filter (!·.isEmpty)

theorem AnnotationUse.filled?_eq_some_iff {a : AnnotationUse} :
    a.filled? = some text ↔ a.renaming? = some text ∧ text ≠ "" := by
  simp [filled?, Option.filter_eq_some_iff]

theorem AnnotationUse.filled?_eq_none_iff {a : AnnotationUse} :
    a.filled? = none ↔ ∀ text ∈ a.renaming?, text = "" := by
  simp [filled?, Option.filter_eq_none_iff]

theorem renaming_iff :
    Renaming member default key ↔ (member.findSome? (·.filled?)).getD default = key := by
  constructor
  · intro h
    cases h with
    | said hsplit hfront ha hne =>
      rw [List.findSome?_eq_some_iff.mpr ⟨_, _, _, hsplit,
        AnnotationUse.filled?_eq_some_iff.mpr ⟨ha, hne⟩,
        fun x hx => AnnotationUse.filled?_eq_none_iff.mpr (hfront x hx)⟩]
      rfl
    | default hnone =>
      rw [List.findSome?_eq_none_iff.mpr fun x hx =>
        AnnotationUse.filled?_eq_none_iff.mpr (hnone x hx)]
      rfl
  · rintro rfl
    cases hfilled : member.findSome? (·.filled?) with
    | some key =>
      obtain ⟨_, _, _, hsplit, ha, hfront⟩ := List.findSome?_eq_some_iff.mp hfilled
      obtain ⟨ha, hne⟩ := AnnotationUse.filled?_eq_some_iff.mp ha
      exact .said hsplit (fun x hx => AnnotationUse.filled?_eq_none_iff.mp (hfront x hx)) ha hne
    | none =>
      exact .default fun x hx =>
        AnnotationUse.filled?_eq_none_iff.mp (List.findSome?_eq_none_iff.mp hfilled x hx)

/-- The key that the first text leads to. -/
def firstKey (member : List AnnotationUse) (default : String) : String :=
  ((member.findSome? (·.renaming?)).filter (!·.isEmpty)).getD default

theorem naming_iff : Naming member default key ↔ firstKey member default = key := by
  rw [firstKey]
  constructor
  · intro h
    cases h with
    | first hfirst hne => simp [firstText_iff.mp hfirst, Option.filter_some, hne]
    | default hnone =>
      have hfilter : (member.findSome? (·.renaming?)).filter (!·.isEmpty) = none := by
        simpa [Option.filter_eq_none_iff, firstText_iff] using hnone
      rw [hfilter, Option.getD_none]
  · rintro rfl
    cases hfilter : (member.findSome? (·.renaming?)).filter (!·.isEmpty) with
    | some text =>
      obtain ⟨hfirst, hne⟩ := Option.filter_eq_some_iff.mp hfilter
      exact .first (firstText_iff.mpr hfirst) (by simpa using hne)
    | none => exact .default fun text hfirst => by simpa [firstText_iff.mp hfirst] using hfilter

/-- **The first text and the first one that is not empty lead to one key, unless** an empty text is
the first and a later one asks for another key than the default. -/
theorem Naming.renaming_iff (h : Naming member default key) : Renaming member default key ↔
    ¬ (FirstText member "" ∧ ∃ later, later ≠ default ∧ Renaming member default later) := by
  cases h with
  | @first text hfirst hne =>
    obtain ⟨hsplit, hfront, ha⟩ := hfirst
    refine iff_of_true (.said hsplit (fun x hx text ht => ?_) ha hne) fun ⟨hempty, _⟩ => hne ?_
    · rw [hfront x hx] at ht
      cases ht
    · have hfirst := firstText_iff.mp (.mk hsplit hfront ha)
      exact Option.some.inj (hfirst.symm.trans (firstText_iff.mp hempty))
  | default hnone =>
    cases hfirst : member.findSome? (·.renaming?) with
    | some text =>
      obtain rfl := hnone text (firstText_iff.mpr hfirst)
      have hempty : FirstText member "" := firstText_iff.mpr hfirst
      simp [hempty, JsonBinding.renaming_iff]
    | none =>
      have hsilent := List.findSome?_eq_none_iff.mp hfirst
      refine iff_of_true (.default fun x hx text ht => ?_) fun ⟨hempty, _⟩ => ?_
      · rw [hsilent x hx] at ht
        cases ht
      · cases hfirst.symm.trans (firstText_iff.mp hempty)

/-! ## The key of a property -/

namespace Inspection

variable {settings : Settings} {shared : AnnotationSet} {p : Property}

theorem Annotated.naming (h : Annotated settings member shared p)
    (hshared : ∀ x ∈ shared, x.1.isMember = false) : Naming member p.name p.key := by
  obtain ⟨front, hannotations, hfront, rfl⟩ := h.annotations
  rw [h.key, hannotations, naming_iff, firstKey, AnnotationSet.rename?,
    AnnotationSet.findSome?_onMember (·.string? valueAttribute) hfront hshared]
  rfl

/-- The key of a property is the one that the first text of its annotations leads to. -/
theorem naming_of_mem_registered {ix : Index} {c t : ClassInfo} (ht : ix.target c = .ok t)
    (hp : p ∈ (ix.inspect c).registered settings) :
    Naming (memberAnnotations (t :: ix.superclasses t) p.name) p.name p.key :=
  (annotated_of_mem_registered ht hp).2.naming Index.isMember_classAnnotations

end Inspection

end JsonBinding
