import JsonBinding.Inspection
import Mathlib

/-!
# Field properties

A field property is found at the first field of its name that may be read, whatever fields of that
name stand in front of it in the hierarchy.

* `Inspection.readable?`: the first field of a name that may be read; `find?_fieldProperties`: it is
  the field property of the name.
* `Inspection.fieldsOf`: the field properties of a hierarchy; `inspect_fields`: an inspection
  reports them.
* **`Inspection.hides_iff`**: when a field that is left out hides those of its name behind it.
* `Inspection.Vault.index`: classes with fields that hide none.
-/

namespace JsonBinding

namespace Inspection

/-! ## The field of a name that is read -/

/-- The first field of a name that may be read. -/
def readable? (fields : List Field) (name : String) : Option Field :=
  fields.find? fun f => isReadable f && f.name == name

variable {fields front rest : List Field} {hierarchy : List ClassInfo} {f : Field} {n : String}

theorem isReadable_of_isStatic (h : f.isStatic = true) : isReadable f = false := by
  simp [isReadable, h]

theorem isReadable_of_leftOut (h : f.isTransient = true ∨ isLeftOut f.annotations = true) :
    isReadable f = false := by
  rcases h with h | h <;> simp [isReadable, h]

theorem readable?_eq_none_iff :
    readable? fields n = none ↔ ∀ g ∈ fields, g.name = n → isReadable g = false := by
  simp only [readable?, List.find?_eq_none, Bool.and_eq_true, beq_iff_eq, not_and', Bool.not_eq_true]

theorem readable?_of_isStatic (h : ∀ g ∈ fields, g.name = n → g.isStatic = true) :
    readable? fields n = none :=
  readable?_eq_none_iff.mpr fun g hg hn => isReadable_of_isStatic (h g hg hn)

theorem readable?_append :
    readable? (front ++ rest) n = (readable? front n).or (readable? rest n) :=
  List.find?_append

theorem readable?_cons : readable? (f :: rest) n =
    if isReadable f && f.name == n then some f else readable? rest n := by
  rw [readable?, List.find?_cons]
  cases isReadable f && f.name == n <;> rfl

/-! ## Field properties -/

/-- The field property of a name is the first field of the name that may be read, unless the name is
claimed. -/
theorem find?_fieldProperties (fields : List Field) (claimed : List String) (n : String) :
    (fieldProperties fields claimed).find? (·.name == n) =
      if n ∈ claimed then none else readable? fields n := by
  induction fields generalizing claimed with
  | nil => simp [fieldProperties, readable?]
  | cons f rest ih =>
    rw [fieldProperties, readable?_cons]
    by_cases hf : f.name = n
    · subst hf
      by_cases hn : f.name ∈ claimed
      · simp [hn, ih]
      · cases isReadable f <;> simp [hn, ih]
    · have hclaim : n ∈ f.name :: claimed ↔ n ∈ claimed := by
        rw [List.mem_cons, or_iff_right (Ne.symm hf)]
      rw [beq_eq_false_iff_ne.mpr hf, Bool.and_false, if_neg Bool.false_ne_true]
      split
      · rw [List.find?_cons, beq_eq_false_iff_ne.mpr hf]
        simp only [ih, hclaim]
      · exact ih claimed

/-- The field properties of a hierarchy, the most derived class first. -/
def fieldsOf (hierarchy : List ClassInfo) : List Field :=
  fieldProperties (hierarchy.flatMap (·.fields))
    ((claims (hierarchy.flatMap (·.methods))).map (·.1))

theorem inspect_fields {ix : Index} {c t : ClassInfo} (h : ix.target c = .ok t) :
    (ix.inspect c).fields = fieldsOf (t :: ix.superclasses t) := by
  rw [Index.inspect, h]
  rfl

theorem find?_fieldsOf (h : n ∉ (claims (hierarchy.flatMap (·.methods))).map (·.1)) :
    (fieldsOf hierarchy).find? (·.name == n) = readable? (hierarchy.flatMap (·.fields)) n := by
  rw [fieldsOf, find?_fieldProperties, if_neg h]

/-- **When a field hides those behind it.** Let no getter claim the name of a field, let the fields
of that name in front of it be static, and let it be left out. Then what is found under the name is
what stands behind the field: nothing just when no field of the name behind it may be read, and the
first such field otherwise. -/
theorem hides_iff (hfields : hierarchy.flatMap (·.fields) = front ++ f :: rest)
    (hclaimed : f.name ∉ (claims (hierarchy.flatMap (·.methods))).map (·.1))
    (hfront : ∀ g ∈ front, g.name = f.name → g.isStatic = true)
    (hleft : f.isTransient = true ∨ isLeftOut f.annotations = true) :
    (f.name ∉ (fieldsOf hierarchy).map (·.name) ↔
      ∀ g ∈ rest, g.name = f.name → isReadable g = false) ∧
    (fieldsOf hierarchy).find? (·.name == f.name) = readable? rest f.name := by
  have hfind : (fieldsOf hierarchy).find? (·.name == f.name) = readable? rest f.name := by
    rw [find?_fieldsOf hclaimed, hfields, readable?_append, readable?_of_isStatic hfront,
      Option.none_or, readable?_cons, isReadable_of_leftOut hleft, Bool.false_and,
      if_neg Bool.false_ne_true]
  have hmem : f.name ∉ (fieldsOf hierarchy).map (·.name) ↔
      (fieldsOf hierarchy).find? (·.name == f.name) = none := by
    simp
  exact ⟨by rw [hmem, hfind, readable?_eq_none_iff], hfind⟩

/-! ## Fields that are read though they come second -/

namespace Vault

/-- A field that holds a text. -/
def text (name : String) (visibility : Visibility) : Field :=
  { name := name, type := .cls ⟨"java.lang.String"⟩, visibility := visibility }

/-- A field left out as transient, in front of a public one. -/
def cache : Field := { text "cache" .anywhere with isTransient := true }

/-- A field left out by an annotation, in front of a public one. -/
def secret : Field := { text "secret" .anywhere with annotations := [⟨.transient, []⟩] }

/-- A field left out as transient, in front of one that cannot be read. -/
def salt : Field := { text "salt" .anywhere with isTransient := true }

/-- The base, with two fields that anyone may read and one that only it may. -/
def base : ClassInfo :=
  { name := ⟨"com.acme.Base"⟩
    fields := [text "cache" .anywhere, text "secret" .anywhere, text "salt" .here] }

/-- A class whose fields are left out, each of them in front of one of the base. -/
def derived : ClassInfo :=
  { name := ⟨"com.acme.Derived"⟩
    superclass? := some base.name
    fields := [cache, secret, salt] }

/-- The two classes. -/
def index : Index := { classes := [base, derived], nodup_names := by decide }

theorem hierarchy_derived :
    index.target derived = .ok derived ∧ index.superclasses derived = [base] := by
  constructor <;> cbv

/-- A name stays hidden when the field behind it may not be read. -/
theorem hides_iff_salt :
    [derived, base].flatMap (·.fields) = [cache, secret] ++ salt :: base.fields ∧
    salt.name ∉ (claims ([derived, base].flatMap (·.methods))).map (·.1) ∧
    (∀ g ∈ [cache, secret], g.name = salt.name → g.isStatic = true) ∧
    salt.isTransient = true ∧
    salt.name ∉ (fieldsOf [derived, base]).map (·.name) := by
  have hfields : [derived, base].flatMap (·.fields) = [cache, secret] ++ salt :: base.fields := rfl
  have hclaimed : salt.name ∉ (claims ([derived, base].flatMap (·.methods))).map (·.1) := by decide
  have hfront : ∀ g ∈ [cache, secret], g.name = salt.name → g.isStatic = true := by decide
  exact ⟨hfields, hclaimed, hfront, rfl,
    (hides_iff hfields hclaimed hfront (.inl rfl)).1.mpr (by decide)⟩

/-- **A field that is left out hides no field that may be read.** The fields of the base are found
under the names of those that are left out, although these come first and no getter claims them. -/
theorem base_shown :
    claims ((derived :: index.superclasses derived).flatMap (·.methods)) = [] ∧
    backingField? ((derived :: index.superclasses derived).flatMap (·.fields)) "cache" =
      some cache ∧ cache.isTransient = true ∧
    backingField? ((derived :: index.superclasses derived).flatMap (·.fields)) "secret" =
      some secret ∧ isLeftOut secret.annotations = true ∧
    (index.inspect derived).fields = [text "cache" .anywhere, text "secret" .anywhere] := by
  rw [inspect_fields hierarchy_derived.1, hierarchy_derived.2]
  exact ⟨rfl, rfl, rfl, rfl, rfl, rfl⟩

end Vault

end Inspection

end JsonBinding
