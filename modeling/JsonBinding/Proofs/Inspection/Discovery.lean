import JsonBinding.Proofs.Index.Fields
import JsonBinding.Proofs.Index.Reordering
import JsonBinding.Proofs.Property.Order

/-!
# What an inspection finds

A property is found at the first getter of its name, or at the first field of its name that may be
read; a getter that is left out keeps its name from the fields all the same.

* `Inspection.getter?`: the first getter of a property.
* `mem_getterProperties`, `mem_fieldProperties`: the getters and the fields that are found;
  `exists_getterProperty_iff`, `exists_fieldProperty_iff`: their names.
* `sublist_getters`, `sublist_fields`: they keep the order of the hierarchy.
* `Inspection.Discovers`: the properties that are to be found in a hierarchy.
* **`discovery_exact`**: an inspection finds just these.
* `Inspection.Account.index`: classes whose getters, fields and fields behind getters stand at
  different levels.
-/

namespace JsonBinding

namespace Inspection

/-- The first method that gets a property. -/
def getter? (methods : List Method) (name : String) : Option Method :=
  methods.find? (Bean.property? · == some name)

variable {methods : List Method} {fields : List Field} {claimed : List String} {m : Method}
  {f : Field} {n : String} {xs : List (String × Method)}

/-! ## Getters -/

theorem getter?_eq_none_iff :
    getter? methods n = none ↔ ∀ m ∈ methods, Bean.property? m ≠ some n := by
  simp [getter?]

theorem mem_firstOfEachName : (n, m) ∈ firstOfEachName xs ↔ xs.find? (·.1 == n) = some (n, m) := by
  induction xs with
  | nil => simp [firstOfEachName]
  | cons x rest ih =>
    obtain ⟨k, m'⟩ := x
    rw [firstOfEachName, List.mem_cons, List.mem_filter, ih, List.find?_cons]
    by_cases h : k = n
    · subst h
      simp [eq_comm]
    · rw [beq_eq_false_iff_ne.mpr h]
      simp [Ne.symm h]

theorem mem_claims : (n, m) ∈ claims methods ↔ getter? methods n = some m := by
  rw [claims, mem_firstOfEachName, getter?]
  induction methods with
  | nil => simp
  | cons m' rest ih =>
    rw [List.filterMap_cons, List.find?_cons]
    cases hp : Bean.property? m' with
    | none => simpa using ih
    | some k =>
      by_cases h : k = n
      · subst h
        simp
      · have hk : (some k == some n) = false := by simpa using h
        rw [Option.map_some, List.find?_cons, beq_eq_false_iff_ne.mpr h, hk]
        exact ih

theorem mem_map_claims :
    n ∈ (claims methods).map (·.1) ↔ ∃ m ∈ methods, Bean.property? m = some n := by
  constructor
  · intro h
    obtain ⟨⟨_, m⟩, hm, rfl⟩ := List.mem_map.mp h
    have hm := mem_claims.mp hm
    exact ⟨m, List.mem_of_find?_eq_some hm, by simpa using List.find?_some hm⟩
  · rintro ⟨m, hm, hn⟩
    cases hg : getter? methods n with
    | none => exact absurd hn (getter?_eq_none_iff.mp hg m hm)
    | some m' => exact List.mem_map.mpr ⟨(n, m'), mem_claims.mpr hg, rfl⟩

theorem isLeftOut_eq_false_iff {uses : List AnnotationUse} :
    isLeftOut uses = false ↔ ∀ a ∈ uses, a.kind ≠ .transient := by
  simp [isLeftOut]

/-- **The getters that are found.** -/
theorem mem_getterProperties {g : GetterProperty} : g ∈ getterProperties methods fields ↔
    getter? methods g.name = some g.getter ∧ g.field? = backingField? fields g.name ∧
      isLeftOut g.getter.annotations = false ∧
      g.field?.any (isLeftOut ·.annotations) = false := by
  rw [getterProperties, List.mem_filterMap]
  constructor
  · rintro ⟨⟨n, m⟩, hm, hg⟩
    simp only at hg
    split_ifs at hg with h
    cases hg
    simp only [Bool.or_eq_true, not_or, Bool.not_eq_true] at h
    exact ⟨mem_claims.mp hm, rfl, h⟩
  · rintro ⟨hm, hf, hleft, hback⟩
    refine ⟨(g.name, g.getter), mem_claims.mpr hm, ?_⟩
    simp only [← hf, hleft, hback]
    rfl

theorem exists_getterProperty_iff : (∃ g ∈ getterProperties methods fields, g.name = n) ↔ ∃ m,
    getter? methods n = some m ∧ (∀ a ∈ m.annotations, a.kind ≠ .transient) ∧
    ∀ f, backingField? fields n = some f → ∀ a ∈ f.annotations, a.kind ≠ .transient := by
  constructor
  · rintro ⟨g, hg, rfl⟩
    obtain ⟨hm, hf, hleft, hback⟩ := mem_getterProperties.mp hg
    refine ⟨g.getter, hm, isLeftOut_eq_false_iff.mp hleft, fun f hfind => ?_⟩
    rw [hf, hfind] at hback
    exact isLeftOut_eq_false_iff.mp hback
  · rintro ⟨m, hm, hleft, hback⟩
    refine ⟨⟨n, m, backingField? fields n⟩,
      mem_getterProperties.mpr ⟨hm, rfl, isLeftOut_eq_false_iff.mpr hleft, ?_⟩, rfl⟩
    cases hf : backingField? fields n with
    | none => rfl
    | some f => exact isLeftOut_eq_false_iff.mpr (hback f hf)

theorem sublist_getters (methods : List Method) (fields : List Field) :
    ((getterProperties methods fields).map (·.getter)).Sublist methods := by
  have hfirst : ∀ xs, (firstOfEachName xs).Sublist xs := by
    intro xs
    induction xs with
    | nil => exact .slnil
    | cons x rest ih => exact (List.filter_sublist.trans ih).cons_cons x
  have hclaims : ((claims methods).map (·.2)).Sublist methods := by
    refine ((hfirst _).map _).trans ?_
    induction methods with
    | nil => exact .slnil
    | cons m rest ih =>
      rw [List.filterMap_cons]
      cases Bean.property? m with
      | none => exact ih.cons m
      | some n => exact ih.cons_cons m
  refine List.Sublist.trans ?_ hclaims
  rw [getterProperties]
  induction claims methods with
  | nil => exact .slnil
  | cons x rest ih =>
    rw [List.filterMap_cons]
    dsimp only
    split_ifs
    · exact ih.cons _
    · exact ih.cons_cons _

/-! ## Fields -/

/-- **The fields that are found.** -/
theorem mem_fieldProperties : f ∈ fieldProperties fields claimed ↔
    f.name ∉ claimed ∧ readable? fields f.name = some f := by
  have hfind := find?_fieldProperties fields claimed f.name
  constructor
  · intro hf
    have hfree := (nodup_fieldProperties fields claimed).2 f hf
    rw [if_neg hfree] at hfind
    refine ⟨hfree, ?_⟩
    rw [← hfind]
    obtain ⟨g, hg⟩ : ∃ g, (fieldProperties fields claimed).find? (·.name == f.name) = some g := by
      rw [← Option.isSome_iff_exists, List.find?_isSome]
      exact ⟨f, hf, beq_self_eq_true _⟩
    have hname : g.name = f.name := by simpa using List.find?_some hg
    rw [hg, List.inj_on_of_nodup_map (nodup_fieldProperties fields claimed).1
      (List.mem_of_find?_eq_some hg) hf hname]
  · rintro ⟨hfree, hf⟩
    rw [if_neg hfree, hf] at hfind
    exact List.mem_of_find?_eq_some hfind

theorem isReadable_iff : isReadable f = true ↔ f.visibility = .anywhere ∧ f.isStatic = false ∧
    f.isTransient = false ∧ ∀ a ∈ f.annotations, a.kind ≠ .transient := by
  simp [isReadable, ← isLeftOut_eq_false_iff, and_assoc]

theorem exists_fieldProperty_iff : (∃ f ∈ fieldProperties fields claimed, f.name = n) ↔
    n ∉ claimed ∧ ∃ f ∈ fields, f.name = n ∧ isReadable f = true := by
  constructor
  · rintro ⟨f, hf, rfl⟩
    obtain ⟨hfree, hread⟩ := mem_fieldProperties.mp hf
    have hr := List.find?_some hread
    exact ⟨hfree, f, List.mem_of_find?_eq_some hread, rfl, (Bool.and_eq_true_iff.mp hr).1⟩
  · rintro ⟨hfree, f, hf, rfl, hr⟩
    cases hg : readable? fields f.name with
    | none =>
      rw [readable?_eq_none_iff.mp hg f hf rfl] at hr
      cases hr
    | some g =>
      have hname : g.name = f.name := by
        have hg' := List.find?_some hg
        exact eq_of_beq (Bool.and_eq_true_iff.mp hg').2
      exact ⟨g, mem_fieldProperties.mpr ⟨hname ▸ hfree, by rw [hname, hg]⟩, hname⟩

/-- A field that is found is the first one of its name that may be read. -/
theorem exists_front_of_mem_fieldProperties (hf : f ∈ fieldProperties fields claimed) :
    ∃ front rest, fields = front ++ f :: rest ∧
      ∀ g ∈ front, g.name = f.name → isReadable g = false := by
  obtain ⟨-, hread⟩ := mem_fieldProperties.mp hf
  obtain ⟨-, front, rest, hsplit, hfront⟩ := List.find?_eq_some_iff_append.mp hread
  refine ⟨front, rest, hsplit, fun g hg hname => ?_⟩
  simpa [hname] using hfront g hg

theorem sublist_fields (fields : List Field) (claimed : List String) :
    (fieldProperties fields claimed).Sublist fields := by
  induction fields generalizing claimed with
  | nil => exact .slnil
  | cons f rest ih =>
    rw [fieldProperties]
    split_ifs
    · exact (ih _).cons_cons f
    · exact (ih claimed).cons f

/-! ## Discovery -/

/-- Whether some getters and fields are those to be found in a hierarchy, the most derived class
first. -/
structure Discovers (hierarchy : List ClassInfo) (getters : List GetterProperty)
    (fields : List Field) : Prop where
  /-- A name is found once, be it at a getter or at a field. -/
  nodup : (getters.map (·.name) ++ fields.map (·.name)).Nodup
  /-- A name is found at a getter when neither its first getter nor its first field that belongs to
  instances, if there is one, is left out. -/
  getter (n : String) : (∃ g ∈ getters, g.name = n) ↔ ∃ m,
    (hierarchy.flatMap (·.methods)).find? (Bean.property? · == some n) = some m ∧
    (∀ a ∈ m.annotations, a.kind ≠ .transient) ∧
    ∀ f, (hierarchy.flatMap (·.fields)).find? (fun f => f.name == n && !f.isStatic) = some f →
      ∀ a ∈ f.annotations, a.kind ≠ .transient
  /-- The property then has this getter, and this field behind it. -/
  backed : ∀ g ∈ getters,
    (hierarchy.flatMap (·.methods)).find? (Bean.property? · == some g.name) = some g.getter ∧
    g.field? = (hierarchy.flatMap (·.fields)).find? fun f => f.name == g.name && !f.isStatic
  /-- A name is found at a field when no method gets it and some field of the name may be read. -/
  field (n : String) : (∃ f ∈ fields, f.name = n) ↔
    (∀ m ∈ hierarchy.flatMap (·.methods), Bean.property? m ≠ some n) ∧
    ∃ f ∈ hierarchy.flatMap (·.fields), f.name = n ∧ f.visibility = .anywhere ∧
      f.isStatic = false ∧ f.isTransient = false ∧ ∀ a ∈ f.annotations, a.kind ≠ .transient
  /-- It is then the first such field. -/
  first : ∀ f ∈ fields, ∃ front rest, hierarchy.flatMap (·.fields) = front ++ f :: rest ∧
    ∀ g ∈ front, g.name = f.name → g.visibility ≠ .anywhere ∨ g.isStatic = true ∨
      g.isTransient = true ∨ ∃ a ∈ g.annotations, a.kind = .transient
  /-- Both keep the order of the hierarchy, and in a class that of the declarations. -/
  getters_ordered : (getters.map (·.getter)).Sublist (hierarchy.flatMap (·.methods))
  fields_ordered : fields.Sublist (hierarchy.flatMap (·.fields))

theorem discovers_of_target {ix : Index} {c t : ClassInfo} (ht : ix.target c = .ok t) :
    Discovers (t :: ix.superclasses t) (ix.inspect c).getters (ix.inspect c).fields := by
  have hnodup := nodup_names ix c
  rw [Index.inspect, ht] at hnodup ⊢
  dsimp only at hnodup ⊢
  generalize (t :: ix.superclasses t) = hierarchy at hnodup ⊢
  refine ⟨hnodup, fun n => exists_getterProperty_iff, fun g hg => ?_, fun n => ?_, fun f hf => ?_,
    sublist_getters _ _, sublist_fields _ _⟩
  · obtain ⟨hm, hf, -, -⟩ := mem_getterProperties.mp hg
    exact ⟨hm, hf⟩
  · rw [exists_fieldProperty_iff, mem_map_claims]
    simp only [isReadable_iff, not_exists, not_and, ne_eq]
  · obtain ⟨front, rest, hsplit, hfront⟩ := exists_front_of_mem_fieldProperties hf
    refine ⟨front, rest, hsplit, fun g hg hname => ?_⟩
    have hr := hfront g hg hname
    rw [← Bool.not_eq_true, isReadable_iff] at hr
    by_contra h
    push Not at h
    exact hr ⟨h.1, by simpa using h.2.1, by simpa using h.2.2.1, h.2.2.2⟩

theorem exists_target {ix : Index} {c : ClassInfo} (h : (ix.inspect c).impossibility? = none) :
    ∃ t, ix.target c = .ok t ∧ (ix.inspect c).effective = t.name := by
  rw [Index.inspect] at h ⊢
  cases ht : ix.target c with
  | error i => rw [ht] at h; cases h
  | ok t =>
    refine ⟨t, rfl, ?_⟩
    dsimp only [effective]
    split_ifs with hn
    · exact hn.symm
    · rfl

/-- **An inspection finds the properties that are to be found** in the hierarchy of the class whose
members are read. -/
theorem discovery_exact (ix : Index) (c : ClassInfo)
    (h : (ix.inspect c).impossibility? = none) :
    ∃ t, ix.target c = .ok t ∧ (ix.inspect c).effective = t.name ∧
      Discovers (t :: ix.superclasses t) (ix.inspect c).getters (ix.inspect c).fields := by
  obtain ⟨t, ht, hname⟩ := exists_target h
  exact ⟨t, ht, hname, discovers_of_target ht⟩

/-! ## An account and its base -/

namespace Account

/-- The type of texts. -/
def text : TypeRef := .cls ⟨"java.lang.String"⟩

/-- A base with a field behind a getter of the account, and with a getter that is left out. -/
def base : ClassInfo where
  name := ⟨"com.acme.Base"⟩
  methods := [
    { name := "getOwner", result := text },
    { name := "getPin", result := text, annotations := [⟨.transient, []⟩] }]
  fields := [
    { name := "open", type := .prim .boolean },
    { name := "pin", type := text, visibility := .anywhere },
    { name := "note", type := text, visibility := .anywhere }]

/-- An account with two getters for one name, and fields that are left out, static or hidden. -/
def account : ClassInfo where
  name := ⟨"com.acme.Account"⟩
  superclass? := some base.name
  methods := [
    { name := "isOpen", result := .prim .boolean },
    { name := "getOpen", result := .prim .boolean },
    { name := "getHash", result := text },
    { name := "getOwner", result := text }]
  fields := [
    { name := "hash", type := text, annotations := [⟨.transient, []⟩] },
    { name := "open", type := .prim .boolean, visibility := .anywhere, isStatic := true },
    { name := "note", type := text }]

/-- The account and its base. -/
def index : Index := { classes := [base, account], nodup_names := by decide }

theorem ascent_account : index.ascent [account.name] account.superclass? = ([base], false) := by
  have hbase : index.class? base.name = some base := rfl
  have hsuper : account.superclass? = some base.name := rfl
  rw [hsuper, Index.ascent_of_known (by decide) hbase]
  simp [base, Index.ascent]

theorem superclasses_account : index.superclasses account = [base] :=
  congrArg Prod.fst ascent_account

theorem target_account : index.target account = .ok account := by
  have hcyclic : index.isCyclic account = false := congrArg Prod.snd ascent_account
  rw [Index.target_eq]
  change index.checked account = _
  rw [Index.checked, hcyclic]
  rfl

/-- What is found of the account is what its hierarchy has. -/
theorem discovers_account :
    (index.inspect account).impossibility? = none ∧
    (∃ t, index.target account = .ok t ∧ (index.inspect account).effective = t.name ∧
      Discovers (t :: index.superclasses t) (index.inspect account).getters
        (index.inspect account).fields) ∧
    (index.inspect account).getters.map (·.getter.name) = ["isOpen", "getOwner"] ∧
    (index.inspect account).fields.map (·.name) = ["note"] := by
  have h : (index.inspect account).impossibility? = none ∧
      (index.inspect account).getters.map (·.getter.name) = ["isOpen", "getOwner"] ∧
      (index.inspect account).fields.map (·.name) = ["note"] := by
    rw [Index.inspect, target_account]
    dsimp only
    rw [superclasses_account]
    decide +kernel
  exact ⟨h.1, discovery_exact index account h.1, h.2⟩

end Account

end Inspection

end JsonBinding
