import JsonBinding.Proofs.Index.Exactness
import JsonBinding.Proofs.Inspection.Discovery

/-!
# Whether null is written

Whether a property is written when it is null is said by the annotations of its getter, then by
those of its field, then by those that bear on its class, and else by the settings.

* `NullPolicy`: what the annotations of a member and those that bear on its class ask for.
* `nillable_eq_iff`: annotations found on a member and then on its class ask for just this.
* `Inspection.memberAnnotations`, `Index.bearing`: the annotations of the member of a property, and
  those that bear on a class.
* **`Inspection.nillable_exact`**: the null policy of a property.
* `Inspection.Ledger.index`: a class whose supertypes and members disagree.
-/

namespace JsonBinding

open AnnotationUse (nillableAttribute valueAttribute)

/-! ## The policy -/

/-- Whether nothing among the annotations of a member says whether its null is written. -/
def Silent (member : List AnnotationUse) : Prop :=
  ∀ a ∈ member, a.kind = .property → a.bool? nillableAttribute = none

/-- What the annotations of a member ask for when it is null, before those that bear on its class
and a default. -/
inductive NullPolicy (member bearing : List AnnotationUse) (default : Bool) : Bool → Prop
  /-- The first annotation of the member that says it. -/
  | said {front rest : List AnnotationUse} {a : AnnotationUse} {b : Bool} :
    member = front ++ a :: rest → Silent front → a.kind = .property →
    a.bool? nillableAttribute = some b → NullPolicy member bearing default b
  /-- The first annotation for it that bears on the class, whatever its value is. -/
  | shared {front rest : List AnnotationUse} {a : AnnotationUse} :
    Silent member → bearing = front ++ a :: rest → (∀ x ∈ front, x.kind ≠ .nillable) →
    a.kind = .nillable → NullPolicy member bearing default ((a.bool? valueAttribute).getD true)
  | default : Silent member → (∀ x ∈ bearing, x.kind ≠ .nillable) →
    NullPolicy member bearing default default

namespace AnnotationSet

variable {member bearing : List AnnotationUse} {front back : AnnotationSet} {default b : Bool}

/-- What an annotation of a member says. -/
def saying? (a : AnnotationUse) : Option Bool :=
  if a.kind = .property then a.bool? nillableAttribute else none

theorem saying?_eq_some_iff {a : AnnotationUse} :
    saying? a = some b ↔ a.kind = .property ∧ a.bool? nillableAttribute = some b := by
  simp [saying?]

theorem silent_iff : Silent member ↔ ∀ a ∈ member, saying? a = none := by
  simp [Silent, saying?]

theorem findSome?_onMember {α : Type} (read : AnnotationUse → Option α)
    (hfront : ∀ x ∈ front, x.1.isMember = true) (hback : ∀ x ∈ back, x.1.isMember = false) :
    (onMember (front ++ back)).findSome? (fun (_, a) => read a) =
      (front.map (·.2)).findSome? fun a => if a.kind = .property then read a else none := by
  have hnone : onMember back = [] := by
    refine List.filter_eq_nil_iff.mpr fun x hx => ?_
    rw [hback x (List.mem_of_mem_filter hx)]
    exact Bool.false_ne_true
  rw [onMember, all, List.filter_append, List.filter_append]
  change (onMember front ++ onMember back).findSome? _ = _
  rw [hnone, List.append_nil, onMember, all]
  induction front with
  | nil => rfl
  | cons x rest ih =>
    have hrest := ih fun y hy => hfront y (List.mem_cons_of_mem _ hy)
    rw [List.map_cons, List.findSome?_cons, ← hrest]
    by_cases hk : x.2.kind = .property <;> simp [hk, hfront, List.findSome?_cons]

/-- What is shared by annotations of which those of the member come first. -/
theorem find?_shared (hfront : ∀ x ∈ front, x.1.isMember = true)
    (hback : ∀ x ∈ back, x.1.isMember = false) :
    (((front ++ back).all .nillable).find? (!·.1.isMember)).map (·.2) =
      (back.map (·.2)).find? (·.kind = .nillable) := by
  have hnone : (all front .nillable).find? (!·.1.isMember) = none := by
    refine List.find?_eq_none.mpr fun x hx => ?_
    simp [hfront x (List.mem_of_mem_filter hx)]
  rw [all, List.filter_append, List.find?_append, ← all, hnone, Option.none_or, List.find?_map]
  congr 1
  rw [List.find?_filter]
  refine List.find?_congr fun x hx => ?_
  simp [hback x hx]

/-- The policy is what is said first, else what is shared first, else the default. -/
theorem nullPolicy_iff : NullPolicy member bearing default b ↔
    (match member.findSome? saying? with
      | some said => said
      | none =>
        match bearing.find? (·.kind = .nillable) with
        | some a => (a.bool? valueAttribute).getD true
        | none => default) = b := by
  constructor
  · intro h
    cases h with
    | said hsplit hfront hkind hsaid =>
      rw [List.findSome?_eq_some_iff.mpr
        ⟨_, _, _, hsplit, saying?_eq_some_iff.mpr ⟨hkind, hsaid⟩, silent_iff.mp hfront⟩]
    | @shared front rest a hsilent hsplit hfront hkind =>
      have hfind : bearing.find? (·.kind = .nillable) = some a :=
        List.find?_eq_some_iff_append.mpr
          ⟨decide_eq_true hkind, front, rest, hsplit, fun x hx => by simp [hfront x hx]⟩
      rw [List.findSome?_eq_none_iff.mpr (silent_iff.mp hsilent), hfind]
    | default hsilent hnone =>
      have hfind : bearing.find? (·.kind = .nillable) = none :=
        List.find?_eq_none.mpr fun x hx => by simp [hnone x hx]
      rw [List.findSome?_eq_none_iff.mpr (silent_iff.mp hsilent), hfind]
  · rintro rfl
    cases hsaid : member.findSome? saying? with
    | some said =>
      obtain ⟨front, a, rest, hsplit, ha, hfront⟩ := List.findSome?_eq_some_iff.mp hsaid
      obtain ⟨hkind, ha⟩ := saying?_eq_some_iff.mp ha
      exact .said hsplit (silent_iff.mpr hfront) hkind ha
    | none =>
      have hsilent := silent_iff.mpr (List.findSome?_eq_none_iff.mp hsaid)
      cases hshared : bearing.find? (·.kind = .nillable) with
      | some a =>
        obtain ⟨hkind, front, rest, hsplit, hfront⟩ := List.find?_eq_some_iff_append.mp hshared
        exact .shared hsilent hsplit (fun x hx => by simpa using hfront x hx)
          (of_decide_eq_true hkind)
      | none => exact .default hsilent fun x hx => by simpa using List.find?_eq_none.mp hshared x hx

/-- **Annotations found on a member, and then on what surrounds it, ask for what the policy says.**
-/
theorem nillable_eq_iff (hfront : ∀ x ∈ front, x.1.isMember = true)
    (hback : ∀ x ∈ back, x.1.isMember = false) : nillable (front ++ back) default = b ↔
      NullPolicy (front.map (·.2)) (back.map (·.2)) default b := by
  have hsaid : (onMember (front ++ back)).findSome? (fun (_, a) => a.bool? nillableAttribute) =
      (front.map (·.2)).findSome? saying? :=
    findSome?_onMember (·.bool? nillableAttribute) hfront hback
  rw [nullPolicy_iff, nillable, hsaid, ← find?_shared hfront hback]
  cases (front.map (·.2)).findSome? saying? with
  | some said => rfl
  | none => cases ((front ++ back).all .nillable).find? (!·.1.isMember) <;> rfl

theorem map_snd_found (source : AnnotationSource) (uses : List AnnotationUse) :
    (found source uses).map (·.2) = uses := by
  simp [found]

end AnnotationSet

/-- **Nothing else counts.** The policy sees the annotations of one kind on the member, and those of
another that bear on its class. -/
theorem NullPolicy.congr {member bearing member' bearing' : List AnnotationUse} {default b : Bool}
    (h : NullPolicy member bearing default b)
    (hmember : member'.filter (·.kind = .property) = member.filter (·.kind = .property))
    (hbearing : bearing'.filter (·.kind = .nillable) = bearing.filter (·.kind = .nillable)) :
    NullPolicy member' bearing' default b := by
  have hsaid (uses : List AnnotationUse) : uses.findSome? AnnotationSet.saying? =
      (uses.filter (·.kind = .property)).findSome? (·.bool? nillableAttribute) := by
    induction uses with
    | nil => rfl
    | cons a rest ih =>
      by_cases hk : a.kind = .property <;>
        simp [List.findSome?_cons, AnnotationSet.saying?, hk, ih]
  rw [AnnotationSet.nullPolicy_iff, hsaid, ← List.head?_filter] at h ⊢
  rwa [hmember, hbearing]

/-! ## The policy of a property -/

namespace Index

/-- The annotations that bear on a class: its own, those of its superclasses, the nearest first, of
its interfaces by name, and of its package. -/
def bearing (ix : Index) (t : ClassInfo) : List AnnotationUse :=
  t.annotations ++ (ix.superclasses t).flatMap (·.annotations) ++
    (ix.allInterfaces t).flatMap (·.annotations) ++
    (ix.packageOf? t.name).elim [] (·.annotations)

theorem map_classAnnotations (ix : Index) (t : ClassInfo) :
    (ix.classAnnotations t).map (·.2) = ix.bearing t := by
  rw [classAnnotations, bearing]
  cases ix.packageOf? t.name <;> simp [List.map_flatMap, AnnotationSet.map_snd_found]

theorem isMember_classAnnotations {ix : Index} {t : ClassInfo} :
    ∀ x ∈ ix.classAnnotations t, x.1.isMember = false := by
  have hfound (source : AnnotationSource) (uses : List AnnotationUse)
      (hs : source.isMember = false) :
      ∀ x ∈ AnnotationSet.found source uses, x.1.isMember = false := by
    intro x hx
    obtain ⟨a, -, rfl⟩ := List.mem_map.mp hx
    exact hs
  intro x hx
  rw [classAnnotations, List.mem_append, List.mem_append] at hx
  rcases hx with (hx | hx) | hx
  · exact hfound .cls _ rfl x hx
  · obtain ⟨d, -, hx⟩ := List.mem_flatMap.mp hx
    exact hfound .inherited _ rfl x hx
  · cases hp : ix.packageOf? t.name with
    | none => rw [hp] at hx; cases hx
    | some p => rw [hp] at hx; exact hfound .package _ rfl x hx

end Index

namespace Inspection

section Exactness

variable {settings : Settings} {shared : AnnotationSet}

/-- The annotations of the member of a property: those of its first getter and then of its first
field that belongs to instances, or those of its first field that may be read when no method gets
it. -/
def memberAnnotations (hierarchy : List ClassInfo) (name : String) : List AnnotationUse :=
  match getter? (hierarchy.flatMap (·.methods)) name with
  | some m => m.annotations ++
    (backingField? (hierarchy.flatMap (·.fields)) name).elim [] (·.annotations)
  | none => (readable? (hierarchy.flatMap (·.fields)) name).elim [] (·.annotations)

/-- How a property is read: with the first getter, or at the field when no method gets it. -/
def accessor (hierarchy : List ClassInfo) (name : String) : Accessor :=
  (getter? (hierarchy.flatMap (·.methods)) name).elim (.field name) fun m => .getter m.name

variable {hierarchy : List ClassInfo} {n : String} {m : Method}

theorem memberAnnotations_of_getter (h : getter? (hierarchy.flatMap (·.methods)) n = some m) :
    memberAnnotations hierarchy n = m.annotations ++
      (backingField? (hierarchy.flatMap (·.fields)) n).elim [] (·.annotations) := by
  rw [memberAnnotations, h]

theorem memberAnnotations_of_field (h : getter? (hierarchy.flatMap (·.methods)) n = none) :
    memberAnnotations hierarchy n =
      (readable? (hierarchy.flatMap (·.fields)) n).elim [] (·.annotations) := by
  rw [memberAnnotations, h]

theorem accessor_of_getter (h : getter? (hierarchy.flatMap (·.methods)) n = some m) :
    accessor hierarchy n = .getter m.name := by
  rw [accessor, h]
  rfl

theorem accessor_of_field (h : getter? (hierarchy.flatMap (·.methods)) n = none) :
    accessor hierarchy n = .field n := by
  rw [accessor, h]
  rfl

/-- Whether a property has the key and the policy that its annotations ask for, which are those of
a member and then the shared ones. -/
structure Annotated (settings : Settings) (member : List AnnotationUse) (shared : AnnotationSet)
    (p : Property) : Prop where
  key : p.key = p.annotations.rename?.getD p.name
  nillable : p.nillable = p.annotations.nillable settings.writeNulls
  annotations : ∃ front, p.annotations = front ++ shared ∧ (∀ x ∈ front, x.1.isMember = true) ∧
    front.map (·.2) = member

theorem annotated_ofGetter (g : GetterProperty) :
    Annotated settings (g.getter.annotations ++ g.field?.elim [] (·.annotations)) shared
      (Property.ofGetter settings shared g) where
  key := rfl
  nillable := rfl
  annotations := by
    refine ⟨.found .method g.getter.annotations ++
      (g.field?.elim [] fun f => AnnotationSet.found .field f.annotations), rfl, ?_, ?_⟩
    · cases g.field? <;> simp [AnnotationSet.found, AnnotationSource.isMember, or_imp, forall_and]
    · cases g.field? <;> simp [AnnotationSet.found]

theorem annotated_ofField (f : Field) :
    Annotated settings f.annotations shared (Property.ofField settings shared f) where
  key := rfl
  nillable := rfl
  annotations := by
    refine ⟨.found .field f.annotations, rfl, ?_, AnnotationSet.map_snd_found _ _⟩
    simp [AnnotationSet.found, AnnotationSource.isMember]

/-- How the properties of a class are read, and which annotations they have. -/
theorem annotated_of_mem_registered {ix : Index} {c t : ClassInfo} {p : Property}
    (ht : ix.target c = .ok t) (hp : p ∈ (ix.inspect c).registered settings) :
    p.accessor = accessor (t :: ix.superclasses t) p.name ∧
      Annotated settings (memberAnnotations (t :: ix.superclasses t) p.name)
        (ix.classAnnotations t) p := by
  have hshared : ix.classAnnotations t = (ix.inspect c).annotations := by
    rw [Index.inspect, ht]
  rw [hshared]
  rcases List.mem_append.mp hp with hp | hp
  · obtain ⟨g, hg, rfl⟩ := List.mem_map.mp hp
    obtain ⟨hgetter, hfield⟩ := (discovers_of_target ht).backed g hg
    have hmember : memberAnnotations (t :: ix.superclasses t) g.name =
        g.getter.annotations ++ g.field?.elim [] (·.annotations) := by
      rw [memberAnnotations_of_getter hgetter, hfield]
      rfl
    exact ⟨(accessor_of_getter hgetter).symm, hmember ▸ annotated_ofGetter g⟩
  · obtain ⟨f, hf, rfl⟩ := List.mem_map.mp hp
    obtain ⟨hfree, hfield⟩ := mem_fieldProperties.mp (inspect_fields ht ▸ hf)
    have hgetter : getter? ((t :: ix.superclasses t).flatMap (·.methods)) f.name = none :=
      getter?_eq_none_iff.mpr fun m hm hn => hfree (mem_map_claims.mpr ⟨m, hm, hn⟩)
    have hmember : memberAnnotations (t :: ix.superclasses t) f.name = f.annotations := by
      rw [memberAnnotations_of_field hgetter, hfield]
      rfl
    exact ⟨(accessor_of_field hgetter).symm, hmember ▸ annotated_ofField f⟩

theorem Annotated.nillable_eq_iff {member : List AnnotationUse} {p : Property} {b : Bool}
    (h : Annotated settings member shared p) (hshared : ∀ x ∈ shared, x.1.isMember = false) :
    p.nillable = b ↔ NullPolicy member (shared.map (·.2)) settings.writeNulls b := by
  obtain ⟨front, hannotations, hfront, rfl⟩ := h.annotations
  rw [h.nillable, hannotations, AnnotationSet.nillable_eq_iff hfront hshared]

/-- **Whether a property is written when it is null.** It is what the annotations of its getter and
then of its field say, else what those that bear on the class whose members are read share, else the
setting; and no annotation of another kind counts at either place. -/
theorem nillable_exact (ix : Index) (c : ClassInfo) (settings : Settings) {p : Property}
    (h : (ix.inspect c).impossibility? = none) (hp : p ∈ (ix.inspect c).properties settings) :
    ∃ t, ix.target c = .ok t ∧ (ix.inspect c).effective = t.name ∧
      (ix.allInterfaces t).Pairwise (fun d e => d.name.text < e.name.text) ∧
      p.accessor = accessor (t :: ix.superclasses t) p.name ∧
      (∀ b, p.nillable = b ↔ NullPolicy (memberAnnotations (t :: ix.superclasses t) p.name)
        (ix.bearing t) settings.writeNulls b) ∧
      ∀ member bearing,
        member.filter (·.kind = .property) =
          (memberAnnotations (t :: ix.superclasses t) p.name).filter (·.kind = .property) →
        bearing.filter (·.kind = .nillable) = (ix.bearing t).filter (·.kind = .nillable) →
        NullPolicy member bearing settings.writeNulls p.nillable := by
  obtain ⟨t, ht, hname⟩ := exists_target h
  obtain ⟨haccessor, hannotated⟩ :=
    annotated_of_mem_registered ht (mem_registered_of_mem_properties hp)
  have hpolicy : ∀ b, p.nillable = b ↔
      NullPolicy (memberAnnotations (t :: ix.superclasses t) p.name) (ix.bearing t)
        settings.writeNulls b := by
    intro b
    rw [← Index.map_classAnnotations]
    exact hannotated.nillable_eq_iff Index.isMember_classAnnotations
  refine ⟨t, ht, hname, Index.allInterfaces_strict ix t, haccessor, hpolicy,
    fun member bearing hmember hbearing => ?_⟩
  exact ((hpolicy _).mp rfl).congr hmember hbearing

end Exactness

/-! ## A class whose supertypes and members disagree -/

namespace Ledger

/-- The type of the property. -/
def sum : TypeRef := .prim .int

/-- A superclass that shares one answer; the interface shares the other. -/
def base : ClassInfo where
  name := ⟨"com.acme.Base"⟩
  annotations := [⟨.nillable, [("value", .bool false)]⟩]

/-- An interface that asks for null. -/
def priced : ClassInfo where
  name := ⟨"com.acme.Priced"⟩
  kind := .interface
  annotations := [⟨.nillable, []⟩]

/-- A getter whose annotations do not count: one is for classes, and the answer of the other is
no truth value. -/
def getTotal : Method where
  name := "getTotal"
  result := sum
  annotations := [⟨.nillable, []⟩, ⟨.property, [("nillable", .str "true")]⟩]

/-- A field whose annotation gives no answer. -/
def total : Field where
  name := "total"
  type := sum
  annotations := [⟨.property, []⟩]

/-- A class that says nothing itself: what it says is said by annotations that do not count there. -/
def ledger : ClassInfo where
  name := ⟨"com.acme.Ledger"⟩
  superclass? := some base.name
  interfaces := [priced.name]
  annotations := [⟨.property, [("nillable", .bool true)]⟩]
  methods := [getTotal]
  fields := [total]

/-- The three types. -/
def index : Index := { classes := [base, priced, ledger], nodup_names := by decide }

/-- Settings under which null is written. -/
def nulls : Settings := { writeNulls := true }

/-- What the ledger and its supertypes say. -/
def shared : AnnotationSet := [
  (.cls, ⟨.property, [("nillable", .bool true)]⟩),
  (.inherited, ⟨.nillable, [("value", .bool false)]⟩),
  (.inherited, ⟨.nillable, []⟩)]

/-- The property of the ledger. -/
def property : Property := .ofGetter nulls shared ⟨"total", getTotal, some total⟩

theorem target_ledger : index.target ledger = .ok ledger := by cbv

theorem inspect_ledger : index.inspect ledger = {
    name := ledger.name
    getters := [⟨"total", getTotal, some total⟩]
    annotations := shared } := by
  have hsuper : index.superclasses ledger = [base] := by cbv
  have hpriced : index.class? priced.name = some priced := rfl
  have hwalk : index.walk (·.interfaces) [] [priced.name] = [priced] := by
    rw [Index.walk_of_known List.not_mem_nil hpriced]
    simp [Index.walk, priced]
  have hinterfaces : index.allInterfaces ledger = [priced] := by
    have hnames : [ledger, base].flatMap (·.interfaces) = [priced.name] := rfl
    rw [Index.allInterfaces, hsuper, hnames, hwalk, Index.byName, List.mergeSort_singleton]
  have hshared : index.classAnnotations ledger = shared := by
    rw [Index.classAnnotations, hinterfaces, hsuper]
    rfl
  rw [Index.inspect, target_ledger]
  dsimp only
  rw [hsuper, hshared]
  rfl

/-- The superclass decides for the property of the ledger. -/
theorem nullPolicy_total :
    (index.inspect ledger).impossibility? = none ∧
    property ∈ (index.inspect ledger).properties nulls ∧ property.nillable = false ∧
    NullPolicy (memberAnnotations (ledger :: index.superclasses ledger) "total")
      (index.bearing ledger) true false := by
  have h : (index.inspect ledger).impossibility? = none := by rw [inspect_ledger]
  have hp : property ∈ (index.inspect ledger).properties nulls := by
    rw [inspect_ledger]
    exact List.mem_singleton_self _
  obtain ⟨t, ht, -, -, -, hpolicy, -⟩ := nillable_exact index ledger nulls h hp
  cases target_ledger.symm.trans ht
  exact ⟨h, hp, rfl, (hpolicy false).mp rfl⟩

end Ledger

end Inspection

end JsonBinding
