import JsonBinding.Proofs.Bean
import JsonBinding.Proofs.Quotes
import JsonBinding.Proofs.Reflection.Document
import Mathlib

/-!
# Members that are left out

A member of the instances of a class that no property reads has no bearing on what the generic
writer does, as long as the instances are written by their class. Where a value of unknown type is
written by its shape, every member shows.

* `Schema.ByShape`, `Schema.Passes`: which values are written by their shape, and as what the parts
  of a value are written.
* `Schema.Edit`: a change of a member of an instance, by the ways in which the value is written.
* **`Edit.unquoted_reflect`**: such a change makes no difference.
* **`hidden_member`**: this for a member with a getter that its class leaves out.
-/

namespace JsonBinding

/-- The member of an instance that an accessor reads. -/
def Accessor.member : Accessor → String
  | .getter method => method
  | .field name => name

namespace Json

variable {v v' : Json} {m key : String}

/-- The value without a member, if it is an object. -/
def without (m : String) : Json → Json
  | .obj members => .obj (members.filter (·.1 ≠ m))
  | v => v

/-- Whether the value has parts. -/
def isContainer : Json → Bool
  | .arr _ | .obj _ => true
  | _ => false

theorem isNull_of_isContainer (h : v.isContainer = true) : v.isNull = false := by
  cases v with
  | null => cases h
  | _ => rfl

theorem lookup_filter {members : Members} (h : key ≠ m) :
    lookup (members.filter (·.1 ≠ m)) key = lookup members key := by
  rw [lookup, lookup, List.find?_filter]
  congr 2
  funext e
  by_cases he : e.1 = key
  · simp [he, h]
  · simp [he]

theorem member?_without (h : key ≠ m) : (v.without m).member? key = v.member? key := by
  cases v with
  | obj members => exact lookup_filter h
  | _ => rfl

theorem lookup_replace (xs : Members) (key : String) (x x' : Json) (ys : Members) (k : String) :
    lookup (xs ++ (key, x) :: ys) k = lookup (xs ++ (key, x') :: ys) k ∨
    k = key ∧ lookup (xs ++ (key, x) :: ys) k = some x ∧
      lookup (xs ++ (key, x') :: ys) k = some x' := by
  induction xs with
  | nil =>
    simp only [List.nil_append, lookup_cons]
    by_cases hk : key = k
    · simp [hk]
    · simp [hk]
  | cons e xs ih =>
    simp only [List.cons_append, lookup_cons]
    split_ifs
    · exact .inl rfl
    · exact ih

end Json

namespace Host

variable {v : Json}

theorem property_eq (a : Accessor) :
    ∃ expected, ∀ v, property v a = member expected v a.member := by
  cases a <;> exact ⟨_, fun _ => rfl⟩

theorem scalar_of_isContainer {form : ScalarForm} (h : v.isContainer = true) :
    scalar v form = .error (.shape (expectedScalar form) v) := by
  cases v with
  | arr _ | obj _ => cases form <;> rfl
  | _ => cases h

theorem date_of_isContainer {f : DateFormat} (h : v.isContainer = true) :
    date v f = .error (.shape "a date string" v) := by
  cases v with
  | arr _ | obj _ => rfl
  | _ => cases h

end Host

/-- A step into a value. -/
inductive Step where
  | item
  | member (key : String)

namespace Schema

variable (s : Schema)

/-- Whether a value of a declared type, or of unknown type, is written by its shape. -/
inductive ByShape (v : Json) : Option TypeRef → Prop
  | unknown : ByShape v none
  | untyped {t : TypeRef} : t.kind = .generic ∨ t.kind = .unresolved → ByShape v (some t)
  | undescribed {n : ClassName} : (TypeRef.cls n).kind = .plainClass →
    n.text ∉ Platform.strings → n.text ∉ Platform.dates → s.instanceDescription? v n = none →
      ByShape v (some (.cls n))

/-- As what the parts of a value are written. -/
inductive Passes (v : Json) : Option TypeRef → Step → Option TypeRef → Prop
  | shape {t? : Option TypeRef} {step : Step} : s.ByShape v t? → Passes v t? step none
  | content {t : TypeRef} : t.kind = .optional →
    Passes v (some t) (.member Host.optionalMarker) t.element?
  | item {t : TypeRef} : t.kind = .array ∨ t.kind = .collection → Passes v (some t) .item t.element?
  | entry {t : TypeRef} {key : String} : t.kind = .map → Passes v (some t) (.member key) t.value?
  | property {n : ClassName} {i : Inspection} {p : Property} :
    s.instanceDescription? v n = some (.instance i) → p ∈ s.properties i →
      Passes v (some (.cls n)) (.member p.accessor.member) (some p.type)

/-- The ways in which a part of a value is written, by those in which the value is written. -/
def through (v : Json) (step : Step) (ways : Set (Option TypeRef)) : Set (Option TypeRef) :=
  {u? | ∃ t? ∈ ways, s.Passes v t? step u?}

/-- A change of the members `m` of an instance of a class within a value that is written in some
ways. Where it stands, the instance is written neither by its shape nor as a map. -/
inductive Edit (name : ClassName) (m : String) : Set (Option TypeRef) → Json → Json → Prop
  | here {ways : Set (Option TypeRef)} {v v' : Json} : Host.class? v = some name.text →
    v.without m = v'.without m →
    (∀ t? ∈ ways, ¬ s.ByShape v t? ∧ ∀ t ∈ t?, t.kind ≠ .map) → Edit name m ways v v'
  | item {ways : Set (Option TypeRef)} {xs ys : List Json} {x x' : Json} :
    Edit name m (s.through (.arr (xs ++ x :: ys)) .item ways) x x' →
      Edit name m ways (.arr (xs ++ x :: ys)) (.arr (xs ++ x' :: ys))
  | member {ways : Set (Option TypeRef)} {xs ys : Members} {key : String} {x x' : Json} :
    Edit name m (s.through (.obj (xs ++ (key, x) :: ys)) (.member key) ways) x x' →
      Edit name m ways (.obj (xs ++ (key, x) :: ys)) (.obj (xs ++ (key, x') :: ys))

/-- Whether edits of values of less than some size make no difference. -/
def Unseen (name : ClassName) (m : String) (k : Nat) : Prop :=
  ∀ (w w' : Json) (ways : Set (Option TypeRef)), w.size < k → s.Edit name m ways w w' →
    ∀ u a?, some u ∈ ways → (s.reflect w u a?).unquoted = (s.reflect w' u a?).unquoted

/-- Whether a class leaves out the getter with a name, and no property reads such a member. -/
structure Hidden (name : ClassName) (m : String) : Prop where
  leftOut : ∃ c g, s.index.class? name = some c ∧ g ∈ c.methods ∧ (Bean.property? g).isSome ∧
    Inspection.isLeftOut g.annotations = true ∧ g.name = m
  unread : ∀ c ∈ s.index.classes, ∀ p ∈ s.properties (s.index.inspect c), p.accessor.member ≠ m

variable {s} {name n : ClassName} {m : String} {ways : Set (Option TypeRef)} {v v' : Json}
  {t : TypeRef} {a? : Option AnnotationSet}

theorem exists_cls_of_plainClass (h : t.kind = .plainClass) : ∃ n, t = .cls n := by
  cases t with
  | cls n => exact ⟨n, rfl⟩
  | app raw args =>
    rw [TypeRef.kind] at h
    split_ifs at h
  | _ => cases h

theorem exists_inspect_of_description? {i : Inspection}
    (h : s.description? n = some (.instance i)) : ∃ c ∈ s.index.classes, i = s.index.inspect c := by
  unfold description? at h
  split at h
  · cases h
  · rename_i c hc
    split_ifs at h <;> cases h
    exact ⟨c, Index.mem_of_class? hc, rfl⟩

theorem exists_inspect {i : Inspection} (h : s.instanceDescription? v n = some (.instance i)) :
    ∃ c ∈ s.index.classes, i = s.index.inspect c := by
  unfold instanceDescription? at h
  split at h
  · cases h
    exact exists_inspect_of_description? ‹_›
  · split at h
    · split_ifs at h
      exact exists_inspect_of_description? h
    · cases h

theorem getter_ne_marker {g : Method} (h : (Bean.property? g).isSome = true) :
    g.name ≠ Host.typeMarker ∧ g.name ≠ Host.optionalMarker := by
  obtain ⟨n, hn⟩ := Option.isSome_iff_exists.mp h
  obtain ⟨c, rest, hs, -, -⟩ := Bean.exists_stem hn
  constructor <;> rintro hm <;> rw [hm] at hs <;> rcases hs with hs | hs
  all_goals cases hs

theorem Hidden.ne_marker (h : s.Hidden name m) :
    m ≠ Host.typeMarker ∧ m ≠ Host.optionalMarker := by
  obtain ⟨_, g, -, -, hg, -, rfl⟩ := h.leftOut
  exact getter_ne_marker hg

/-! ## What is read of an edited value -/

namespace Edit

theorem shapes (h : s.Edit name m ways v v') :
    (∃ items items', v = .arr items ∧ v' = .arr items') ∨
    ∃ members members', v = .obj members ∧ v' = .obj members' := by
  cases h with
  | here hc hw =>
    cases v with
    | obj members =>
      cases v' with
      | obj members' => exact .inr ⟨_, _, rfl, rfl⟩
      | _ => cases hw
    | _ => cases hc
  | item => exact .inl ⟨_, _, rfl, rfl⟩
  | member => exact .inr ⟨_, _, rfl, rfl⟩

theorem isContainer (h : s.Edit name m ways v v') :
    v.isContainer = true ∧ v'.isContainer = true := by
  rcases h.shapes with ⟨_, _, rfl, rfl⟩ | ⟨_, _, rfl, rfl⟩ <;> exact ⟨rfl, rfl⟩

theorem not_byShape (h : s.Edit name m ways v v') : ∀ t? ∈ ways, ¬ s.ByShape v t? := by
  induction h with
  | here _ _ hways => exact fun t? ht => (hways t? ht).1
  | item _ ih | member _ ih => exact fun t? ht hs => ih none ⟨t?, ht, .shape hs⟩ .unknown

theorem member? (h : s.Edit name m ways v v') {key : String} (hkey : key ≠ m) :
    v.member? key = v'.member? key ∨ ∃ w w', v.member? key = some w ∧ v'.member? key = some w' ∧
      s.Edit name m (s.through v (.member key) ways) w w' := by
  cases h with
  | here _ hw =>
    rw [← Json.member?_without (v := v) hkey, hw, Json.member?_without hkey]
    exact .inl rfl
  | item => exact .inl rfl
  | @member _ xs ys k x x' h =>
    rcases Json.lookup_replace xs k x x' ys key with heq | ⟨rfl, hx, hx'⟩
    · exact .inl heq
    · exact .inr ⟨x, x', hx, hx', h⟩

theorem string?_eq (h : s.Edit name m ways v v') : v.string? = none ∧ v'.string? = none := by
  rcases h.shapes with ⟨_, _, rfl, rfl⟩ | ⟨_, _, rfl, rfl⟩ <;> exact ⟨rfl, rfl⟩

theorem class?_eq (h : s.Edit name m ways v v') (hm : m ≠ Host.typeMarker) :
    Host.class? v = Host.class? v' := by
  rw [Host.class?, Host.class?]
  rcases h.member? hm.symm with heq | ⟨w, w', hw, hw', he⟩
  · rw [heq]
  · rw [hw, hw', Option.bind_some, Option.bind_some, he.string?_eq.1, he.string?_eq.2]

theorem property (h : s.Edit name m ways v v') {a : Accessor} (ha : a.member ≠ m) :
    (Host.property v a).mapError Fault.unquoted = (Host.property v' a).mapError Fault.unquoted ∨
    ∃ w w', Host.property v a = .ok w ∧ Host.property v' a = .ok w' ∧
      s.Edit name m (s.through v (.member a.member) ways) w w' := by
  obtain ⟨expected, hread⟩ := Host.property_eq a
  rw [hread, hread]
  rcases h.shapes with ⟨_, _, rfl, rfl⟩ | ⟨members, members', rfl, rfl⟩
  · exact .inl rfl
  · simp only [Host.member, ← Json.member?_obj]
    rcases h.member? ha with heq | ⟨w, w', hw, hw', he⟩
    · rw [heq]
      exact .inl rfl
    · rw [hw, hw']
      exact .inr ⟨w, w', rfl, rfl, he⟩

theorem content (h : s.Edit name m ways v v') (hm : m ≠ Host.optionalMarker) :
    (Host.content v).mapError Fault.unquoted = (Host.content v').mapError Fault.unquoted ∨
    ∃ w w', Host.content v = .ok (some w) ∧ Host.content v' = .ok (some w') ∧
      s.Edit name m (s.through v (.member Host.optionalMarker) ways) w w' := by
  have hsome : ∀ {u w : Json}, u.member? Host.optionalMarker = some w → w.isContainer = true →
      Host.content u = .ok (some w) := by
    intro u w hw hc
    rw [Host.content, hw]
    cases w with
    | null => cases hc
    | _ => rfl
  rcases h.member? hm.symm with heq | ⟨w, w', hw, hw', he⟩
  · refine .inl ?_
    rw [Host.content, Host.content, heq]
    rcases v'.member? Host.optionalMarker with _ | w
    · rfl
    · cases w <;> rfl
  · exact .inr ⟨w, w', hsome hw he.isContainer.1, hsome hw' he.isContainer.2, he⟩

theorem elements (h : s.Edit name m ways v v') :
    (Host.elements v).mapError Fault.unquoted = (Host.elements v').mapError Fault.unquoted ∨
    ∃ xs x x' ys, Host.elements v = .ok (xs ++ x :: ys) ∧
      Host.elements v' = .ok (xs ++ x' :: ys) ∧ s.Edit name m (s.through v .item ways) x x' := by
  cases h with
  | @here _ v v' hc hw hways =>
    rcases (Edit.here hc hw hways : s.Edit name m ways v v').shapes with
      ⟨_, _, rfl, rfl⟩ | ⟨_, _, rfl, rfl⟩
    · cases hc
    · exact .inl rfl
  | item h => exact .inr ⟨_, _, _, _, rfl, rfl, h⟩
  | member => exact .inl rfl

theorem entries (h : s.Edit name m ways v v') (ht : some t ∈ ways) (hk : t.kind = .map) :
    (Host.entries v).mapError Fault.unquoted = (Host.entries v').mapError Fault.unquoted ∨
    ∃ xs key x x' ys, Host.entries v = .ok (xs ++ (key, x) :: ys) ∧
      Host.entries v' = .ok (xs ++ (key, x') :: ys) ∧
      s.Edit name m (s.through v (.member key) ways) x x' := by
  cases h with
  | here _ _ hways => exact absurd hk ((hways _ ht).2 t rfl)
  | item => exact .inl rfl
  | member h => exact .inr ⟨_, _, _, _, _, rfl, rfl, h⟩

/-! ## What is written for an edited value -/

theorem isAbsent (h : s.Edit name m ways v v') (hm : m ≠ Host.optionalMarker) (t : TypeRef) :
    (Schema.isAbsent t v).mapError Fault.unquoted =
      (Schema.isAbsent t v').mapError Fault.unquoted := by
  have hmap : ∀ y : Except Fault (Option Json),
      (y.map fun c? => c?.isNone).mapError Fault.unquoted =
        (y.mapError Fault.unquoted).map fun c? => c?.isNone := fun y => by cases y <;> rfl
  rw [Schema.isAbsent, Schema.isAbsent, Json.isNull_of_isContainer h.isContainer.1,
    Json.isNull_of_isContainer h.isContainer.2, if_neg Bool.false_ne_true,
    if_neg Bool.false_ne_true]
  split_ifs
  · rcases h.content hm with heq | ⟨w, w', hw, hw', -⟩
    · rw [hmap, hmap, heq]
    · rw [hw, hw']
      rfl
  · rfl

theorem unquoted_scalar (h : s.Edit name m ways v v') (form : ScalarForm) :
    (Writing.emitOk (Host.scalar v form)).unquoted =
      (Writing.emitOk (Host.scalar v' form)).unquoted := by
  refine Writing.unquoted_ofExcept ?_
  rw [Host.scalar_of_isContainer h.isContainer.1, Host.scalar_of_isContainer h.isContainer.2]
  rfl

/-- What is written for a property of an edited instance, when edited parts make no difference. -/
theorem unquoted_property (h : s.Edit name m ways v v') (hm : m ≠ Host.optionalMarker)
    (ih : s.Unseen name m v.size) {p : Property} (hp : p.accessor.member ≠ m)
    (hpass : some p.type ∈ s.through v (.member p.accessor.member) ways) :
    (s.reflectProperty v p).unquoted = (s.reflectProperty v' p).unquoted := by
  rw [reflectProperty, reflectProperty]
  rcases h.property hp with heq | ⟨w, w', hw, hw', he⟩
  · exact Writing.unquoted_ofExcept heq
  · rw [hw, hw', Writing.ofExcept_ok_bind, Writing.ofExcept_ok_bind]
    refine (Writing.unquoted_ofExcept (he.isAbsent hm p.type)).trans
      (Writing.unquoted_behind fun absent => ?_)
    split_ifs
    · rfl
    · rfl
    · exact Writing.unquoted_behind fun _ => ih w w' _ (Host.size_of_property hw) he _ _ hpass

theorem unquoted_members (h : s.Edit name m ways v v') (hn : s.Hidden name m)
    (ih : s.Unseen name m v.size) (ht : some (.cls n) ∈ ways) {i : Inspection}
    (hi : s.instanceDescription? v n = some (.instance i)) :
    (s.reflectMembers v i).unquoted = (s.reflectMembers v' i).unquoted := by
  obtain ⟨c, hc, rfl⟩ := exists_inspect hi
  refine Writing.unquoted_behind fun _ => ?_
  have hproperties : ∀ p ∈ s.properties (s.index.inspect c),
      (s.reflectProperty v p).unquoted = (s.reflectProperty v' p).unquoted := fun p hp =>
    h.unquoted_property hn.ne_marker.2 ih (hn.unread c hc p hp) ⟨_, ht, .property hi hp⟩
  rw [Writing.unquoted_bind, Writing.unquoted_bind, Writing.unquoted_each_congr hproperties]

theorem unquoted_class (h : s.Edit name m ways v v') (hn : s.Hidden name m)
    (ih : s.Unseen name m v.size) (ht : some (.cls n) ∈ ways)
    (hk : (TypeRef.cls n).kind = .plainClass) :
    (s.reflectClass v n a?).unquoted = (s.reflectClass v' n a?).unquoted := by
  have hclass := h.class?_eq hn.ne_marker.1
  rw [reflectClass, reflectClass]
  split_ifs with hs hd
  · exact h.unquoted_scalar .text
  · refine Writing.unquoted_behind fun format => Writing.unquoted_ofExcept ?_
    rw [Host.date_of_isContainer h.isContainer.1, Host.date_of_isContainer h.isContainer.2]
    rfl
  · have hsame : s.describeInstance v' n = s.describeInstance v n := by
      rw [describeInstance, describeInstance, hclass]
    rw [hsame]
    cases hi : s.instanceDescription? v n with
    | none => exact absurd (.undescribed hk hs hd hi) (h.not_byShape _ ht)
    | some d =>
      refine Writing.unquoted_result (a := some d) (fun o => ?_) ?_
      · obtain ⟨names, ho⟩ := describeInstance_apply (s := s) v n o
        exact ⟨_, hi ▸ ho⟩
      cases d with
      | enum => exact h.unquoted_scalar .enumConstant
      | «instance» i =>
        have hmembers := h.unquoted_members hn ih ht hi
        dsimp only
        cases i.concrete? with
        | none => exact hmembers
        | some c =>
          dsimp only
          rw [Host.cast, Host.cast, hclass]
          cases Host.class? v' with
          | none => exact hmembers
          | some actual =>
            dsimp only
            split_ifs
            · exact hmembers
            · rfl

/-- **An edit of what no property reads makes no difference** to what is written, but for the value
that a fault quotes. -/
theorem unquoted_reflect (h : s.Edit name m ways v v') (hn : s.Hidden name m)
    (ht : some t ∈ ways) : (s.reflect v t a?).unquoted = (s.reflect v' t a?).unquoted := by
  induction hsize : v.size using Nat.strongRecOn generalizing v v' t a? ways with
  | ind k ih =>
    subst hsize
    have hpart : s.Unseen name m v.size := fun w _ _ hw he _ _ hu => ih w.size hw he hu rfl
    -- An edited part is not written by its shape, and so is of known type.
    have hat : ∀ (w w' : Json) step u?, w.size < v.size → s.Passes v (some t) step u? →
        s.Edit name m (s.through v step ways) w w' →
        (s.reflectAt w u? a?).unquoted = (s.reflectAt w' u? a?).unquoted := by
      intro w w' step u? hw hp he
      have hu : u? ∈ s.through v step ways := ⟨_, ht, hp⟩
      cases u? with
      | none => exact absurd .unknown (he.not_byShape none hu)
      | some u => exact hpart w w' _ hw he u a? hu
    rw [reflect_eq (Json.isNull_of_isContainer h.isContainer.1),
      reflect_eq (Json.isNull_of_isContainer h.isContainer.2)]
    cases hk : t.kind with
    | primitive | boxed => exact h.unquoted_scalar _
    | optional =>
      rcases h.content hn.ne_marker.2 with heq | ⟨w, w', hw, hw', he⟩
      · exact Writing.unquoted_ofExcept heq
      · rw [hw, hw', Writing.ofExcept_ok_bind, Writing.ofExcept_ok_bind]
        exact hat w w' _ _ (Host.size_of_content hw) (.content hk) he
    | array | collection =>
      refine Writing.unquoted_behind fun _ => ?_
      rcases h.elements with heq | ⟨xs, x, x', ys, hi, hi', he⟩
      · exact Writing.unquoted_ofExcept heq
      · rw [hi, hi', Writing.ofExcept_ok_bind, Writing.ofExcept_ok_bind, Writing.unquoted_bind,
          Writing.unquoted_bind]
        have hx := hat x x' _ _ (Host.size_of_elements hi (by simp)) (.item (by simp [hk])) he
        rw [Writing.unquoted_each hx]
    | map =>
      refine Writing.unquoted_behind fun _ => ?_
      rcases h.entries ht hk with heq | ⟨xs, key, x, x', ys, hi, hi', he⟩
      · exact Writing.unquoted_ofExcept heq
      · rw [hi, hi', Writing.ofExcept_ok_bind, Writing.ofExcept_ok_bind, Writing.unquoted_bind,
          Writing.unquoted_bind]
        have hmem : (key, x) ∈ xs ++ (key, x) :: ys := by simp
        have hx := hat x x' _ _ (Host.size_of_entries hi hmem) (.entry hk) he
        have hentry : (s.reflectEntry t.value? a? (key, x)).unquoted =
            (s.reflectEntry t.value? a? (key, x')).unquoted :=
          Writing.unquoted_behind fun _ => hx
        rw [Writing.unquoted_each hentry]
    | plainClass =>
      obtain ⟨n, rfl⟩ := exists_cls_of_plainClass hk
      exact h.unquoted_class hn hpart ht hk
    | generic | unresolved => exact absurd (.untyped (by simp [hk])) (h.not_byShape _ ht)

end Edit

/-- **Members that are left out do not show**: however often such a member of an instance is changed
or removed, where the instance is written neither by its shape nor as a map, the same document is
made, or the same fault but for the value that it quotes. -/
theorem hidden_member (s : Schema) {name : ClassName} {m : String} {t : TypeRef} {v v' : Json}
    (hm : s.Hidden name m) (h : Relation.ReflTransGen (s.Edit name m {some t}) v v') :
    (s.reflect v t none).unquoted = (s.reflect v' t none).unquoted ∧
    ∀ text, (s.reflect v t none).written.1 = .complete text ↔
      (s.reflect v' t none).written.1 = .complete text := by
  have hsame : (s.reflect v t none).unquoted = (s.reflect v' t none).unquoted := by
    induction h with
    | refl => rfl
    | tail _ he ih => exact ih.trans (he.unquoted_reflect hm rfl)
  exact ⟨hsame, Writing.written_unquoted hsame⟩

namespace Accounts

/-- What a getter is left out with. -/
def leftOut : AnnotationUse := ⟨.transient, []⟩

/-- A getter that is left out. -/
def secret : Method :=
  { name := "getSecret", result := .cls ⟨"java.lang.String"⟩, annotations := [leftOut] }

/-- A class with a name and a secret. -/
def account : ClassInfo where
  name := ⟨"com.acme.Account"⟩
  methods := [{ name := "getName", result := .cls ⟨"java.lang.String"⟩ }, secret]

/-- A class with a name and a secret that cannot be written from what is known. -/
def ledger : ClassInfo := { account with name := ⟨"com.acme.Ledger"⟩, typeParameters := ["T"] }

end Accounts

/-- The schema of accounts and ledgers. -/
def accounts : Schema :=
  { index := { classes := [Accounts.account, Accounts.ledger], nodup_names := by decide } }

namespace Accounts

variable {c : ClassInfo}

/-- An instance without its secret. -/
def bare (c : ClassInfo) : Json :=
  .obj [("@type", .str c.name.text), ("getName", .str "Ada")]

/-- An instance with its secret. -/
def whole (c : ClassInfo) : Json :=
  .obj [("@type", .str c.name.text), ("getName", .str "Ada"), ("getSecret", .str "x")]

theorem class?_whole : Host.class? (whole c) = some c.name.text := rfl

theorem without_secret : (whole c).without "getSecret" = (bare c).without "getSecret" := by
  simp [whole, bare, Json.without]

theorem properties_account : accounts.properties (accounts.index.inspect account) = [
    ⟨"name", "name", false, .cls ⟨"java.lang.String"⟩, .getter "getName", []⟩] := by
  cbv

theorem properties_ledger : accounts.properties (accounts.index.inspect ledger) = [] := by
  cbv

theorem hidden_secret (hc : c = account ∨ c = ledger) :
    accounts.Hidden c.name "getSecret" where
  leftOut := by
    have hgetter : (Bean.property? secret).isSome = true := by cbv
    rcases hc with rfl | rfl
    · exact ⟨account, secret, rfl, by simp [account], hgetter, rfl, rfl⟩
    · exact ⟨ledger, secret, rfl, by simp [ledger, account], hgetter, rfl, rfl⟩
  unread := by
    intro d hd p hp
    rcases List.mem_pair.mp hd with rfl | rfl
    · rw [properties_account] at hp
      cases List.mem_singleton.mp hp
      decide
    · rw [properties_ledger] at hp
      cases hp

theorem description?_account :
    accounts.description? account.name = some (.instance (accounts.index.inspect account)) := by
  have hp : (accounts.index.inspect account).isPossible = true := by cbv
  rw [description?, show accounts.index.class? account.name = some account from rfl]
  dsimp only
  rw [if_neg (by decide), if_pos hp]

theorem description?_ledger : accounts.description? ledger.name = none := by
  have hp : (accounts.index.inspect ledger).isPossible = false := by cbv
  rw [description?, show accounts.index.class? ledger.name = some ledger from rfl]
  dsimp only
  rw [if_neg (by decide), hp]
  rfl

/-- Lists of something. -/
abbrev listOf (t : TypeRef) : TypeRef := .app ⟨"java.util.List"⟩ [t]

theorem edit_list : accounts.Edit account.name "getSecret" {some (listOf (.cls account.name))}
    (.arr [whole account]) (.arr [bare account]) := by
  change accounts.Edit _ _ _ (.arr ([] ++ whole account :: [])) (.arr ([] ++ bare account :: []))
  refine .item (.here class?_whole without_secret ?_)
  rintro u? ⟨t?, rfl, hp⟩
  cases hp with
  | shape hs =>
    cases hs with
    | untyped h => rcases h with h | h <;> cases h
  | item =>
    refine ⟨fun hs => ?_, fun t ht => ?_⟩
    · cases hs with
      | untyped h => rcases h with h | h <;> cases h
      | undescribed _ _ _ h =>
        rw [instanceDescription?, description?_account] at h
        cases h
    · cases ht
      decide

theorem hidden_member_list :
    accounts.Hidden account.name "getSecret" ∧
    Relation.ReflTransGen
      (accounts.Edit account.name "getSecret" {some (listOf (.cls account.name))})
      (.arr [whole account]) (.arr [bare account]) ∧
    (accounts.reflect (.arr [whole account]) (listOf (.cls account.name)) none).unquoted =
      (accounts.reflect (.arr [bare account]) (listOf (.cls account.name)) none).unquoted := by
  have hsecret : accounts.Hidden account.name "getSecret" := hidden_secret (.inl rfl)
  have hedit := Relation.ReflTransGen.single edit_list
  exact ⟨hsecret, hedit, (hidden_member accounts hsecret hedit).1⟩

theorem plain_eq {members named : Members} (hc : accounts.plainContent? members = none)
    (hn : accounts.plainMembers members = named)
    (hs : named.Pairwise fun a b => decide (a.1 ≤ b.1) = true) :
    accounts.plain (.obj members) = .obj named := by
  rw [plain, hc]
  dsimp only
  rw [hn, List.mergeSort_of_pairwise hs]
  rfl

theorem plain_whole :
    accounts.plain (whole c) = .obj [("name", .str "Ada"), ("secret", .str "x")] := by
  refine plain_eq rfl ?_ (by decide)
  have hname : Bean.memberKey "getName" = "name" := by decide
  have hsecret : Bean.memberKey "getSecret" = "secret" := by decide
  simp [plainMembers, hname, hsecret, Json.isNull, plain, Host.typeMarker]

theorem plain_bare : accounts.plain (bare c) = .obj [("name", .str "Ada")] := by
  refine plain_eq rfl ?_ (by decide)
  have hname : Bean.memberKey "getName" = "name" := by decide
  simp [plainMembers, hname, Json.isNull, plain, Host.typeMarker]

theorem document_listOf_wildcard {v : Json} (hv : v.isNull = false) :
    (accounts.document (.arr [v]) (some (listOf .wildcard)) none).toOption =
      some (.arr [accounts.plain v]) := by
  rw [toOption_items (.inr rfl) rfl, document_eq hv]
  rfl

theorem document_ledger {v : Json} (hv : v.isNull = false)
    (hc : Host.class? v = some ledger.name.text) :
    accounts.document v (some (.cls ledger.name)) none = .ok (accounts.plain v) := by
  have hi : accounts.instanceDescription? v ledger.name = none := by
    rw [instanceDescription?, description?_ledger, hc]
    exact if_pos rfl
  rw [document_eq hv, show (TypeRef.cls ledger.name).kind = .plainClass from rfl]
  show accounts.documentClass v ledger.name none = _
  rw [documentClass, if_neg (by decide), if_neg (by decide), hi]

/-- **Where an instance is written by its shape, its secret shows**: in a list of anything, and as
an instance of a class that cannot be written from what is known. It also shows in a fault. -/
theorem secret_shown :
    (accounts.Hidden account.name "getSecret" ∧
      Host.class? (whole account) = some account.name.text ∧
      (whole account).without "getSecret" = (bare account).without "getSecret") ∧
    (accounts.Hidden ledger.name "getSecret" ∧
      Host.class? (whole ledger) = some ledger.name.text ∧
      (whole ledger).without "getSecret" = (bare ledger).without "getSecret") ∧
    ((listOf .wildcard).element? = some .wildcard ∧ TypeRef.wildcard.kind ≠ .map ∧
      (accounts.reflect (.arr [whole account]) (listOf .wildcard) none).written.1 =
        .complete "[\x7b\"name\":\"Ada\",\"secret\":\"x\"\x7d]" ∧
      (accounts.reflect (.arr [bare account]) (listOf .wildcard) none).written.1 =
        .complete "[\x7b\"name\":\"Ada\"\x7d]") ∧
    ((TypeRef.cls ledger.name).kind ≠ .map ∧
      (accounts.reflect (whole ledger) (.cls ledger.name) none).written.1 =
        .complete "\x7b\"name\":\"Ada\",\"secret\":\"x\"\x7d" ∧
      (accounts.reflect (bare ledger) (.cls ledger.name) none).written.1 =
        .complete "\x7b\"name\":\"Ada\"\x7d") ∧
    (TypeRef.prim .int).kind ≠ .map ∧
      (accounts.reflect (whole account) (.prim .int) none {}).1 =
        .error (.shape "a number" (whole account)) ∧
      (accounts.reflect (bare account) (.prim .int) none {}).1 =
        .error (.shape "a number" (bare account)) := by
  refine ⟨⟨hidden_secret (.inl rfl), class?_whole, without_secret⟩,
    ⟨hidden_secret (.inr rfl), class?_whole, without_secret⟩,
    ⟨rfl, by decide, ?_, ?_⟩, ⟨by decide, ?_, ?_⟩, by decide, ?_, ?_⟩
  · refine written_complete_iff.mpr ?_
    rw [document_listOf_wildcard rfl, plain_whole]
    cbv
  · refine written_complete_iff.mpr ?_
    rw [document_listOf_wildcard rfl, plain_bare]
    cbv
  · refine written_complete_iff.mpr ?_
    rw [document_ledger rfl rfl, plain_whole]
    cbv
  · refine written_complete_iff.mpr ?_
    rw [document_ledger rfl rfl, plain_bare]
    cbv
  · rw [reflect_eq rfl]
    rfl
  · rw [reflect_eq rfl]
    rfl

end Accounts

end Schema

end JsonBinding
