import JsonBinding.Proofs.Support.Explanation
import Mathlib

/-!
# What resolutions find

A resolution tells of a type what can be read off the types that it reaches, whatever was resolved
before, but for the reason.

* **`resolution_exact`**: the level and the form that are found.
* `circle`: two classes that hold lists of each other.
* **`Circle.Holder.resolve`**: the reasons found for two such classes, which are others when one
  starts from the other one.
-/

namespace JsonBinding.Schema

variable {s : Schema} {memo : Memo} {t : TypeRef}

/-- **Resolutions are exact.** Whatever was resolved before, the level of a type is a matter of what
the type reaches, its form is the first one in order that it has the shape of, and the same holds of
every type that is remembered afterwards. -/
theorem resolution_exact (h : s.Reached memo) (t : TypeRef) :
    s.Exact t (s.resolve t memo).1 ∧
      ∀ u r, (s.resolve t memo).2.find? u = some r → s.Exact u r :=
  ⟨h.exact_resolve t, fun _ _ hr => (h.resolve t).exact hr⟩

/-! ## A circle of classes -/

namespace Circle

/-- A list of instances of a class. -/
def listOf (name : String) : TypeRef := .app ⟨"java.util.List"⟩ [.cls ⟨name⟩]

/-- A field that anyone may read. -/
def holding (name : String) (t : TypeRef) : Field := { name, type := t, visibility := .anywhere }

/-- The property of such a field. -/
def held (name : String) (t : TypeRef) : Property := ⟨name, name, false, t, .field name, []⟩

/-- The first class, which holds a list of the second one. -/
def first : ClassInfo where
  name := ⟨"com.acme.A"⟩
  fields := [holding "bs" (listOf "com.acme.B"), holding "owner" (listOf "java.lang.Object")]

/-- The second class, which holds a list of the first one. -/
def second : ClassInfo where
  name := ⟨"com.acme.B"⟩
  fields := [holding "as" (listOf "com.acme.A"), holding "worker" (listOf "java.lang.Thread")]

end Circle

/-- Two classes that hold lists of each other, and of a platform class besides. -/
def circle : Schema := {
  index := { classes := [Circle.first, Circle.second], nodup_names := by decide } }

namespace Circle

theorem properties_first : circle.properties (circle.index.inspect first) =
    [held "bs" (listOf "com.acme.B"), held "owner" (listOf "java.lang.Object")] := by
  cbv

theorem properties_second : circle.properties (circle.index.inspect second) =
    [held "as" (listOf "com.acme.A"), held "worker" (listOf "java.lang.Thread")] := by
  cbv

theorem class?_first : circle.index.class? first.name = some first := rfl

theorem class?_second : circle.index.class? second.name = some second := rfl

theorem variant?_first : circle.variant? (.cls first.name) = some .object :=
  variant?_of_own (by simp [first, ClassName.isPlatform]) rfl

theorem variant?_second : circle.variant? (.cls second.name) = some .object :=
  variant?_of_own (by simp [second, ClassName.isPlatform]) rfl

theorem variant?_platform {p : String} (hp : p ∈ ["java.lang.Object", "java.lang.Thread"]) :
    ClassName.isPlatform ⟨p⟩ = true ∧ circle.variant? (.cls ⟨p⟩) = none := by
  simp only [List.mem_cons, List.not_mem_nil, or_false] at hp
  have hplatform : ClassName.isPlatform ⟨p⟩ = true := by
    rcases hp with rfl | rfl <;> simp [ClassName.isPlatform]
  refine ⟨hplatform, ?_⟩
  rw [variant?_of_unknown, hplatform, if_pos rfl]
  · rcases hp with rfl | rfl <;> decide
  · rcases hp with rfl | rfl <;> rfl

theorem hasProperty_first {p : Property}
    (hp : p ∈ [held "bs" (listOf "com.acme.B"), held "owner" (listOf "java.lang.Object")]) :
    circle.HasProperty (.cls first.name) p :=
  ⟨_, first, rfl, shape?_of_class? variant?_first class?_first, class?_first,
    properties_first ▸ hp⟩

theorem hasProperty_second {p : Property}
    (hp : p ∈ [held "as" (listOf "com.acme.A"), held "worker" (listOf "java.lang.Thread")]) :
    circle.HasProperty (.cls second.name) p :=
  ⟨_, second, rfl, shape?_of_class? variant?_second class?_second, class?_second,
    properties_second ▸ hp⟩

theorem hopeless_thread : circle.Hopeless (.cls ⟨"java.lang.Thread"⟩) :=
  have h := variant?_platform (.tail _ (.head _))
  .platform h.1 (shape?_eq_none_of_variant? h.2)

theorem blocked_second : circle.Blocked (.cls second.name) :=
  Blocked.step (.property (hasProperty_second (.tail _ (.head _))) rfl)
    (Blocked.step (.element (.inr rfl) rfl) ⟨_, .refl, hopeless_thread⟩)

theorem blocked_first : circle.Blocked (.cls first.name) :=
  Blocked.step (.property (hasProperty_first (.head _)) rfl)
    (Blocked.step (.element (.inr rfl) rfl) blocked_second)

theorem resolution_exact_circle :
    circle.Reached (circle.resolve (.cls second.name) {}).2 ∧
    (circle.resolve (.cls first.name) (circle.resolve (.cls second.name) {}).2).1.support.level =
      .unsupported ∧
    ∀ u r, (circle.resolve (.cls first.name) (circle.resolve (.cls second.name) {}).2).2.find? u =
      some r → circle.Exact u r :=
  have h := resolution_exact (.resolve (.cls second.name) .start) (.cls first.name)
  ⟨.resolve _ .start, h.1.unsupported.mpr blocked_first, h.2⟩

end Circle

/-! ## Two classes that hold each other -/

variable {opened : List TypeRef}

theorem find?_inspect (n : ClassName) : (memo.inspect n).find? t = memo.find? t := by
  rw [Memo.inspect]
  split <;> rfl

theorem find?_record {u : TypeRef} {r : Resolution} :
    (memo.record t r).find? u = if u = t then some r else memo.find? u := by
  rw [Memo.find?, Memo.record, List.lookup_cons]
  by_cases h : u = t
  · simp [h]
  · rw [beq_eq_false_iff_ne.mpr h, if_neg h]
    rfl

theorem resolveIn_of_unmatched (opened : List TypeRef) (hm : memo.find? t = none) (ho : t ∉ opened)
    (hv : s.variant? t = none) : s.resolveIn opened t memo =
      ⟨⟨none, .unsupported (unmatched t)⟩, memo.record t ⟨none, .unsupported (unmatched t)⟩,
        none⟩ := by
  rw [resolveIn]
  simp [hm, ho, hv, Support.isSupported, Support.level, SupportLevel.isSupported]

theorem resolveIn_of_refused {v : Variant} {r : Reason} {memo' : Memo} {a? : Option Nat}
    (hm : memo.find? t = none) (ho : t ∉ opened) (hv : s.variant? t = some v)
    (hs : s.supportIn opened t memo v ho = ⟨.unsupported r, memo', a?⟩) :
    s.resolveIn opened t memo = ⟨⟨none, .unsupported r⟩, memo'.record t ⟨none, .unsupported r⟩,
      a?.filter (· < opened.length)⟩ := by
  rw [resolveIn]
  simp [hm, ho, hv, hs, Finding.map]

theorem resolveIn_reopened (hm : memo.find? t = none) (ho : t ∈ opened) :
    s.resolveIn opened t memo =
      ⟨⟨some .object, .fully⟩, memo, some (opened.length - 1 - opened.idxOf t)⟩ := by
  rw [resolveIn, hm]
  simp only [ho, dif_pos]

theorem resolveIn_of_assumed {v : Variant} {memo' : Memo} {i : Nat}
    (hm : memo.find? t = none) (ho : t ∉ opened) (hv : s.variant? t = some v)
    (hs : s.supportIn opened t memo v ho = ⟨.fully, memo', some i⟩) (hi : i < opened.length) :
    s.resolveIn opened t memo = ⟨⟨some v, .fully⟩, memo', some i⟩ := by
  rw [resolveIn]
  simp [hm, ho, hv, hs, Finding.map, hi]

theorem propertiesIn_of_refused (owner : ClassName) {p : Property} (rest : List Property)
    {v? : Option Variant} {r : Reason} {memo' : Memo} {a? : Option Nat}
    (hd : s.isDeferrable p.type = false)
    (hp : s.resolveIn opened p.type memo = ⟨⟨v?, .unsupported r⟩, memo', a?⟩) :
    s.propertiesIn opened owner (p :: rest) memo =
      ⟨.unsupported (.property owner p.key r), memo', a?⟩ := by
  rw [propertiesIn]
  simp only [hp, propertySupport, hd, Bool.false_eq_true, if_false]

namespace Circle

/-- The reason that a list that a class holds gives. -/
def through (n k m : String) (r : Reason) : Reason := .property ⟨n⟩ k (.element (listOf m) r)

variable (s) in
/-- Whether a class holds a list of another class and then one of a platform class. -/
structure Holder (n k m l p : String) : Prop where
  variant?_eq : s.variant? (.cls ⟨n⟩) = some .object
  class?_eq : ∃ c, s.index.class? ⟨n⟩ = some c ∧ (s.index.inspect c).impossibility? = none ∧
    s.properties (s.index.inspect c) = [held k (listOf m), held l (listOf p)]
  refused : s.variant? (.cls ⟨p⟩) = none
  platform : ClassName.isPlatform ⟨p⟩ = true

variable {n k m l p k' l' q : String}

theorem resolveIn_listOf {r : Reason} {memo' : Memo} {v? : Option Variant} {a? : Option Nat}
    (hm : memo.find? (listOf m) = none) (ho : listOf m ∉ opened)
    (h : s.resolveIn (listOf m :: opened) (.cls ⟨m⟩) memo = ⟨⟨v?, .unsupported r⟩, memo', a?⟩) :
    s.resolveIn opened (listOf m) memo = ⟨⟨none, .unsupported (.element (listOf m) r)⟩,
      memo'.record (listOf m) ⟨none, .unsupported (.element (listOf m) r)⟩,
      a?.filter (· < opened.length)⟩ := by
  refine resolveIn_of_refused hm ho rfl ?_
  rw [supportIn_of_element? (by simp) ho rfl, h]
  rfl

theorem Holder.resolveIn_platform (h : Holder s n k m l p) (opened : List TypeRef)
    (hm : memo.find? (listOf p) = none)
    (hm' : memo.find? (.cls ⟨p⟩) = none) (ho : listOf p ∉ opened) (ho' : .cls ⟨p⟩ ∉ opened) :
    ∃ memo', s.resolveIn opened (listOf p) memo =
      ⟨⟨none, .unsupported (.element (listOf p) (.platformClass ⟨p⟩))⟩, memo', none⟩ := by
  have hc := resolveIn_of_unmatched (listOf p :: opened) hm' (by simp [ho', listOf])
    h.refused
  rw [unmatched, if_pos h.platform] at hc
  exact ⟨_, resolveIn_listOf hm ho hc⟩

theorem resolveIn_back (opened : List TypeRef) (hm : memo.find? (listOf n) = none)
    (hm' : memo.find? (.cls ⟨n⟩) = none) (ho : listOf n ∉ opened) (ho' : .cls ⟨n⟩ ∈ opened) :
    ∃ i, s.resolveIn opened (listOf n) memo = ⟨⟨some .collection, .fully⟩, memo, some i⟩ := by
  refine ⟨opened.length - (opened.idxOf (.cls ⟨n⟩) + 1), resolveIn_of_assumed hm ho rfl ?_ ?_⟩
  · rw [supportIn_of_element? (by simp) ho rfl, resolveIn_reopened hm' (List.mem_cons_of_mem _ ho')]
    have hne : (listOf n == .cls ⟨n⟩) = false := rfl
    rw [List.idxOf_cons, hne]
    rfl
  · have := List.idxOf_lt_length_of_mem ho'
    omega

/-- The other class of a circle has no support because of what it holds besides the first one. -/
theorem Holder.resolveIn_inner (h : Holder s m k' n l' q) (hnm : n ≠ m) (hnq : n ≠ q)
    (hmq : m ≠ q) (hnone : ∀ t, memo.find? t = none) :
    ∃ memo' a?, s.resolveIn [listOf m, .cls ⟨n⟩] (.cls ⟨m⟩) memo =
      ⟨⟨none, .unsupported (through m l' q (.platformClass ⟨q⟩))⟩,
        Memo.record memo' (.cls ⟨m⟩) ⟨none, .unsupported (through m l' q (.platformClass ⟨q⟩))⟩,
        a?⟩ := by
  have hopen : .cls ⟨m⟩ ∉ [listOf m, .cls ⟨n⟩] := by simp [listOf, hnm.symm]
  have hinspect : ∀ t, (memo.inspect ⟨m⟩).find? t = none :=
    fun t => (find?_inspect _).trans (hnone t)
  obtain ⟨c, hc, hi, hps⟩ := h.class?_eq
  obtain ⟨i, hback⟩ := resolveIn_back (s := s) [.cls ⟨m⟩, listOf m, .cls ⟨n⟩]
    (hinspect (listOf n)) (hinspect _) (by simp [listOf, hnm]) (by simp)
  obtain ⟨memo', hplatform⟩ := h.resolveIn_platform [.cls ⟨m⟩, listOf m, .cls ⟨n⟩]
    (hinspect _) (hinspect _) (by simp [listOf, hmq.symm]) (by simp [listOf, hmq.symm, hnq.symm])
  have hback : s.resolveIn [.cls ⟨m⟩, listOf m, .cls ⟨n⟩] (held k' (listOf n)).type
      (memo.inspect ⟨m⟩) = ⟨⟨some .collection, .fully⟩, memo.inspect ⟨m⟩, some i⟩ := hback
  have hs : s.supportIn [listOf m, .cls ⟨n⟩] (.cls ⟨m⟩) memo .object hopen =
      ⟨.unsupported (through m l' q (.platformClass ⟨q⟩)), memo', some i⟩ := by
    rw [supportIn_of_possible hopen hc hi, hps, propertiesIn_of_supported]
    · simp only [hback]
      rw [propertiesIn_of_refused _ _ rfl hplatform]
      rfl
    · intro r hr
      rw [hback] at hr
      cases hr
  exact ⟨memo', _, resolveIn_of_refused (hnone _) hopen h.variant?_eq hs⟩

/-- **The class of a circle that comes first has no support because of what the other one holds**,
and the other one because of what it holds itself. -/
theorem Holder.resolve (h : Holder s n k m l p) (h' : Holder s m k' n l' q)
    (hnm : n ≠ m) (hnq : n ≠ q) (hmq : m ≠ q) :
    (s.resolve (.cls ⟨n⟩) {}).1.support =
      .unsupported (through n k m (through m l' q (.platformClass ⟨q⟩))) ∧
    (s.resolve (.cls ⟨n⟩) {}).2.find? (.cls ⟨m⟩) =
      some ⟨none, .unsupported (through m l' q (.platformClass ⟨q⟩))⟩ := by
  obtain ⟨c, hc, hi, hps⟩ := h.class?_eq
  have hinspect : ∀ t, (({} : Memo).inspect ⟨n⟩).find? t = none := fun t => find?_inspect _
  obtain ⟨memo', a?, hinner⟩ := h'.resolveIn_inner hnm hnq hmq hinspect
  have hlist := resolveIn_listOf (hinspect _) (by simp [listOf]) hinner
  have hs := propertiesIn_of_refused ⟨n⟩ (p := held k (listOf m)) [held l (listOf p)] rfl hlist
  rw [← hps, ← supportIn_of_possible (by simp) hc hi] at hs
  have hn := resolveIn_of_refused rfl (by simp) h.variant?_eq hs
  rw [Schema.resolve, hn]
  refine ⟨rfl, ?_⟩
  simp [find?_record, hnm.symm, listOf]

theorem holder_first : Holder circle "com.acme.A" "bs" "com.acme.B" "owner" "java.lang.Object" where
  variant?_eq := variant?_first
  class?_eq := ⟨first, class?_first, by cbv, properties_first⟩
  refused := (variant?_platform (.head _)).2
  platform := (variant?_platform (.head _)).1

theorem holder_second :
    Holder circle "com.acme.B" "as" "com.acme.A" "worker" "java.lang.Thread" where
  variant?_eq := variant?_second
  class?_eq := ⟨second, class?_second, by cbv, properties_second⟩
  refused := (variant?_platform (.tail _ (.head _))).2
  platform := (variant?_platform (.tail _ (.head _))).1

end Circle

end JsonBinding.Schema
