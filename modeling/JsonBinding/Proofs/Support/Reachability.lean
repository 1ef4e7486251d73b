import JsonBinding.Support.Resolution
import Mathlib.Logic.Relation
import Mathlib.Tactic.SplitIfs

/-!
# What a type rests on

How well values of a type can be written is a matter of reachability. A type is hopeless when it has
no written form by itself; it rests on its element, on the values of its entries and on the types of
its properties.

* `Schema.shape?`: the first form in the order of trial whose shape a type has (`Schema.admits`);
  `variant?_eq_some_iff` compares it with `Schema.variant?`.
* `Schema.Hopeless`, `Schema.Part`, `Schema.FirmPart`: hopeless types, the parts of a type, and the
  parts that are not left to the generic writer.
* `Schema.Blocked`, `Schema.Leaky`: a type that reaches a hopeless one through firm parts, and a
  type that reaches a class with a deferred property.
* `Schema.Lost`: reachability of a hopeless type off some trusted types; `Lost.close` withdraws the
  trust in a type, **`lost_part_iff`** reads `Leaky` as reachability.
-/

namespace JsonBinding

/-- The forms that a type is tried for, in order. -/
def Variant.tried : List Variant := [
  .primitive, .boxed, .string, .date, .optional, .collection, .map, .object]

namespace Schema

variable (s : Schema)

/-! ## Shapes -/

/-- Whether a type has the shape of a form. -/
def admits : Variant → TypeRef → Bool
  | .primitive, .prim p => p ≠ .void
  | .boxed, .cls n => n.text ∈ Platform.boxed
  | .string, .cls n => n.text ∈ Platform.strings || s.isEnum n
  | .date, .cls n => n.text ∈ Platform.dates
  | .optional, t => t.kind = .optional
  | .collection, t => t.kind = .collection || t.kind = .array
  | .map, t => t.kind = .map
  | .object, .cls n => !n.isPlatform && (s.index.class? n).isSome
  | _, _ => false

/-- The first form in the order of trial whose shape a type has. -/
def shape? (t : TypeRef) : Option Variant := Variant.tried.find? fun v => s.admits v t

variable {s} {t u : TypeRef} {v : Variant}

theorem shape?_prim (p : Primitive) :
    s.shape? (.prim p) = if p = .void then none else some .primitive := by
  cases p <;> rfl

theorem shape?_array (t : TypeRef) : s.shape? (.array t) = some .collection := rfl

theorem shape?_var (n : String) : s.shape? (.var n) = none := rfl

theorem shape?_wildcard : s.shape? .wildcard = none := rfl

theorem shape?_app (raw : ClassName) (args : List TypeRef) :
    s.shape? (.app raw args) = s.variant? (.app raw args) := by
  simp only [shape?, Variant.tried, List.find?_cons, List.find?_nil, admits, variant?, TypeRef.kind]
  split_ifs <;> rfl

theorem shape?_cls (n : ClassName) : s.shape? (.cls n) =
    if s.variant? (.cls n) = some .object ∧ s.index.class? n = none then none
    else s.variant? (.cls n) := by
  simp only [shape?, Variant.tried, List.find?_cons, List.find?_nil, admits, variant?, TypeRef.kind]
  by_cases hb : n.text ∈ Platform.boxed
  · simp [hb]
  by_cases hs : (n.text ∈ Platform.strings || s.isEnum n) = true
  · simp only [hb, hs]; simp
  by_cases hd : n.text ∈ Platform.dates
  · simp only [hb, hs, hd]; simp
  by_cases ho : n.text ∈ Platform.primitiveOptionals
  · simp only [hb, hs, hd, ho]; simp
  by_cases hp : n.isPlatform = true
  · simp only [hb, hs, hd, ho, hp]; simp
  cases hc : s.index.class? n <;> simp only [hb, hs, hd, ho, hp] <;> simp

/-- **The form that a shape calls for is the first one in order that the type has the shape of**,
but that a class which the index does not know is tried for an object. -/
theorem variant?_eq_some_iff : s.variant? t = some v ↔
    s.shape? t = some v ∨
      v = .object ∧ s.shape? t = none ∧ s.variant? t = some .object ∧
        ∃ n, t = .cls n ∧ s.index.class? n = none := by
  cases t with
  | prim p => cases p <;> simp [shape?_prim, variant?]
  | array c => simp [shape?_array, variant?]
  | app raw args => simp [shape?_app]
  | var n => simp [shape?_var, variant?]
  | wildcard => simp [shape?_wildcard, variant?]
  | cls n =>
    rw [shape?_cls]
    by_cases h : s.variant? (.cls n) = some .object ∧ s.index.class? n = none
    · rw [if_pos h]
      simp [h.1, h.2, eq_comm]
    · rw [if_neg h]
      refine ⟨.inl, ?_⟩
      rintro (hv | ⟨-, -, hv, m, hm, hc⟩)
      · exact hv
      · cases hm; exact absurd ⟨hv, hc⟩ h

theorem variant?_of_shape? (h : s.shape? t = some v) : s.variant? t = some v :=
  variant?_eq_some_iff.mpr (.inl h)

theorem shape?_of_variant? (h : s.variant? t = some v) (hv : v ≠ .object) : s.shape? t = some v :=
  (variant?_eq_some_iff.mp h).resolve_right fun h' => hv h'.1

theorem shape?_of_class? {n : ClassName} {c : ClassInfo} (h : s.variant? (.cls n) = some .object)
    (hc : s.index.class? n = some c) : s.shape? (.cls n) = some .object := by
  rw [shape?_cls, if_neg (by simp [hc]), h]

theorem shape?_eq_none_of_variant? (h : s.variant? t = none) : s.shape? t = none := by
  cases hs : s.shape? t with
  | none => rfl
  | some v => rw [variant?_of_shape? hs] at h; cases h

theorem exists_cls_of_object (h : s.variant? t = some .object) : ∃ n, t = .cls n := by
  cases t with
  | cls n => exact ⟨n, rfl⟩
  | prim p => cases p <;> cases h
  | app raw args => simp only [variant?] at h; split at h <;> cases h
  | _ => cases h

theorem variant?_ne_unhandled : s.variant? t ≠ some .unhandled := by
  intro h
  have hs := shape?_of_variant? h (by decide)
  have := List.mem_of_find?_eq_some hs
  simp [Variant.tried] at this

/-! ## Platform classes -/

/-- The classes with a form of their own belong to the platform. -/
theorem isPlatform_of_known : ∀ t ∈ Platform.boxed ++ Platform.strings ++ Platform.dates ++
    Platform.primitiveOptionals, (⟨t⟩ : ClassName).isPlatform = true := by decide +kernel

/-- A class that is none of those with a form of their own is written by its properties, unless it
belongs to the platform. -/
theorem variant?_of_unknown {n : ClassName} (hn : n.text ∉ Platform.boxed ++ Platform.strings ++
    Platform.dates ++ Platform.primitiveOptionals) (he : s.isEnum n = false) :
    s.variant? (.cls n) = if n.isPlatform then none else some .object := by
  simp only [List.mem_append, not_or] at hn
  obtain ⟨⟨⟨hb, hs⟩, hd⟩, ho⟩ := hn
  simp [variant?, hb, hs, hd, ho, he]

theorem variant?_of_own {n : ClassName} (hp : n.isPlatform = false) (he : s.isEnum n = false) :
    s.variant? (.cls n) = some .object := by
  rw [variant?_of_unknown _ he, hp]
  · rfl
  · intro hn
    have : n.isPlatform = true := isPlatform_of_known n.text hn
    rw [hp] at this
    cases this

/-! ## Parts -/

variable (s) in
/-- The types without a written form of their own. -/
inductive Hopeless : TypeRef → Prop
  | void : Hopeless (.prim .void)
  | var (n : String) : Hopeless (.var n)
  | wildcard : Hopeless .wildcard
  | generic {raw : ClassName} {args : List TypeRef} :
    (TypeRef.app raw args).kind = .generic → Hopeless (.app raw args)
  | noElement {t : TypeRef} : t.kind = .collection ∨ t.kind = .optional → t.element? = none →
    Hopeless t
  | noEntry {t : TypeRef} : t.kind = .map → t.key? = none ∨ t.value? = none → Hopeless t
  | badKey {t key : TypeRef} : t.key? = some key → s.isWritableKey key = false → Hopeless t
  | platform {n : ClassName} : n.isPlatform → s.shape? (.cls n) = none → Hopeless (.cls n)
  | missing {n : ClassName} : s.index.class? n = none → s.shape? (.cls n) = none → Hopeless (.cls n)
  | impossible {n : ClassName} {c : ClassInfo} {i : Impossibility} :
    s.shape? (.cls n) = some .object → s.index.class? n = some c →
      (s.index.inspect c).impossibility? = some i → Hopeless (.cls n)

variable (s) in
/-- The properties of a class that is written as an object. -/
def HasProperty (t : TypeRef) (p : Property) : Prop :=
  ∃ n c, t = .cls n ∧ s.shape? t = some .object ∧ s.index.class? n = some c ∧
    p ∈ s.properties (s.index.inspect c)

variable (s) in
/-- The element of an optional or a collection, the values of the entries of a map, and the types of
those properties of an object that count. -/
inductive PartWith (counts : TypeRef → Prop) : TypeRef → TypeRef → Prop
  | element {t u : TypeRef} : s.shape? t = some .optional ∨ s.shape? t = some .collection →
    t.element? = some u → PartWith counts t u
  | value {t u : TypeRef} : t.value? = some u → PartWith counts t u
  | property {t : TypeRef} {p : Property} : s.HasProperty t p → counts p.type →
    PartWith counts t p.type

variable (s) in
/-- The parts of a type. -/
abbrev Part : TypeRef → TypeRef → Prop := s.PartWith fun _ => True

variable (s) in
/-- The parts of a type that cannot be left to the generic writer. -/
abbrev FirmPart : TypeRef → TypeRef → Prop := s.PartWith fun u => s.isDeferrable u = false

variable (s) in
/-- Whether a type rests on a hopeless one. -/
def Blocked (t : TypeRef) : Prop := ∃ u, Relation.ReflTransGen s.FirmPart t u ∧ s.Hopeless u

variable (s) in
/-- Whether a property is left to the generic writer. -/
def Defers (t : TypeRef) (p : Property) : Prop :=
  s.HasProperty t p ∧ s.isDeferrable p.type = true ∧ s.Blocked p.type

variable (s) in
/-- The parts of a type that can be written. -/
def WrittenPart (t u : TypeRef) : Prop := s.Part t u ∧ ¬ s.Blocked u

variable (s) in
/-- Whether a type reaches, through types that can be written, a class with a property that is left
to the generic writer. -/
def Leaky (t : TypeRef) : Prop :=
  ∃ u p, Relation.ReflTransGen s.WrittenPart t u ∧ s.Defers u p

/-! ## Parts by form -/

theorem variant?_of_kind (h : t.kind = .collection ∨ t.kind = .optional) (he : t.element? = none) :
    s.variant? t = some .collection ∨ s.variant? t = some .optional := by
  cases t with
  | app raw args => rcases h with h | h <;> simp [variant?, h]
  | cls n =>
    have hk : (TypeRef.cls n).kind = .optional := by
      refine h.resolve_left ?_
      simp only [TypeRef.kind]
      split_ifs <;> simp
    simp [TypeRef.element?, hk] at he
  | _ => rcases h with h | h <;> cases h

theorem variant?_of_kind_map (h : t.kind = .map) : s.variant? t = some .map := by
  cases t with
  | app raw args => simp [variant?, h]
  | cls n =>
    simp only [TypeRef.kind] at h
    split_ifs at h
  | _ => cases h

theorem kind_of_key? (h : t.key? = some u) : t.kind = .map := by
  cases t with
  | app raw args =>
    simp only [TypeRef.key?] at h
    split_ifs at h with hk
    exact hk
  | _ => cases h

theorem kind_of_value? (h : t.value? = some u) : t.kind = .map := by
  cases t with
  | app raw args =>
    simp only [TypeRef.value?] at h
    split_ifs at h with hk
    exact hk
  | _ => cases h

theorem kind_of_variant? (h : s.variant? t = some .collection ∨ s.variant? t = some .optional)
    (he : t.element? = none) : t.kind = .collection ∨ t.kind = .optional := by
  cases t with
  | app raw args =>
    simp only [variant?] at h
    split at h <;> simp_all
  | array c => cases he
  | cls n =>
    simp only [variant?] at h
    split_ifs at h with h1 h2 h3 h4 h5 <;> simp at h
    right
    simp only [TypeRef.kind, h1, if_false, h4, if_true]
  | prim p => cases p <;> simp [variant?] at h
  | _ => simp [variant?] at h

theorem kind_of_variant?_map (h : s.variant? t = some .map) : t.kind = .map := by
  cases t with
  | app raw args =>
    simp only [variant?] at h
    split at h <;> simp_all
  | cls n =>
    simp only [variant?] at h
    split_ifs at h <;> simp at h
  | prim p => cases p <;> simp [variant?] at h
  | _ => simp [variant?] at h

theorem shape?_eq_none_of_object {n : ClassName} (h : s.variant? (.cls n) = some .object)
    (hc : s.index.class? n = none) : s.shape? (.cls n) = none := by
  rw [shape?_cls, if_pos ⟨h, hc⟩]

theorem variant?_eq_none_or_object {n : ClassName} (h : s.shape? (.cls n) = none) :
    s.variant? (.cls n) = none ∨ s.variant? (.cls n) = some .object := by
  cases hv : s.variant? (.cls n) with
  | none => exact .inl rfl
  | some v =>
    by_cases ho : v = .object
    · exact .inr (by rw [ho])
    · rw [shape?_of_variant? hv ho] at h
      cases h

theorem isPlatform_of_object {n : ClassName} (h : s.variant? (.cls n) = some .object) :
    n.isPlatform = false := by
  simp only [variant?] at h
  split_ifs at h <;> simp_all

theorem hopeless_of_variant?_none (h : s.variant? t = none) : s.Hopeless t := by
  cases t with
  | prim p =>
    cases p
    case void => exact .void
    all_goals simp [variant?] at h
  | array c => cases h
  | var n => exact .var n
  | wildcard => exact .wildcard
  | cls n =>
    refine .platform ?_ (shape?_eq_none_of_variant? h)
    simp only [variant?] at h
    split_ifs at h with _ _ _ _ hp
    exact hp
  | app raw args =>
    refine .generic ?_
    simp only [variant?, TypeRef.kind] at h ⊢
    split_ifs at h ⊢
    simp_all

theorem Hopeless.by_form (h : s.Hopeless t) :
    s.variant? t = none ∨
    (s.variant? t = some .collection ∨ s.variant? t = some .optional) ∧ t.element? = none ∨
    s.variant? t = some .map ∧ (t.key? = none ∨ t.value? = none ∨
      ∃ key, t.key? = some key ∧ s.isWritableKey key = false) ∨
    ∃ n, t = .cls n ∧ s.variant? t = some .object ∧ ∀ c, s.index.class? n = some c →
      (s.index.inspect c).impossibility? ≠ none := by
  cases h with
  | void => exact .inl rfl
  | var n => exact .inl rfl
  | wildcard => exact .inl rfl
  | generic hk => exact .inl (by simp [variant?, hk])
  | noElement hk he => exact .inr (.inl ⟨variant?_of_kind hk he, he⟩)
  | noEntry hk hn =>
    refine .inr (.inr (.inl ⟨variant?_of_kind_map hk, ?_⟩))
    rcases hn with hn | hn
    · exact .inl hn
    · exact .inr (.inl hn)
  | @badKey t key hk hw =>
    exact .inr (.inr (.inl ⟨variant?_of_kind_map (kind_of_key? hk), .inr (.inr ⟨key, hk, hw⟩)⟩))
  | @platform n hp hs =>
    rcases variant?_eq_none_or_object hs with hv | hv
    · exact .inl hv
    · rw [isPlatform_of_object hv] at hp
      cases hp
  | @missing n hc hs =>
    rcases variant?_eq_none_or_object hs with hv | hv
    · exact .inl hv
    · exact .inr (.inr (.inr ⟨n, rfl, hv, fun c h => by rw [hc] at h; cases h⟩))
  | @impossible n c i hs hc hi =>
    refine .inr (.inr (.inr ⟨n, rfl, variant?_of_shape? hs, fun c' hc' => ?_⟩))
    rw [hc] at hc'
    cases hc'
    simp [hi]

theorem PartWith.by_form {counts : TypeRef → Prop} (h : s.PartWith counts t u) :
    (s.variant? t = some .optional ∨ s.variant? t = some .collection) ∧ t.element? = some u ∨
    s.variant? t = some .map ∧ t.value? = some u ∨
    s.variant? t = some .object ∧ ∃ p, s.HasProperty t p ∧ counts p.type ∧ p.type = u := by
  cases h with
  | element hs he => exact .inl ⟨hs.imp variant?_of_shape? variant?_of_shape?, he⟩
  | value he => exact .inr (.inl ⟨variant?_of_kind_map (kind_of_value? he), he⟩)
  | @property p hp hc =>
    obtain ⟨n, c, rfl, hs, hcl, hm⟩ := hp
    exact .inr (.inr ⟨variant?_of_shape? hs, p, ⟨n, c, rfl, hs, hcl, hm⟩, hc, rfl⟩)

/-! ## Lost types -/

variable (s) in
/-- The types that reach a hopeless type by steps of `R` off the types that are trusted. -/
inductive Lost (R : TypeRef → TypeRef → Prop) (trusted : List TypeRef) : TypeRef → Prop
  | here {t : TypeRef} : t ∉ trusted → s.Hopeless t → Lost R trusted t
  | step {t u : TypeRef} : t ∉ trusted → R t u → Lost R trusted u → Lost R trusted t

variable {R R' : TypeRef → TypeRef → Prop} {A B : List TypeRef}

theorem Lost.notMem (h : s.Lost R A t) : t ∉ A := by cases h <;> assumption

theorem Lost.anti (hAB : A ⊆ B) (h : s.Lost R B t) : s.Lost R A t := by
  induction h with
  | here hn hh => exact .here (fun hA => hn (hAB hA)) hh
  | step hn hr _ ih => exact .step (fun hA => hn (hAB hA)) hr ih

theorem Lost.mono (hR : ∀ a b, R a b → R' a b) (h : s.Lost R A t) : s.Lost R' A t := by
  induction h with
  | here hn hh => exact .here hn hh
  | step hn hr _ ih => exact .step hn (hR _ _ hr) ih

/-- **Withdrawing trust.** A type whose parts can do without a hopeless type as long as it is
trusted itself can do without one. -/
theorem Lost.close (hh : ¬ s.Hopeless t) (hp : ∀ u, R t u → ¬ s.Lost R (t :: A) u) :
    ¬ s.Lost R A t := by
  have key : ∀ x, s.Lost R A x → x ≠ t ∧ s.Lost R (t :: A) x := by
    intro x hx
    induction hx with
    | @here x hn hx =>
      have hxt : x ≠ t := fun e => hh (e ▸ hx)
      exact ⟨hxt, .here (by simp [hxt, hn]) hx⟩
    | @step x u hn hr _ ih =>
      have hxt : x ≠ t := fun e => hp u (e ▸ hr) ih.2
      exact ⟨hxt, .step (by simp [hxt, hn]) hr ih.2⟩
  exact fun h => (key t h).1 rfl

theorem lost_nil_iff : s.Lost R [] t ↔ ∃ u, Relation.ReflTransGen R t u ∧ s.Hopeless u := by
  constructor
  · intro h
    induction h with
    | @here t _ hh => exact ⟨t, .refl, hh⟩
    | step _ hr _ ih =>
      obtain ⟨u, hu, hh⟩ := ih
      exact ⟨u, .head hr hu, hh⟩
  · rintro ⟨u, hu, hh⟩
    induction hu using Relation.ReflTransGen.head_induction_on with
    | refl => exact .here List.not_mem_nil hh
    | head hr _ ih => exact .step List.not_mem_nil hr ih

theorem blocked_iff : s.Blocked t ↔ s.Lost s.FirmPart [] t := lost_nil_iff.symm

theorem Blocked.step (hr : s.FirmPart t u) (h : s.Blocked u) : s.Blocked t := by
  obtain ⟨w, hw, hh⟩ := h
  exact ⟨w, .head hr hw, hh⟩

theorem PartWith.mono {counts counts' : TypeRef → Prop} (h : ∀ u, counts u → counts' u)
    (hp : s.PartWith counts t u) : s.PartWith counts' t u := by
  cases hp with
  | element hs he => exact .element hs he
  | value he => exact .value he
  | property hpr hc => exact .property hpr (h _ hc)

theorem Part.firm_or_deferrable (h : s.Part t u) :
    s.FirmPart t u ∨ ∃ p, s.HasProperty t p ∧ p.type = u ∧ s.isDeferrable p.type = true := by
  cases h with
  | element hs he => exact .inl (.element hs he)
  | value he => exact .inl (.value he)
  | @property p hp _ =>
    by_cases hd : s.isDeferrable p.type = true
    · exact .inr ⟨p, hp, rfl, hd⟩
    · exact .inl (.property hp (Bool.eq_false_iff.mpr hd))

theorem Lost.of_blocked (h : s.Blocked t) : s.Lost s.Part [] t :=
  (blocked_iff.mp h).mono fun _ _ => PartWith.mono fun _ _ => trivial

/-- **A type that can be written reaches a hopeless one just when it leaves a property to the
generic writer.** -/
theorem lost_part_iff (ht : ¬ s.Blocked t) : s.Lost s.Part [] t ↔ s.Leaky t := by
  constructor
  · intro h
    induction h with
    | @here t _ hh => exact absurd ⟨t, .refl, hh⟩ ht
    | @step t u _ hr _ ih =>
      by_cases hu : s.Blocked u
      · rcases Part.firm_or_deferrable hr with hf | ⟨p, hp, rfl, hd⟩
        · exact absurd (hu.step hf) ht
        · exact ⟨t, p, .refl, hp, hd, hu⟩
      · obtain ⟨w, p, hw, hp⟩ := ih hu
        exact ⟨w, p, .head ⟨hr, hu⟩ hw, hp⟩
  · rintro ⟨u, p, hu, hp, -, hb⟩
    induction hu using Relation.ReflTransGen.head_induction_on with
    | refl => exact .step List.not_mem_nil (.property hp trivial) (.of_blocked hb)
    | head hr _ ih => exact .step List.not_mem_nil hr.1 (ih hr.2)

end Schema

end JsonBinding
