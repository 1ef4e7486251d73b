import JsonBinding.Proofs.Program.Kinds
import JsonBinding.Proofs.Support.Exactness

/-!
# Deferral policies

A laxer policy leaves more properties to the generic writer. Types gain support by it, and no type
with support changes.

* `Deferral.instLE`: the order of the policies.
* `Schema.under`: a schema under another policy; `Hopeless.under` and `PartWith.under` say what does
  not depend on the policy.
* `Blocked.tighten`: what a laxer policy cannot do without, a stricter one cannot.
* **`level_relaxed`**: what becomes of a type under a laxer policy.
* `support_relaxed`: the same for the three policies, one after the other.
* `office`: a class that is supported by other means under each laxer policy.
-/

namespace JsonBinding

/-- A policy is below another one that leaves at least as much to the generic writer. -/
instance Deferral.instLE : LE Deferral :=
  ⟨fun d e => (d.classes = true → e.classes = true) ∧ (d.arrays = true → e.arrays = true)⟩

instance (d e : Deferral) : Decidable (d ≤ e) :=
  inferInstanceAs (Decidable ((d.classes = true → e.classes = true) ∧
    (d.arrays = true → e.arrays = true)))

namespace Schema

/-- The schema with another deferral policy. -/
def under (s : Schema) (d : Deferral) : Schema :=
  { s with settings := { s.settings with deferral := d } }

variable {s : Schema} {d e : Deferral} {t u : TypeRef}

/-! ## What does not depend on the policy -/

theorem Hopeless.under (h : s.Hopeless t) (d : Deferral) : (s.under d).Hopeless t := by
  cases h with
  | void => exact .void
  | var n => exact .var n
  | wildcard => exact .wildcard
  | generic hk => exact .generic hk
  | noElement hk he => exact .noElement hk he
  | noEntry hk he => exact .noEntry hk he
  | badKey hk hw => exact .badKey hk hw
  | platform hp hs => exact .platform hp hs
  | missing hc hs => exact .missing hc hs
  | impossible hs hc hi => exact .impossible hs hc hi

theorem PartWith.under {counts counts' : TypeRef → Prop} (h : s.PartWith counts t u)
    (d : Deferral) (hc : ∀ u, counts u → counts' u) : (s.under d).PartWith counts' t u := by
  cases h with
  | element hs he => exact .element hs he
  | value he => exact .value he
  | property hp hcp => exact .property hp (hc _ hcp)

/-- Whether a type reaches a hopeless one at all is the same under every policy. -/
theorem Lost.under (h : s.Lost s.Part [] t) (d : Deferral) :
    (s.under d).Lost (s.under d).Part [] t := by
  induction h with
  | here _ hh => exact .here List.not_mem_nil (hh.under d)
  | step _ hp _ ih => exact .step List.not_mem_nil (hp.under d fun _ h => h) ih

/-! ## Stricter and laxer policies -/

theorem isDeferrable_relax (hde : d ≤ e) (h : (s.under d).isDeferrable t = true) :
    (s.under e).isDeferrable t = true := by
  cases t with
  | cls n => exact hde.1 h
  | array c =>
    have h := Bool.and_eq_true_iff.mp h
    exact Bool.and_eq_true_iff.mpr ⟨hde.2 h.1, h.2⟩
  | prim _ | app _ _ | var _ | wildcard => exact h

theorem firmPart_tighten (hde : d ≤ e) (h : (s.under e).FirmPart t u) :
    (s.under d).FirmPart t u :=
  PartWith.under h d fun _ he => Bool.eq_false_iff.mpr fun hd =>
    Bool.eq_false_iff.mp he (isDeferrable_relax hde hd)

/-- What a laxer policy cannot do without, a stricter one cannot. -/
theorem Blocked.tighten (hde : d ≤ e) (h : (s.under e).Blocked t) : (s.under d).Blocked t := by
  obtain ⟨u, hu, hh⟩ := h
  exact ⟨u, Relation.ReflTransGen.mono (fun _ _ => firmPart_tighten hde) _ _ hu, hh.under d⟩

/-! ## Levels -/

variable (s) in
/-- The level that a type is resolved to under a policy. -/
def levelUnder (d : Deferral) (t : TypeRef) (memo : Memo) : SupportLevel :=
  ((s.under d).resolve t memo).1.support.level

variable {memo memo' : Memo}

theorem fully_iff_not_lost (h : s.Reached memo) :
    (s.resolve t memo).1.support.level = .fully ↔ ¬ s.Lost s.Part [] t := by
  rw [(h.exact_resolve t).fully]
  by_cases hb : s.Blocked t
  · simp [hb, Lost.of_blocked hb]
  · simp [hb, lost_part_iff hb]

theorem levelUnder_fully_iff (hd : (s.under d).Reached memo) (he : (s.under e).Reached memo') :
    s.levelUnder d t memo = .fully ↔ s.levelUnder e t memo' = .fully := by
  rw [levelUnder, levelUnder, fully_iff_not_lost hd, fully_iff_not_lost he]
  exact not_congr ⟨fun h => h.under e, fun h => h.under d⟩

theorem levelUnder_unsupported_iff (hd : (s.under d).Reached memo) :
    s.levelUnder d t memo = .unsupported ↔ (s.under d).Blocked t :=
  (hd.exact_resolve t).unsupported

/-- **A laxer policy only adds support.** A type keeps its level, or it had no support and has some
that leaves values to the generic writer. -/
theorem level_relaxed (hde : d ≤ e) (hd : (s.under d).Reached memo)
    (he : (s.under e).Reached memo') :
    s.levelUnder e t memo' = s.levelUnder d t memo ∨
      s.levelUnder d t memo = .unsupported ∧ s.levelUnder e t memo' = .withUnhandled := by
  have hfully := levelUnder_fully_iff (t := t) hd he
  have hnone : s.levelUnder e t memo' = .unsupported → s.levelUnder d t memo = .unsupported :=
    fun h => (levelUnder_unsupported_iff hd).mpr
      (((levelUnder_unsupported_iff he).mp h).tighten hde)
  cases hl : s.levelUnder d t memo <;> cases hl' : s.levelUnder e t memo' <;> simp_all

theorem isSupported_relaxed (hde : d ≤ e) (hd : (s.under d).Reached memo)
    (he : (s.under e).Reached memo') (h : (s.levelUnder d t memo).isSupported = true) :
    (s.levelUnder e t memo').isSupported = true := by
  rcases level_relaxed (t := t) hde hd he with hl | ⟨hl, -⟩
  · rw [hl, h]
  · rw [hl] at h
    cases h

/-- **Relaxing the policy only adds support.** Whatever was resolved before under each of the
policies, a type that is supported when nothing is left to the generic writer is supported when
classes are, and then also when arrays are; and it is fully supported under one policy just when it
is under all of them. -/
theorem support_relaxed {memo : Deferral → Memo} (h : ∀ d, (s.under d).Reached (memo d))
    (t : TypeRef) :
    ((s.levelUnder .nothing t (memo .nothing)).isSupported = true →
      (s.levelUnder .classesOnly t (memo .classesOnly)).isSupported = true) ∧
    ((s.levelUnder .classesOnly t (memo .classesOnly)).isSupported = true →
      (s.levelUnder .classesAndArrays t (memo .classesAndArrays)).isSupported = true) ∧
    ((∃ d, s.levelUnder d t (memo d) = .fully) ↔ ∀ d, s.levelUnder d t (memo d) = .fully) := by
  refine ⟨isSupported_relaxed (by decide) (h _) (h _), isSupported_relaxed (by decide) (h _) (h _),
    ?_⟩
  constructor
  · rintro ⟨d, hd⟩ e
    exact (levelUnder_fully_iff (h d) (h e)).mp hd
  · intro hall
    exact ⟨.nothing, hall .nothing⟩

/-! ## A class that gains support -/

namespace Office

/-- A class whose instances hold one another and an array of a class of the platform. -/
def shift : ClassInfo where
  name := ⟨"com.acme.Shift"⟩
  fields := [Circle.holding "next" (.cls ⟨"com.acme.Shift"⟩),
    Circle.holding "workers" (.array (.cls ⟨"java.lang.Thread"⟩))]

/-- A class whose instances hold a shift. -/
def desk : ClassInfo where
  name := ⟨"com.acme.Desk"⟩
  fields := [Circle.holding "shift" (.cls ⟨"com.acme.Shift"⟩)]

end Office

/-- Desks and shifts. A desk leaves its shift to the generic writer as long as arrays may not be
left to it. -/
def office : Schema := {
  index := { classes := [Office.desk, Office.shift], nodup_names := by decide } }

namespace Office

theorem class?_desk : office.index.class? desk.name = some desk := rfl

theorem class?_shift : office.index.class? shift.name = some shift := rfl

theorem properties_desk : office.properties (office.index.inspect desk) =
    [Circle.held "shift" (.cls shift.name)] := by
  cbv

theorem properties_shift : office.properties (office.index.inspect shift) =
    [Circle.held "next" (.cls shift.name),
      Circle.held "workers" (.array (.cls ⟨"java.lang.Thread"⟩))] := by
  cbv

theorem variant?_desk : office.variant? (.cls desk.name) = some .object :=
  variant?_of_own (by simp [desk, ClassName.isPlatform]) rfl

theorem variant?_shift : office.variant? (.cls shift.name) = some .object :=
  variant?_of_own (by simp [shift, ClassName.isPlatform]) rfl

theorem variant?_thread : office.variant? (.cls ⟨"java.lang.Thread"⟩) = none := by
  rw [variant?_of_unknown (by decide) rfl]
  simp [ClassName.isPlatform]

theorem hopeless_thread : office.Hopeless (.cls ⟨"java.lang.Thread"⟩) :=
  .platform (by simp [ClassName.isPlatform]) (shape?_eq_none_of_variant? variant?_thread)

/-- A desk has no support when nothing is left to the generic writer. -/
theorem blocked_desk : (office.under .nothing).Blocked (.cls desk.name) := by
  have hdesk : office.HasProperty (.cls desk.name) (Circle.held "shift" (.cls shift.name)) :=
    ⟨_, desk, rfl, shape?_of_class? variant?_desk class?_desk, class?_desk,
      properties_desk ▸ .head _⟩
  have hshift : office.HasProperty (.cls shift.name)
      (Circle.held "workers" (.array (.cls ⟨"java.lang.Thread"⟩))) :=
    ⟨_, shift, rfl, shape?_of_class? variant?_shift class?_shift, class?_shift,
      properties_shift ▸ .tail _ (.head _)⟩
  have hthread : (office.under .nothing).Blocked (.cls ⟨"java.lang.Thread"⟩) :=
    ⟨_, .refl, hopeless_thread.under .nothing⟩
  exact .step (.property hdesk rfl)
    (.step (.property hshift rfl) (.step (.element (.inr rfl) rfl) hthread))

/-- A desk is supported as soon as its shift may be left to the generic writer. -/
theorem not_blocked_desk : ¬ (office.under .classesOnly).Blocked (.cls desk.name) := by
  refine not_blocked_of_firm variant?_desk class?_desk (by cbv) fun p hp hd => ?_
  have hp : p ∈ office.properties (office.index.inspect desk) := hp
  rw [properties_desk, List.mem_singleton] at hp
  rw [hp] at hd
  cases hd

/-- Shifts were resolved before. -/
def before (d : Deferral) : Memo := ((office.under d).resolve (.cls shift.name) {}).2

theorem support_relaxed_desk :
    (∀ d, (office.under d).Reached (before d)) ∧
    office.levelUnder .nothing (.cls desk.name) (before .nothing) = .unsupported ∧
    (office.levelUnder .classesOnly (.cls desk.name) (before .classesOnly)).isSupported = true ∧
    (office.levelUnder .classesAndArrays (.cls desk.name)
      (before .classesAndArrays)).isSupported = true ∧
    ¬ ∃ d, office.levelUnder d (.cls desk.name) (before d) = .fully := by
  have hr : ∀ d, (office.under d).Reached (before d) := fun d => .resolve _ .start
  have hnone := (levelUnder_unsupported_iff (hr .nothing)).mpr blocked_desk
  have hsome : (office.levelUnder .classesOnly (.cls desk.name)
      (before .classesOnly)).isSupported = true := by
    cases hl : office.levelUnder .classesOnly (.cls desk.name) (before .classesOnly) with
    | unsupported =>
      exact absurd ((levelUnder_unsupported_iff (hr .classesOnly)).mp hl) not_blocked_desk
    | withUnhandled | fully => rfl
  obtain ⟨-, harrays, hfully⟩ := support_relaxed hr (.cls desk.name)
  refine ⟨hr, hnone, hsome, harrays hsome, fun h => ?_⟩
  have := hfully.mp h .nothing
  rw [hnone] at this
  cases this

end Office

end Schema

end JsonBinding
