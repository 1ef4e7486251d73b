import JsonBinding.Program.Build
import JsonBinding.Proofs.Support.Walk

/-!
# The level of support

The level that a type is resolved to depends on what the type reaches and on nothing that was
resolved before.

* `Schema.Grade`: a way to measure support that only some properties bear on; `Grade.judgement`
  tells whether a type is lost by it.
* `Schema.Reached`: what may be remembered after some resolutions.
* **`Reached.exact`**, **`Reached.exact_resolve`**: the level and the form of a type by
  reachability, after any resolutions.
-/

namespace JsonBinding.Schema

variable (s : Schema)

/-! ## Grades -/

/-- A way to tell good support from bad. A whole is good when all of its parts that count are. -/
structure Grade where
  counts : TypeRef → Prop
  good : Support → Prop
  good_fully : good .fully
  not_good (r : Reason) : ¬ good (.unsupported r)
  good_inContainer (t : TypeRef) (σ : Support) : good (σ.inContainer t) ↔ good σ
  good_weaker (σ τ : Support) : good (σ.weaker τ) ↔ good σ ∧ good τ
  good_property (owner : ClassName) (p : Property) (σ : Support) :
    good (s.propertySupport owner p σ) ↔ (counts p.type → good σ)

namespace Grade

variable {s} (g : Grade s) {part : TypeRef → Support → Prop} {t : TypeRef} {σ : Support}
  {owner : ClassName} {ps : List Property} {A : List TypeRef}

theorem givesAll_good (h : s.GivesAll part owner ps σ) (hσ : g.good σ) :
    ∀ p ∈ ps, g.counts p.type → ∃ τ, part p.type τ ∧ g.good τ := by
  induction h with
  | nil => simp
  | stop _ _ => exact absurd hσ (g.not_good _)
  | @cons p rest τ τ' hp _ _ ih =>
    rw [g.good_weaker, g.good_property] at hσ
    intro q hq hc
    rcases List.mem_cons.mp hq with rfl | hq
    · exact ⟨τ, hp, hσ.1 hc⟩
    · exact ih hσ.2 q hq hc

theorem givesAll_bad (h : s.GivesAll part owner ps σ) (hσ : ¬ g.good σ) :
    ∃ p ∈ ps, g.counts p.type ∧ ∃ τ, part p.type τ ∧ ¬ g.good τ := by
  induction h with
  | nil => exact absurd g.good_fully hσ
  | @stop p rest τ r hp hr =>
    rw [← hr, g.good_property, Classical.not_imp] at hσ
    exact ⟨p, List.mem_cons_self, hσ.1, τ, hp, hσ.2⟩
  | @cons p rest τ τ' hp _ _ ih =>
    rw [g.good_weaker, Classical.not_and_iff_not_or_not] at hσ
    rcases hσ with hσ | hσ
    · rw [g.good_property, Classical.not_imp] at hσ
      exact ⟨p, List.mem_cons_self, hσ.1, τ, hp, hσ.2⟩
    · obtain ⟨q, hq, h⟩ := ih hσ
      exact ⟨q, List.mem_cons_of_mem _ hq, h⟩

theorem gives_good (h : s.Gives part t σ) (hσ : g.good σ) :
    ¬ s.Hopeless t ∧ ∀ u, s.PartWith g.counts t u → ∃ τ, part u τ ∧ g.good τ := by
  cases h with
  | unmatched | noElement | noEntry | badKey | missing | impossible =>
    exact absurd hσ (g.not_good _)
  | @scalar _ v hv hm =>
    have hv' : v ≠ .object := by rintro rfl; simp at hm
    constructor
    · intro h
      have := h.by_form
      rw [hv] at this
      grind
    · intro u hu
      have := hu.by_form
      rw [hv] at this
      grind
  | @element _ u v τ hv hm he hp =>
    constructor
    · intro h
      have := h.by_form
      rw [hv, he] at this
      grind
    · intro w hw
      have := hw.by_form
      rw [hv, he] at this
      rw [g.good_inContainer] at hσ
      grind
  | @value _ key u τ hv hk hw hu hp =>
    constructor
    · intro h
      have := h.by_form
      rw [hv, hk, hu] at this
      grind
    · intro w hw
      have := hw.by_form
      rw [hv, hu] at this
      rw [g.good_inContainer] at hσ
      grind
  | @properties n c _ hv hc hi hg =>
    constructor
    · intro h
      have := h.by_form
      rw [hv] at this
      grind
    · intro w hw
      have := hw.by_form
      rw [hv] at this
      obtain ⟨p, hp, hcp, rfl⟩ : ∃ p, s.HasProperty (.cls n) p ∧ g.counts p.type ∧ p.type = w := by
        grind
      obtain ⟨n', c', hn, hs, hc', hm⟩ := hp
      cases hn
      rw [hc] at hc'
      cases hc'
      exact g.givesAll_good hg hσ p hm hcp

theorem gives_bad (h : s.Gives part t σ) (hσ : ¬ g.good σ) :
    s.Hopeless t ∨ ∃ u, s.PartWith g.counts t u ∧ ∃ τ, part u τ ∧ ¬ g.good τ := by
  cases h with
  | unmatched hv => exact .inl (hopeless_of_variant?_none hv)
  | scalar => exact absurd g.good_fully hσ
  | @noElement _ v hv hm he =>
    have hv' : s.variant? t = some .collection ∨ s.variant? t = some .optional := by
      rw [hv]
      grind
    exact .inl (.noElement (kind_of_variant? hv' he) he)
  | @element _ u v τ hv hm he hp =>
    rw [g.good_inContainer] at hσ
    refine .inr ⟨u, .element ?_ he, τ, hp, hσ⟩
    rw [shape?_of_variant? hv (by rintro rfl; simp at hm)]
    grind
  | noEntry hv hn => exact .inl (.noEntry (kind_of_variant?_map hv) hn)
  | badKey _ hk hw _ => exact .inl (.badKey hk hw)
  | @value _ key u τ hv hk hw hu hp =>
    rw [g.good_inContainer] at hσ
    exact .inr ⟨u, .value hu, τ, hp, hσ⟩
  | missing hv hc => exact .inl (.missing hc (shape?_eq_none_of_object hv hc))
  | impossible hv hc hi => exact .inl (.impossible (shape?_of_class? hv hc) hc hi)
  | @properties n c _ hv hc hi hg =>
    obtain ⟨p, hp, hcp, τ, hτ⟩ := g.givesAll_bad hg hσ
    exact .inr ⟨p.type, .property ⟨n, c, rfl, shape?_of_class? hv hc, hc, hp⟩ hcp, τ, hτ⟩

/-- Good support of a type says that it is not lost off the types that are trusted, and bad support
that it is lost. -/
def judgement : Judgement s where
  holds A t σ := (g.good σ → ¬ s.Lost (s.PartWith g.counts) A t) ∧
    (¬ g.good σ → s.Lost (s.PartWith g.counts) [] t)
  trusted ht := ⟨fun _ h => h.notMem ht, fun h => absurd g.good_fully h⟩
  mono hAB h := ⟨fun hσ hl => h.1 hσ (hl.anti hAB), h.2⟩
  step := by
    intro A t σ _ hg
    constructor
    · intro hσ
      obtain ⟨hh, hp⟩ := g.gives_good hg hσ
      refine Lost.close hh fun u hu => ?_
      obtain ⟨τ, hτ, hgood⟩ := hp u hu
      exact hτ.1 hgood
    · intro hσ
      rcases g.gives_bad hg hσ with hh | ⟨u, hu, τ, hτ, hbad⟩
      · exact .here List.not_mem_nil hh
      · exact .step List.not_mem_nil hu (hτ.2 hbad)
  settle h := ⟨fun hσ => absurd hσ (g.not_good _), fun _ => h.2 (g.not_good _)⟩

theorem judgement_nil (h : g.judgement.holds [] t σ) :
    g.good σ ↔ ¬ s.Lost (s.PartWith g.counts) [] t := by
  by_cases hσ : g.good σ
  · simp [hσ, h.1 hσ]
  · simp [hσ, h.2 hσ]

end Grade

/-- Support at all, which the properties that may be left to the generic writer do not bear on. -/
def firm : Grade s where
  counts u := s.isDeferrable u = false
  good σ := σ.isSupported = true
  good_fully := rfl
  not_good _ := by simp
  good_inContainer t σ := by cases σ <;> simp [Support.inContainer]
  good_weaker σ τ := by
    cases σ <;> cases τ <;> simp [Support.weaker, Support.level, SupportLevel.rank]
  good_property owner p σ := by
    cases σ with
    | unsupported r => by_cases h : s.isDeferrable p.type = true <;> simp [propertySupport, h]
    | _ => simp [propertySupport]

/-- Full support, which every property bears on. -/
def whole : Grade s where
  counts _ := True
  good σ := σ = .fully
  good_fully := rfl
  not_good _ := by simp
  good_inContainer t σ := by cases σ <;> simp [Support.inContainer]
  good_weaker σ τ := by
    cases σ <;> cases τ <;> simp [Support.weaker, Support.level, SupportLevel.rank]
  good_property owner p σ := by
    cases σ with
    | unsupported r => by_cases h : s.isDeferrable p.type = true <;> simp [propertySupport, h]
    | _ => simp [propertySupport]

/-! ## What may be remembered -/

/-- What may be remembered after some resolutions and inspections. -/
inductive Reached : Memo → Prop
  | start : Reached {}
  | resolve {memo : Memo} (t : TypeRef) : Reached memo → Reached (s.resolve t memo).2
  | inspect {memo : Memo} (n : ClassName) : Reached memo → Reached (memo.inspect n)

variable {s} {memo : Memo} {t : TypeRef}

theorem Reached.remembered (h : s.Reached memo) (J : Judgement s) : J.Remembered memo := by
  induction h with
  | start => exact .start
  | resolve t _ ih => exact (Judgement.resolves_resolveIn [] t _ ih (by simp)).2
  | inspect n _ ih => exact ih.inspect n

theorem find?_resolve (t : TypeRef) (memo : Memo) :
    (s.resolve t memo).2.find? t = some (s.resolve t memo).1 := by
  rw [resolve, resolveIn]
  cases h : memo.find? t with
  | some r => simpa using h
  | none =>
    simp [Memo.find?, Memo.record]

theorem resolve_of_find? {r : Resolution} (h : memo.find? t = some r) :
    s.resolve t memo = (r, memo) := by
  rw [resolve, resolveIn, h]

/-! ## Exactness -/

/-- A type that is not hopeless has a form, which is the first one that it has the shape of. -/
theorem shape?_of_not_hopeless (h : ¬ s.Hopeless t) :
    ∃ v, s.variant? t = some v ∧ s.shape? t = some v := by
  cases hv : s.variant? t with
  | none => exact absurd (hopeless_of_variant?_none hv) h
  | some v =>
    rcases variant?_eq_some_iff.mp hv with hs | ⟨-, hs, ho, n, rfl, hc⟩
    · exact ⟨v, rfl, hs⟩
    · exact absurd (.missing hc hs) h

theorem not_hopeless_of_not_blocked (h : ¬ s.Blocked t) : ¬ s.Hopeless t :=
  fun hh => h ⟨t, .refl, hh⟩

variable (s) in
/-- A resolution that says of a type what can be read off the types that it reaches. -/
structure Exact (t : TypeRef) (r : Resolution) : Prop where
  unsupported : r.support.level = .unsupported ↔ s.Blocked t
  withUnhandled : r.support.level = .withUnhandled ↔ ¬ s.Blocked t ∧ s.Leaky t
  fully : r.support.level = .fully ↔ ¬ s.Blocked t ∧ ¬ s.Leaky t
  variant?_none : r.variant? = none ↔ s.Blocked t
  variant?_some : ∀ v, r.variant? = some v → s.shape? t = some v

theorem isSupported_iff {σ : Support} (h : s.firm.judgement.holds [] t σ) :
    σ.isSupported = true ↔ ¬ s.Blocked t := by
  rw [blocked_iff]
  exact s.firm.judgement_nil h

theorem eq_fully_iff {σ : Support} (h : s.whole.judgement.holds [] t σ) :
    σ = .fully ↔ ¬ s.Lost s.Part [] t :=
  s.whole.judgement_nil h

theorem exact_resolved {σ : Support} (hf : s.firm.judgement.holds [] t σ)
    (hw : s.whole.judgement.holds [] t σ) : s.Exact t (s.resolved t σ) := by
  have hb := isSupported_iff hf
  have hl := eq_fully_iff hw
  by_cases hB : s.Blocked t
  · obtain ⟨r, rfl⟩ : ∃ r, σ = .unsupported r := by
      cases σ with
      | unsupported r => exact ⟨r, rfl⟩
      | _ => simp [hB] at hb
    constructor <;> simp [resolved, hB, Support.level]
  · obtain ⟨v, hv, hs⟩ := shape?_of_not_hopeless (not_hopeless_of_not_blocked hB)
    rw [lost_part_iff hB] at hl
    cases σ with
    | unsupported r => simp [hB] at hb
    | withUnhandled => constructor <;> simp_all [resolved, Support.level]
    | fully => constructor <;> simp_all [resolved, Support.level]

theorem Reached.exact (h : s.Reached memo) {r : Resolution} (hr : memo.find? t = some r) :
    s.Exact t r := by
  obtain ⟨hf, he⟩ := h.remembered s.firm.judgement t r hr
  obtain ⟨hw, -⟩ := h.remembered s.whole.judgement t r hr
  rw [he]
  exact exact_resolved hf hw

theorem Reached.exact_resolve (h : s.Reached memo) (t : TypeRef) : s.Exact t (s.resolve t memo).1 :=
  (h.resolve t).exact (find?_resolve t memo)

end JsonBinding.Schema
