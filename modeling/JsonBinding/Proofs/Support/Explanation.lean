import JsonBinding.Proofs.Support.Level

/-!
# Why a type has no support

The reason that is found for a type depends on what was resolved before only where a type without
support comes back to itself.

* `Schema.Explains`: the reason that the first property without support gives, and so on down to a
  hopeless type; `Explains.unique` tells that there is one at most.
* `Schema.Straight`: a type none of whose parts comes back to itself.
* **`Reached.explains`**: the reason found for such a type, after any resolutions.
-/

namespace JsonBinding.Schema

variable (s : Schema)

/-! ## Explanations -/

/-- Why a type has no support: it is hopeless itself, or its element, the values of its entries or
the type of one of its properties has none, while those of the properties before have some or need
none. -/
inductive Explains : TypeRef → Reason → Prop
  | here {t : TypeRef} {r : Reason} : s.Gives (fun _ _ => False) t (.unsupported r) → Explains t r
  | element {t u : TypeRef} {v : Variant} {r : Reason} : s.variant? t = some v →
    v ∈ [.optional, .collection] → t.element? = some u → Explains u r → Explains t (.element t r)
  | value {t key u : TypeRef} {r : Reason} : s.variant? t = some .map → t.key? = some key →
    s.isWritableKey key = true → t.value? = some u → Explains u r → Explains t (.element t r)
  | property {n : ClassName} {c : ClassInfo} {before after : List Property} {p : Property}
    {r : Reason} : s.variant? (.cls n) = some .object → s.index.class? n = some c →
    (s.index.inspect c).impossibility? = none →
    s.properties (s.index.inspect c) = before ++ p :: after →
    (∀ q ∈ before, s.isDeferrable q.type = false → ¬ s.Blocked q.type) →
    s.isDeferrable p.type = false → Explains p.type r → Explains (.cls n) (.property n p.key r)

variable {s} {t u : TypeRef} {r r' : Reason} {memo : Memo}

theorem hopeless_of_gives (h : s.Gives (fun _ _ => False) t (.unsupported r)) : s.Hopeless t := by
  rcases s.firm.gives_bad h (s.firm.not_good r) with hh | ⟨_, _, _, h, -⟩
  · exact hh
  · exact h.elim

theorem Explains.blocked (h : s.Explains t r) : s.Blocked t := by
  induction h with
  | here h => exact ⟨_, .refl, hopeless_of_gives h⟩
  | @element t u v r hv hm he _ ih =>
    refine ih.step (.element ?_ he)
    rw [shape?_of_variant? hv (by rintro rfl; simp at hm)]
    grind
  | value _ _ _ hu _ ih => exact ih.step (.value hu)
  | @property n c before after p r hv hc _ hps _ hd _ ih =>
    refine ih.step (.property ⟨n, c, rfl, shape?_of_class? hv hc, hc, ?_⟩ hd)
    rw [hps]
    exact List.mem_append_right _ List.mem_cons_self

theorem split_unique {α : Type} {P : α → Prop} {xs ys xs' ys' : List α} {a a' : α}
    (h : xs ++ a :: ys = xs' ++ a' :: ys') (hx : ∀ x ∈ xs, ¬ P x) (hx' : ∀ x ∈ xs', ¬ P x)
    (ha : P a) (ha' : P a') : a = a' := by
  induction xs generalizing xs' with
  | nil =>
    cases xs' with
    | nil => simpa using congrArg List.head? h
    | cons b xs' =>
      cases h
      exact absurd ha (hx' a List.mem_cons_self)
  | cons b xs ih =>
    cases xs' with
    | nil =>
      cases h
      exact absurd ha' (hx _ List.mem_cons_self)
    | cons b' xs' =>
      injection h with _ h
      exact ih h (fun x hm => hx x (List.mem_cons_of_mem _ hm))
        (fun x hm => hx' x (List.mem_cons_of_mem _ hm))

theorem exists_stop {part : TypeRef → Support → Prop} {owner : ClassName} {ps : List Property}
    (h : s.GivesAll part owner ps (.unsupported r)) :
    ∃ before p after r', ps = before ++ p :: after ∧
      (∀ q ∈ before, ∃ τ, part q.type τ ∧ (s.propertySupport owner q τ).isSupported = true) ∧
      part p.type (.unsupported r') ∧ s.isDeferrable p.type = false ∧
      r = .property owner p.key r' := by
  generalize hσ : Support.unsupported r = σ at h
  induction h with
  | nil => cases hσ
  | @stop p rest σ r'' hp hr =>
    cases hσ
    cases σ with
    | unsupported r' =>
      simp only [propertySupport] at hr
      split_ifs at hr with hd
      cases hr
      exact ⟨[], p, rest, r', rfl, by simp, hp, Bool.eq_false_iff.mpr hd, rfl⟩
    | fully | withUnhandled => cases hr
  | @cons p rest σ τ hp hs _ ih =>
    have hτ : Support.unsupported r = τ := by
      rw [Support.weaker] at hσ
      split_ifs at hσ
      · exact hσ
      · rw [← hσ] at hs
        cases hs
    obtain ⟨before, q, after, r', rfl, hb, hq, hd, hr⟩ := ih hτ
    refine ⟨p :: before, q, after, r', rfl, ?_, hq, hd, hr⟩
    intro x hx
    rcases List.mem_cons.mp hx with rfl | hx
    · exact ⟨σ, hp, hs⟩
    · exact hb x hx

theorem gives_unique (h : s.Gives (fun _ _ => False) t (.unsupported r))
    (h' : s.Gives (fun _ _ => False) t (.unsupported r')) : r = r' := by
  have hstop : ∀ {n ps r}, ¬ s.GivesAll (fun _ _ => False) n ps (.unsupported r) := by
    intro n ps r h
    obtain ⟨_, _, _, _, -, -, h, -⟩ := exists_stop h
    exact h
  generalize hσ : Support.unsupported r = σ at h
  generalize hσ' : Support.unsupported r' = σ' at h'
  cases h <;> cases h' <;> grind

theorem not_hopeless_of_element {v : Variant} (hv : s.variant? t = some v)
    (hm : v ∈ [.optional, .collection]) (he : t.element? = some u) : ¬ s.Hopeless t := by
  intro h
  have := h.by_form
  rw [hv, he] at this
  grind

theorem not_hopeless_of_value {key : TypeRef} (hv : s.variant? t = some .map)
    (hk : t.key? = some key) (hw : s.isWritableKey key = true) (hu : t.value? = some u) :
    ¬ s.Hopeless t := by
  intro h
  have := h.by_form
  rw [hv, hk, hu] at this
  grind

theorem not_hopeless_of_class {n : ClassName} {c : ClassInfo}
    (hv : s.variant? (.cls n) = some .object) (hc : s.index.class? n = some c)
    (hi : (s.index.inspect c).impossibility? = none) : ¬ s.Hopeless (.cls n) := by
  intro h
  have := h.by_form
  rw [hv] at this
  grind

/-- **A type has one explanation at most.** -/
theorem Explains.unique (h : s.Explains t r) (h' : s.Explains t r') : r = r' := by
  induction h generalizing r' with
  | here h =>
    have hh := hopeless_of_gives h
    cases h' with
    | here h' => exact gives_unique h h'
    | element hv hm he => exact absurd hh (not_hopeless_of_element hv hm he)
    | value hv hk hw hu => exact absurd hh (not_hopeless_of_value hv hk hw hu)
    | property hv hc hi => exact absurd hh (not_hopeless_of_class hv hc hi)
  | @element t u v r hv hm he _ ih =>
    cases h' with
    | here h' => exact absurd (hopeless_of_gives h') (not_hopeless_of_element hv hm he)
    | element _ _ he' h' =>
      rw [he] at he'
      cases he'
      rw [ih h']
    | value hv' =>
      rw [hv] at hv'
      cases hv'
      simp at hm
    | property hv' =>
      rw [hv] at hv'
      cases hv'
      simp at hm
  | @value t key u r hv hk hw hu _ ih =>
    cases h' with
    | here h' => exact absurd (hopeless_of_gives h') (not_hopeless_of_value hv hk hw hu)
    | element hv' hm' =>
      rw [hv] at hv'
      cases hv'
      simp at hm'
    | value _ _ _ hu' h' =>
      rw [hu] at hu'
      cases hu'
      rw [ih h']
    | property hv' =>
      rw [hv] at hv'
      cases hv'
  | @property n c before after p r hv hc hi hps hq hd hp ih =>
    cases h' with
    | here h' => exact absurd (hopeless_of_gives h') (not_hopeless_of_class hv hc hi)
    | element hv' hm' =>
      rw [hv] at hv'
      cases hv'
      simp at hm'
    | value hv' =>
      rw [hv] at hv'
      cases hv'
    | @property _ c' before' after' p' r' _ hc' _ hps' hq' hd' hp' =>
      rw [hc] at hc'
      cases hc'
      have hpp : p = p' := by
        refine split_unique (P := fun q => s.isDeferrable q.type = false ∧ s.Blocked q.type)
          (hps.symm.trans hps') ?_ ?_ ⟨hd, hp.blocked⟩ ⟨hd', hp'.blocked⟩
        · exact fun q hm h => hq q hm h.1 h.2
        · exact fun q hm h => hq' q hm h.1 h.2
      subst hpp
      rw [ih hp']

/-! ## Straight types -/

variable (s) in
/-- Whether nothing without support that a type rests on comes back to itself. -/
def Straight (t : TypeRef) : Prop :=
  ∀ u a, Relation.ReflTransGen s.FirmPart t u → Relation.TransGen s.FirmPart u a →
    s.Blocked a → ¬ Relation.ReflTransGen s.Part a u

theorem Straight.step (h : s.Straight t) (hu : s.FirmPart t u) : s.Straight u :=
  fun w a hw => h w a (.head hu hw)

/-- A type without a form has no parts, and so none that comes back. -/
theorem straight_of_variant?_none (h : s.variant? t = none) : s.Straight t := by
  have hpart : ∀ u, ¬ s.FirmPart t u := by
    intro u hu
    have := hu.by_form
    rw [h] at this
    simp at this
  intro u a hu ha
  rcases hu.cases_head with rfl | ⟨w, hw, -⟩
  · obtain ⟨w, hw, -⟩ := Relation.TransGen.head'_iff.mp ha
    exact (hpart w hw).elim
  · exact (hpart w hw).elim

/-- A type without support leads to a hopeless one off the types that are trusted, or to one of
these that has no support either. -/
theorem Blocked.lost_or_trusted (h : s.Blocked t) (A : List TypeRef) :
    s.Lost s.FirmPart A t ∨ ∃ a ∈ A, Relation.ReflTransGen s.FirmPart t a ∧ s.Blocked a := by
  obtain ⟨w, hw, hh⟩ := h
  induction hw using Relation.ReflTransGen.head_induction_on with
  | refl =>
    by_cases hA : w ∈ A
    · exact .inr ⟨w, hA, .refl, w, .refl, hh⟩
    · exact .inl (.here hA hh)
  | @head t u hr hu ih =>
    by_cases hA : t ∈ A
    · exact .inr ⟨t, hA, .refl, w, .head hr hu, hh⟩
    · rcases ih with hl | ⟨a, ha, hp, hb⟩
      · exact .inl (.step hA hr hl)
      · exact .inr ⟨a, ha, .head hr hp, hb⟩

/-! ## Found reasons -/

/-- The property at which a walk stops explains a class, since none of those before it is without
support when nothing comes back to the class. -/
theorem explains_of_givesAll {A : List TypeRef} {n : ClassName} {c : ClassInfo}
    (hv : s.variant? (.cls n) = some .object) (hc : s.index.class? n = some c)
    (hi : (s.index.inspect c).impossibility? = none)
    (hA : ∀ a ∈ A, Relation.ReflTransGen s.Part a (.cls n)) (hs : s.Straight (.cls n))
    (h : s.GivesAll (fun u σ => s.firm.judgement.holds A u σ ∧
      ∀ r, σ = .unsupported r → s.Straight u → s.Explains u r) n
      (s.properties (s.index.inspect c)) (.unsupported r)) : s.Explains (.cls n) r := by
  obtain ⟨before, p, after, r', hps, hb, ⟨-, hp⟩, hd, rfl⟩ := exists_stop h
  have hfirm : ∀ q ∈ s.properties (s.index.inspect c), s.isDeferrable q.type = false →
      s.FirmPart (.cls n) q.type :=
    fun q hq hd => .property ⟨n, c, rfl, shape?_of_class? hv hc, hc, hq⟩ hd
  refine .property hv hc hi hps (fun q hq hdq hbq => ?_) hd (hp r' rfl (hs.step (hfirm p ?_ hd)))
  · obtain ⟨τ, ⟨hτ, -⟩, hsup⟩ := hb q hq
    have hgood : s.firm.good τ := (s.firm.good_property n q τ).mp hsup hdq
    have hpart : s.FirmPart (.cls n) q.type := hfirm q (hps ▸ List.mem_append_left _ hq) hdq
    rcases hbq.lost_or_trusted A with hl | ⟨a, ha, hqa, hba⟩
    · exact hτ.1 hgood hl
    · exact hs _ a .refl (.head' hpart hqa) hba (hA a ha)
  · rw [hps]
    exact List.mem_append_right _ List.mem_cons_self

variable (s) in
/-- The reason found for a straight type explains it. -/
def explanation : Judgement s where
  holds A t σ := s.firm.judgement.holds A t σ ∧
    ∀ r, σ = .unsupported r → s.Straight t → s.Explains t r
  trusted ht := ⟨s.firm.judgement.trusted ht, fun _ h => nomatch h⟩
  mono hAB h := ⟨s.firm.judgement.mono hAB h.1, h.2⟩
  settle h := ⟨s.firm.judgement.settle h.1, h.2⟩
  step := by
    intro A t σ hA hg
    refine ⟨s.firm.judgement.step hA (hg.mono fun _ _ h => h.1), ?_⟩
    rintro r rfl hs
    generalize hσ : Support.unsupported r = σ at hg
    cases hg with
    | unmatched hv => cases hσ; exact .here (.unmatched hv)
    | scalar => cases hσ
    | noElement hv hm he => cases hσ; exact .here (.noElement hv hm he)
    | noEntry hv hn => cases hσ; exact .here (.noEntry hv hn)
    | badKey hv hk hw hu => cases hσ; exact .here (.badKey hv hk hw hu)
    | missing hv hc => cases hσ; exact .here (.missing hv hc)
    | impossible hv hc hi => cases hσ; exact .here (.impossible hv hc hi)
    | @element _ u v σ hv hm he hp =>
      cases σ with
      | unsupported r' =>
        cases hσ
        refine .element hv hm he (hp.2 r' rfl (hs.step (.element ?_ he)))
        rw [shape?_of_variant? hv (by rintro rfl; simp at hm)]
        grind
      | fully | withUnhandled => cases hσ
    | @value _ key u σ hv hk hw hu hp =>
      cases σ with
      | unsupported r' =>
        cases hσ
        exact .value hv hk hw hu (hp.2 r' rfl (hs.step (.value hu)))
      | fully | withUnhandled => cases hσ
    | properties hv hc hi hg =>
      subst hσ
      refine explains_of_givesAll hv hc hi (fun a ha => ?_) hs hg
      rcases List.mem_cons.mp ha with rfl | ha
      · exact .refl
      · exact (hA a ha).to_reflTransGen

/-- **The reason that is found for a straight type without support explains it**, whatever was
resolved before. -/
theorem Reached.explains (hr : s.Reached memo) (hb : s.Blocked t) (hs : s.Straight t) :
    ∃ r, (s.resolve t memo).1.support = .unsupported r ∧ s.Explains t r := by
  obtain ⟨h, -⟩ := (hr.resolve t).remembered s.explanation t _ (find?_resolve t memo)
  have hu := (hr.exact_resolve t).unsupported.mpr hb
  cases hσ : (s.resolve t memo).1.support with
  | unsupported r => exact ⟨r, rfl, h.2 r hσ hs⟩
  | fully | withUnhandled =>
    rw [hσ] at hu
    cases hu

end JsonBinding.Schema
