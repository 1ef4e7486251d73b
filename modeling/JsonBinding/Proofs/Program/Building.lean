import JsonBinding.Proofs.Program.Code

/-!
# Builds give code

A build of statements gives the code that the types ask for and requests the functions that this
code runs, in order. It fails only for a date format that is none.

* `Build.Writes`: a build of statements that are related to the numbers of their locals.
* **`writes_writeNotNull`**, **`writes_writeProperty`**: the statements for a value and for a
  property.
-/

namespace JsonBinding

open Build

attribute [local simp] List.filterMap_cons

namespace Build

/-- A build of statements that `C` relates to the locals free before and after, and that requests
the functions that the statements run. -/
abbrev Writes (s : Schema) (x : Build (List Stmt)) (st : BuildState) (E : Prop)
    (C : Nat → List Stmt → Nat → Prop) : Prop :=
  Ensures s x st E fun body st' =>
    C st.nextVar body st'.nextVar ∧
      st'.requested = BuildState.enlist st.requested (Stmt.callees body)

end Build

namespace Schema

variable (s : Schema)

/-- Whether the dates under some annotations have a format. -/
def Datable (annotations? : Option AnnotationSet) : Prop :=
  ∃ f, s.dateFormat annotations? = .ok f

variable {s} {st : BuildState}

/-! ## Values -/

theorem writes_scalar {E : Prop} {C : Nat → List Stmt → Nat → Prop} {body : List Stmt}
    (hr : s.Reached st.memo) (hC : C st.nextVar body st.nextVar) (hb : Stmt.callees body = []) :
    Writes s (pure body) st E C := by
  refine ensures_pure hr ⟨hC, ?_⟩
  rw [hb]
  rfl

theorem writes_primitive {E : Prop} {c : Place} {a? : Option AnnotationSet}
    (hr : s.Reached st.memo) (hf : s.formOf c.value.declared = some .primitive) :
    Writes s (s.writeNotNull .primitive c) st E
      (s.Code a? .primitive c.value.expr c.value.declared) := by
  obtain ⟨-, hv⟩ := formOf_eq_some_iff.mp hf
  obtain ⟨⟨e, t, narrowed?⟩, notNull, annotations?⟩ := c
  cases t with
  | prim p =>
    have hp : p ≠ .void := by rintro rfl; cases hv
    have hC : s.Code a? .primitive e (.prim p) st.nextVar
      [.writeScalar e (TypeRef.prim p).scalarForm] st.nextVar := .primitive hp
    rw [writeNotNull]
    cases p with
    | void => exact absurd rfl hp
    | _ => exact writes_scalar hr hC rfl
  | array c => cases hv
  | cls n => simp only [variant?] at hv; split_ifs at hv <;> simp at hv
  | app raw args => simp only [variant?] at hv; split at hv <;> cases hv
  | _ => cases hv

theorem writes_date {c : Place} (hr : s.Reached st.memo) :
    Writes s (s.writeNotNull .date c) st (¬ s.Datable c.annotations?)
      (s.Code c.annotations? .date c.value.expr c.value.declared) := by
  rw [writeNotNull]
  refine (ensures_ofExcept (Q := fun f st' => s.dateFormat c.annotations? = .ok f ∧ st = st') hr
    (fun f hf => ⟨hf, rfl⟩) ?_).bind ?_
  · rintro e he ⟨f, hf⟩
    rw [he] at hf
    cases hf
  · rintro f _ hr' ⟨hf, rfl⟩
    exact writes_scalar hr' (.date hf) rfl

theorem writes_object {E : Prop} {c : Place} {a? : Option AnnotationSet} (hr : s.Reached st.memo)
    (hf : s.formOf c.value.declared = some .object) :
    Writes s (s.writeNotNull .object c) st E (s.Code a? .object c.value.expr c.value.declared) := by
  obtain ⟨name, _, hn, -⟩ := class?_of_formOf hf
  rw [writeNotNull, hn]
  show Writes s (do modify (·.request name); pure [.callObject name c.value.expr]) st E _
  refine (ensures_modify (g := (·.request name)) (Q := fun _ st' => st' = st.request name)
    ?_ rfl).bind ?_
  · rw [BuildState.memo_request]
    exact hr
  · rintro - _ hr' rfl
    refine ensures_pure hr' ⟨?_, st.requested_request name⟩
    rw [st.nextVar_request name]
    exact .object

/-! ## Values with parts -/

variable (s)

/-- What a build of the statements for a value that is not null gives. -/
abbrev WritesValue (v : Variant) (c : Place) : Prop :=
  ∀ st, s.Reached st.memo → v = .unhandled ∨ s.formOf c.value.declared = some v →
    Writes s (s.writeNotNull v c) st (¬ s.Datable c.annotations?)
      (s.Code c.annotations? v c.value.expr c.value.declared)

/-- What a build of the statements for a named value gives that is null or not. -/
abbrev WritesNullable (v : Variant) (c : Place) : Prop :=
  ∀ st, s.Reached st.memo → s.formOf c.value.declared = some v →
    c.notNull = c.value.declared.isPrimitive → c.value.expr.isName = true →
    Writes s (s.write v c) st (¬ s.Datable c.annotations?) fun n body m =>
      ∃ inner, body = Stmt.orNull c.value.declared c.value.expr inner ∧
        s.Code c.annotations? v c.value.expr c.value.declared n inner m

/-- What a build of the statements for the content of an optional gives. -/
abbrev WritesContent (inner : Nat) (c : Place) : Prop :=
  ∀ st u v, s.Reached st.memo → c.value.declared.element? = some u → s.formOf u = some v →
    Writes s (s.writePresent inner c) st (¬ s.Datable c.annotations?)
      (s.Code c.annotations? v (.var inner) u)

variable {s} {v : Variant} {c : Place} {u : TypeRef}

theorem writes_optional (ih : ∀ inner, s.WritesContent inner c) : s.WritesValue .optional c := by
  intro st hr hf
  obtain ⟨u, w, hu, hw⟩ := element?_of_formOf (hf.resolve_left (by decide)) (.inl rfl)
  rw [writeNotNull]
  refine (ensures_freshVar hr rfl rfl).bind ?_
  rintro _ st₁ hr₁ ⟨rfl, hn, hq⟩
  refine (ih st.nextVar st₁ u w hr₁ hu hw).bind ?_
  rintro body st₂ hr₂ ⟨hc, hq₂⟩
  refine ensures_pure hr₂ ⟨.optional hu hw (hn ▸ hc), ?_⟩
  rw [hq₂, hq]
  simp

theorem writes_collection_none (he : c.value.declared.element? = none) :
    s.WritesValue .collection c := by
  intro st _ hf
  obtain ⟨u, w, hu, -⟩ := element?_of_formOf (hf.resolve_left (by decide)) (.inr rfl)
  rw [hu] at he
  cases he

theorem writes_collection (hu : c.value.declared.element? = some u)
    (ih : ∀ w n, s.WritesNullable w (c.hold ⟨.var n, u, none⟩ false)) :
    s.WritesValue .collection c := by
  intro st hr hf
  obtain ⟨u', w, hu', hw⟩ := element?_of_formOf (hf.resolve_left (by decide)) (.inr rfl)
  rw [hu] at hu'
  cases hu'
  rw [writeNotNull_collection hu]
  refine (ensures_form hr hw _).bind ?_
  rintro w st₁ hr₁ ⟨rfl, hn₁, hq₁⟩
  refine (ensures_freshVar hr₁ hn₁ hq₁).bind ?_
  rintro _ st₂ hr₂ ⟨rfl, hn₂, hq₂⟩
  refine (ih w st.nextVar st₂ hr₂ hw rfl rfl).bind ?_
  rintro _ st₃ hr₃ ⟨⟨body, rfl, hc⟩, hq₃⟩
  refine ensures_pure hr₃ ⟨.collection hu hw (hn₂ ▸ hc), ?_⟩
  rw [hq₃, hq₂]
  simp [Place.hold]

theorem writes_map_none (he : c.value.declared.value? = none) : s.WritesValue .map c := by
  intro st _ hf
  obtain ⟨_, u, w, -, -, hu, -⟩ := value?_of_formOf (hf.resolve_left (by decide))
  rw [hu] at he
  cases he

theorem writes_map (hu : c.value.declared.value? = some u)
    (ih : ∀ w n, s.WritesNullable w (c.hold ⟨.var n, u, none⟩ false)) : s.WritesValue .map c := by
  intro st hr hf
  obtain ⟨_, u', w, -, -, hu', hw⟩ := value?_of_formOf (hf.resolve_left (by decide))
  rw [hu] at hu'
  cases hu'
  rw [writeNotNull_map hu]
  refine (ensures_form hr hw _).bind ?_
  rintro w st₁ hr₁ ⟨rfl, hn₁, hq₁⟩
  refine (ensures_freshVar hr₁ hn₁ hq₁).bind ?_
  rintro _ st₂ hr₂ ⟨rfl, hn₂, hq₂⟩
  refine (ensures_freshVar hr₂ hn₂ hq₂).bind ?_
  rintro _ st₃ hr₃ ⟨rfl, hn₃, hq₃⟩
  refine (ih w (st.nextVar + 1) st₃ hr₃ hw rfl rfl).bind ?_
  rintro _ st₄ hr₄ ⟨⟨body, rfl, hc⟩, hq₄⟩
  refine ensures_pure hr₄ ⟨.map hu hw (hn₃ ▸ hc), ?_⟩
  rw [hq₄, hq₃]
  simp [Place.hold]

/-- A value that is never null is written without a check. -/
theorem writes_unchecked (h : (decide (v = .unhandled) || c.notNull) = true)
    (ih : s.WritesValue v c) : s.WritesNullable v c := by
  intro st hr hf hp _
  have hv : v ≠ .unhandled := fun e => formOf_ne_unhandled (e ▸ hf)
  rw [write, if_pos h]
  rw [decide_eq_false hv, Bool.false_or, hp] at h
  refine (ih st hr (.inr hf)).mono id ?_
  rintro body st' _ ⟨hc, hq⟩
  exact ⟨⟨body, by rw [Stmt.orNull, if_pos h], hc⟩, hq⟩

theorem writes_checked (h : ¬ (decide (v = .unhandled) || c.notNull) = true)
    (ih : s.WritesValue v (c.hold c.value true)) : s.WritesNullable v c := by
  intro st hr hf hp he
  rw [write, if_neg h, if_pos he]
  rw [Bool.or_eq_true, not_or, hp] at h
  refine (ih st hr (.inr hf)).bind ?_
  rintro body st' hr' ⟨hc, hq⟩
  refine ensures_pure hr' ⟨⟨body, by rw [Stmt.orNull, if_neg h.2], hc⟩, ?_⟩
  rw [hq]
  simp

theorem writes_content {inner : Nat} (he : c.value.declared.element? = some u)
    (ih : ∀ w, s.WritesValue w (c.hold ⟨.var inner, u, none⟩ true)) : s.WritesContent inner c := by
  intro st u' v hr he' hv
  rw [he] at he'
  cases he'
  rw [writePresent_of_element? he]
  refine (ensures_form hr hv _).bind ?_
  rintro v st₁ hr₁ ⟨rfl, hn₁, hq₁⟩
  rw [← hn₁, ← hq₁]
  exact ih v st₁ hr₁ (.inr hv)

theorem writes_all : (∀ v c, s.WritesValue v c) ∧ (∀ v c, s.WritesNullable v c) ∧
    ∀ inner c, s.WritesContent inner c := by
  refine writeNotNull.mutual_induct s.WritesValue s.WritesNullable s.WritesContent
    ?_ ?_ ?_ ?_ ?_ ?_ ?_ ?_ ?_ ?_ ?_ ?_ ?_ ?_ ?_ ?_ ?_ ?_ ?_ ?_ ?_
  -- a primitive, of each kind
  · intro c _ _ st hr hf
    exact writes_primitive hr (hf.resolve_left (by decide))
  · intro c _ _ st hr hf
    exact writes_primitive hr (hf.resolve_left (by decide))
  · intro c _ _ _ _ _ _ st hr hf
    exact writes_primitive hr (hf.resolve_left (by decide))
  · intro c _ _ _ _ _ _ st hr hf
    exact writes_primitive hr (hf.resolve_left (by decide))
  · intro c _ _ _ _ st hr hf
    exact writes_primitive hr (hf.resolve_left (by decide))
  -- other values without parts
  · intro c st hr _
    rw [writeNotNull]
    exact writes_scalar hr .boxed rfl
  · intro c st hr _
    rw [writeNotNull]
    exact writes_scalar hr .string rfl
  · intro c st hr _
    exact writes_date hr
  -- values with parts
  · intro c ih
    exact writes_optional ih
  · intro c _ he
    exact writes_collection_none he
  · intro c _ u hu ih
    exact writes_collection hu ih
  · intro c _ he
    exact writes_map_none he
  · intro c _ u hu ih
    exact writes_map hu ih
  -- an object, and what is left to the generic writer
  · intro c _ _ st hr hf
    exact writes_object hr (hf.resolve_left (by decide))
  · intro c _ _ _ st hr hf
    exact writes_object hr (hf.resolve_left (by decide))
  · intro c st hr _
    rw [writeNotNull]
    exact writes_scalar hr .unhandled rfl
  -- a value that may be null
  · intro v c h ih
    exact writes_unchecked h ih
  · intro v c h _ ih
    exact writes_checked h ih
  · intro v c _ he _ st _ _ _ he'
    exact absurd he' he
  -- the content of an optional
  · intro inner c he st u v _ he'
    rw [he] at he'
    cases he'
  · intro inner c u he ih
    exact writes_content he ih

theorem writes_writeNotNull (hr : s.Reached st.memo)
    (hf : v = .unhandled ∨ s.formOf c.value.declared = some v) :
    Writes s (s.writeNotNull v c) st (¬ s.Datable c.annotations?)
      (s.Code c.annotations? v c.value.expr c.value.declared) :=
  writes_all.1 v c st hr hf

/-! ## Properties -/

theorem propertyFormOf_cases {t : TypeRef} {v : Variant} (h : s.propertyFormOf t = some v) :
    s.formOf t = some v ∨ s.formOf t = none ∧ s.isDeferrable t = true ∧ v = .unhandled := by
  unfold propertyFormOf at h
  cases hf : s.formOf t with
  | some w => rw [hf] at h; exact .inl h
  | none =>
    rw [hf, Option.none_or] at h
    split_ifs at h with hd
    cases h
    exact .inr ⟨rfl, hd, rfl⟩

theorem exists_propertyFormOf {t : TypeRef} {p : Property} (ht : ¬ s.Blocked t)
    (hp : s.HasProperty t p) : ∃ v, s.propertyFormOf p.type = some v := by
  unfold propertyFormOf
  by_cases hb : s.Blocked p.type
  · have hd : s.isDeferrable p.type = true := by
      cases h : s.isDeferrable p.type with
      | true => rfl
      | false => exact absurd (hb.step (.property hp h)) ht
    exact ⟨.unhandled, by simp [formOf, hb, hd]⟩
  · obtain ⟨v, hv⟩ := exists_formOf hb
    exact ⟨v, by rw [hv, Option.some_or]⟩

theorem isDeferrable_of_isPrimitive {t : TypeRef} (h : t.isPrimitive = true) :
    s.isDeferrable t = false := by
  cases t with
  | prim p => rfl
  | _ => cases h

theorem writes_nillable {v : Variant} {c : Place} (hr : s.Reached st.memo)
    (hv : s.propertyFormOf c.value.declared = some v)
    (hn : c.notNull = c.value.declared.isPrimitive) (he : c.value.expr.isName = true) :
    Writes s (s.write v c) st (¬ s.Datable c.annotations?)
      (s.NillableCode c.annotations? c.value.expr c.value.declared) := by
  rcases propertyFormOf_cases hv with hf | ⟨hf, hd, rfl⟩
  · refine (writes_all.2.1 v c st hr hf hn he).mono id ?_
    rintro _ st' - ⟨⟨body, rfl, hc⟩, hq⟩
    exact ⟨.handled hf hc, hq⟩
  · rw [write, if_pos (by simp), writeNotNull]
    exact writes_scalar hr (.unhandled hf hd) rfl

/-- The build of the statements that write a key and a value, which is not null, goes on with them.
-/
theorem ensures_present {v : Variant} {c : Place} (key : String) {k : List Stmt → Build (List Stmt)}
    {R : List Stmt → BuildState → Prop} (hr : s.Reached st.memo)
    (hv : s.propertyFormOf c.value.declared = some v)
    (hk : ∀ body st', s.Reached st'.memo →
      s.PresentCode c.annotations? key c.value.expr c.value.declared st.nextVar body st'.nextVar →
      st'.requested = BuildState.enlist st.requested (Stmt.callees body) →
      Ensures s (k body) st' (¬ s.Datable c.annotations?) R) :
    Ensures s
      (if v = .optional then do
        let inner ← Build.freshVar
        let content ← s.writePresent inner c
        k [.ifPresent c.value.expr inner (.writeKey key :: content) []]
      else do
        let content ← s.writeNotNull v c
        k (.writeKey key :: content)) st (¬ s.Datable c.annotations?) R := by
  split_ifs with ho
  · subst ho
    have hf : s.formOf c.value.declared = some .optional := by
      rcases propertyFormOf_cases hv with h | ⟨-, -, h⟩
      · exact h
      · cases h
    obtain ⟨u, w, hu, hw⟩ := element?_of_formOf hf (.inl rfl)
    refine (ensures_freshVar hr rfl rfl).bind ?_
    rintro _ st₁ hr₁ ⟨rfl, hn₁, hq₁⟩
    refine (writes_all.2.2 st.nextVar c st₁ u w hr₁ hu hw).bind ?_
    rintro body st₂ hr₂ ⟨hc, hq₂⟩
    refine hk _ st₂ hr₂ (.optional hf hu hw (hn₁ ▸ hc)) ?_
    rw [hq₂, hq₁]
    simp
  · rcases propertyFormOf_cases hv with hf | ⟨hf, hd, rfl⟩
    · refine (writes_writeNotNull hr (.inr hf)).bind ?_
      rintro body st₁ hr₁ ⟨hc, hq₁⟩
      refine hk _ st₁ hr₁ (.handled hf ho hc) ?_
      rw [hq₁]
      simp
    · rw [writeNotNull]
      exact hk _ st hr (.unhandled hf hd) rfl

theorem writes_writeProperty {owner : Place} {p : Property} (hr : s.Reached st.memo)
    (hp : ∃ v, s.propertyFormOf p.type = some v) :
    Writes s (s.writeProperty owner p) st (¬ s.Datable (some p.annotations))
      (s.PropertyCode owner.value.expr p) := by
  obtain ⟨v, hv⟩ := hp
  rw [writeProperty]
  refine (ensures_propertyForm? hr p.type).bind ?_
  rintro _ st₁ hr₁ ⟨rfl, hn₁, hq₁⟩
  rw [hv]
  by_cases hprim : p.type.isPrimitive = true
  · have hf : s.formOf p.type = some v := by
      rcases propertyFormOf_cases hv with h | ⟨-, hd, -⟩
      · exact h
      · rw [isDeferrable_of_isPrimitive hprim] at hd
        cases hd
    simp only [hprim, if_true]
    refine (writes_writeNotNull
      (c := owner.property ⟨p.accessor.read owner.value.expr, p.type, none⟩ p.annotations)
      hr₁ (.inr hf)).bind ?_
    rintro body st₂ hr₂ ⟨hc, hq₂⟩
    refine ensures_pure hr₂ ⟨.primitive hprim hf (hn₁ ▸ hc), ?_⟩
    rw [hq₂, hq₁]
    simp
  · have hprim' : p.type.isPrimitive = false := Bool.eq_false_iff.mpr hprim
    simp only [hprim', Bool.false_eq_true, if_false]
    refine (ensures_freshVar hr₁ hn₁ hq₁).bind ?_
    rintro _ st₂ hr₂ ⟨rfl, hn₂, hq₂⟩
    by_cases hnil : p.nillable = true
    · simp only [hnil, if_true]
      refine (writes_nillable (c := owner.property ⟨.var st.nextVar, p.type, none⟩ p.annotations)
        hr₂ hv rfl rfl).bind ?_
      rintro body st₃ hr₃ ⟨hc, hq₃⟩
      refine ensures_pure hr₃ ⟨.nillable hprim' hnil (hn₂ ▸ hc), ?_⟩
      rw [hq₃, hq₂]
      simp
    · have hnil' : p.nillable = false := Bool.eq_false_iff.mpr hnil
      simp only [hnil', Bool.false_eq_true, if_false]
      refine ensures_present (c := (owner.property ⟨.var st.nextVar, p.type, none⟩
        p.annotations).hold ⟨.var st.nextVar, p.type, none⟩ true) p.key
        (k := fun body => do
          let present ← pure body
          pure [.bind st.nextVar (p.accessor.read owner.value.expr),
            .ifNotNull (.var st.nextVar) present []])
        hr₂ hv fun body st₃ hr₃ hc hq₃ => ?_
      refine ensures_pure hr₃ ⟨.present hprim' hnil' (hn₂ ▸ hc), ?_⟩
      rw [hq₃, hq₂]
      simp

end Schema

end JsonBinding
