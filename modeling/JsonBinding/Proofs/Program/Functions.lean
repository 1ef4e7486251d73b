import JsonBinding.Proofs.Program.Building

/-!
# The functions of a program

A build goes through the classes requested in order. Building the function of one may request more,
and the classes built are always those at the front.

* `ensures_objectFunction`, `ensures_functions`: the function of a class, and those of the classes
  requested.
* `Schema.Needs`: the classes that a type comes to through parts that can be written.
* `Schema.ProgramCode`: a program for a type, with a function for every class that it runs, and for
  classes that the type needs only; **`ensures_program`**: such a program is built.
-/

namespace JsonBinding

open Build

attribute [local simp] List.filterMap_cons

namespace BuildState

/-! ## Requests -/

variable {known more : List ClassName} {name : ClassName}

theorem enlist_cons (known : List ClassName) (name : ClassName) (more : List ClassName) :
    enlist known (name :: more) =
      enlist (if name ∈ known then known else known ++ [name]) more := rfl

theorem prefix_enlist (known more : List ClassName) : known <+: enlist known more := by
  induction more generalizing known with
  | nil => exact List.prefix_refl _
  | cons name more ih =>
    rw [enlist_cons]
    split_ifs
    · exact ih known
    · exact (List.prefix_append _ _).trans (ih _)

theorem mem_enlist : name ∈ enlist known more ↔ name ∈ known ∨ name ∈ more := by
  induction more generalizing known with
  | nil => simp [enlist]
  | cons k more ih =>
    rw [enlist_cons, ih]
    split_ifs with hk
    · grind
    · grind

theorem nodup_enlist (h : known.Nodup) (more : List ClassName) : (enlist known more).Nodup := by
  induction more generalizing known with
  | nil => exact h
  | cons k more ih =>
    rw [enlist_cons]
    split_ifs with hk
    · exact ih h
    · refine ih ?_
      rw [List.nodup_append]
      simp_all
      grind

/-- The classes built are those requested first. -/
def Built (st : BuildState) (built : List ClassName) : Prop :=
  st.requested.Nodup ∧ built.reverse <+: st.requested

theorem Built.next? {st : BuildState} {built rest : List ClassName} (h : st.Built built)
    (hr : built.reverse ++ rest = st.requested) : st.next? built = rest.head? := by
  have hnd := h.1
  rw [BuildState.next?, ← hr, List.drop_left' (List.length_reverse)]
  cases rest with
  | nil => rfl
  | cons k rest =>
    have hk : k ∉ built := by
      rw [← hr, List.nodup_append] at hnd
      exact fun hm => hnd.2.2 k (List.mem_reverse.mpr hm) k List.mem_cons_self rfl
    simp [hk]

theorem Built.done {st : BuildState} {built : List ClassName} (h : st.Built built)
    (hn : st.next? built = none) : built.reverse = st.requested := by
  obtain ⟨rest, hr⟩ := h.2
  rw [h.next? hr, List.head?_eq_none_iff] at hn
  rw [← hr, hn, List.append_nil]

theorem Built.cons {st st' : BuildState} {built : List ClassName} (h : st.Built built)
    (hn : st.next? built = some name) (hq : st'.requested = enlist st.requested more) :
    st'.Built (name :: built) := by
  obtain ⟨rest, hr⟩ := h.2
  rw [h.next? hr, List.head?_eq_some_iff] at hn
  obtain ⟨rest', rfl⟩ := hn
  refine ⟨hq ▸ nodup_enlist h.1 more, ?_⟩
  rw [hq, ← hr, List.reverse_cons]
  refine List.IsPrefix.trans ⟨rest', ?_⟩ (prefix_enlist _ _)
  rw [List.append_assoc, List.singleton_append]

theorem Built.mem {st : BuildState} {built : List ClassName} (hn : st.next? built = some name) :
    name ∈ st.requested :=
  List.mem_of_mem_drop (List.mem_of_find?_eq_some hn)

end BuildState

namespace Schema

variable (s : Schema)

/-- Whether the dates of every property have a format. -/
def Dated : Prop := ∀ t p, s.HasProperty t p → s.Datable (some p.annotations)

variable {s} {st : BuildState}

/-! ## Classes -/

theorem writes_properties (owner : Place) (ps : List Property) (hr : s.Reached st.memo)
    (hp : ∀ p ∈ ps, ∃ v, s.propertyFormOf p.type = some v)
    (hd : s.Dated → ∀ p ∈ ps, s.Datable (some p.annotations)) :
    Ensures s (ps.mapM fun p => s.writeProperty owner p) st (¬ s.Dated) fun written st' =>
      s.PropertiesCode owner.value.expr ps st.nextVar written.flatten st'.nextVar ∧
      st'.requested = BuildState.enlist st.requested (Stmt.callees written.flatten) := by
  induction ps generalizing st with
  | nil =>
    rw [List.mapM_nil]
    exact ensures_pure hr ⟨.nil, rfl⟩
  | cons p ps ih =>
    rw [List.mapM_cons]
    refine ((writes_writeProperty hr (hp p List.mem_cons_self)).mono
      (fun h h' => h (hd h' p List.mem_cons_self)) fun _ _ _ h => h).bind ?_
    rintro body st₁ hr₁ ⟨hc, hq⟩
    refine (ih hr₁ (fun q hq => hp q (List.mem_cons_of_mem _ hq))
      (fun h q hq => hd h q (List.mem_cons_of_mem _ hq))).bind ?_
    rintro rest st₂ hr₂ ⟨hc', hq'⟩
    refine ensures_pure hr₂ ⟨.cons hc hc', ?_⟩
    rw [List.flatten_cons, Stmt.callees_append, BuildState.enlist_append, ← hq, hq']

theorem hasProperty_of_formOf {name : ClassName} {c : ClassInfo} {p : Property}
    (hf : s.formOf (.cls name) = some .object) (hc : s.index.class? name = some c)
    (hp : p ∈ s.properties (s.index.inspect c)) : s.HasProperty (.cls name) p :=
  ⟨name, c, rfl, shape?_of_class? (formOf_eq_some_iff.mp hf).2 hc, hc, hp⟩

theorem ensures_objectFunction {name : ClassName} {c : Place} (hr : s.Reached st.memo)
    (hf : s.formOf (.cls name) = some .object) :
    Ensures s (s.objectFunction name c) st (¬ s.Dated) fun f st' =>
      f.name = name ∧ s.FunctionCode st.nextVar f st'.nextVar ∧
      st'.requested = BuildState.enlist st.requested (Stmt.callees f.body) := by
  obtain ⟨_, info, hn, hc, hi⟩ := class?_of_formOf hf
  cases hn
  have hp : ∀ p ∈ s.properties (s.index.inspect info), ∃ v, s.propertyFormOf p.type = some v :=
    fun p hp => exists_propertyFormOf (formOf_eq_some_iff.mp hf).1 (hasProperty_of_formOf hf hc hp)
  have hd : s.Dated → ∀ p ∈ s.properties (s.index.inspect info), s.Datable (some p.annotations) :=
    fun h p hp => h _ p (hasProperty_of_formOf hf hc hp)
  rw [objectFunction]
  refine (ensures_inspect hr hc).bind ?_
  rintro _ st₁ hr₁ ⟨rfl, hn₁, hq₁⟩
  simp only [Inspection.isPossible, hi, Option.isNone_none, Bool.not_true, Bool.false_eq_true,
    if_false]
  cases hk : (s.index.inspect info).concrete? with
  | none =>
    refine (writes_properties (c.hold ⟨.root, .cls name, none⟩ true) _ hr₁ hp hd).bind ?_
    rintro written st₂ hr₂ ⟨hw, hq₂⟩
    refine ensures_pure hr₂ ⟨rfl, .own hc hi hk (hn₁ ▸ hw), ?_⟩
    rw [hq₂, hq₁]
    simp
  | some concrete =>
    refine (ensures_freshVar hr₁ hn₁ hq₁).bind ?_
    rintro _ st₂ hr₂ ⟨rfl, hn₂, hq₂⟩
    refine (writes_properties
      (c.hold ⟨.var st.nextVar, .cls name, some concrete⟩ true) _ hr₂ hp hd).bind ?_
    rintro written st₃ hr₃ ⟨hw, hq₃⟩
    refine ensures_pure hr₃ ⟨rfl, .narrowed hc hi hk (hn₂ ▸ hw), ?_⟩
    rw [hq₃, hq₂]
    simp

/-! ## Needs -/

variable (s) in
/-- The classes that a type comes to through parts that can be written. -/
def Needs (t : TypeRef) (k : ClassName) : Prop :=
  Relation.ReflTransGen s.WrittenPart t (.cls k) ∧ s.formOf (.cls k) = some .object

variable {t u : TypeRef} {k : ClassName} {a? : Option AnnotationSet} {v : Variant} {e : Expr}
  {n m : Nat} {body : List Stmt}

theorem Needs.step (hp : s.Part t u) (hu : ¬ s.Blocked u) (h : s.Needs u k) : s.Needs t k :=
  ⟨.head ⟨hp, hu⟩ h.1, h.2⟩

theorem not_blocked_of_formOf (h : s.formOf t = some v) : ¬ s.Blocked t :=
  (formOf_eq_some_iff.mp h).1

theorem part_of_element? (h : s.formOf t = some v) (hv : v = .optional ∨ v = .collection)
    (hu : t.element? = some u) : s.Part t u := by
  have ht := (formOf_eq_some_iff.mp h).2
  rcases hv with rfl | rfl
  · exact .element (.inl (shape?_of_variant? ht (by decide))) hu
  · exact .element (.inr (shape?_of_variant? ht (by decide))) hu

theorem Code.needs (h : s.Code a? v e t n body m) (hf : s.formOf t = some v) :
    ∀ k ∈ Stmt.callees body, s.Needs t k := by
  induction h with
  | primitive | boxed | string | date | unhandled =>
    simp
  | optional hu hw _ ih =>
    intro k hk
    refine (ih hw k ?_).step (part_of_element? hf (.inl rfl) hu) (not_blocked_of_formOf hw)
    simpa using hk
  | collection hu hw _ ih =>
    intro k hk
    refine (ih hw k ?_).step (part_of_element? hf (.inr rfl) hu) (not_blocked_of_formOf hw)
    simpa using hk
  | map hu hw _ ih =>
    intro k hk
    refine (ih hw k ?_).step (.value hu) (not_blocked_of_formOf hw)
    simpa using hk
  | @object e name n =>
    intro k hk
    have hk : k = name := by
      simpa using hk
    exact ⟨hk ▸ .refl, hk ▸ hf⟩

theorem NillableCode.needs (h : s.NillableCode a? e t n body m) :
    ∀ k ∈ Stmt.callees body, ¬ s.Blocked t ∧ s.Needs t k := by
  cases h with
  | handled hf hc =>
    intro k hk
    rw [Stmt.callees_orNull] at hk
    exact ⟨not_blocked_of_formOf hf, hc.needs hf k hk⟩
  | unhandled => simp

theorem PresentCode.needs {key : String} (h : s.PresentCode a? key e t n body m) :
    ∀ k ∈ Stmt.callees body, ¬ s.Blocked t ∧ s.Needs t k := by
  cases h with
  | optional hf hu hw hc =>
    intro k hk
    refine ⟨not_blocked_of_formOf hf, (hc.needs hw k ?_).step (part_of_element? hf (.inl rfl) hu)
      (not_blocked_of_formOf hw)⟩
    simpa using hk
  | handled hf _ hc =>
    intro k hk
    refine ⟨not_blocked_of_formOf hf, hc.needs hf k ?_⟩
    simpa using hk
  | unhandled => simp

theorem PropertyCode.needs {p : Property} (h : s.PropertyCode e p n body m) :
    ∀ k ∈ Stmt.callees body, ¬ s.Blocked p.type ∧ s.Needs p.type k := by
  cases h with
  | primitive _ hf hc =>
    intro k hk
    refine ⟨not_blocked_of_formOf hf, hc.needs hf k ?_⟩
    simpa using hk
  | nillable _ _ hc =>
    intro k hk
    refine hc.needs k ?_
    simpa using hk
  | present _ _ hc =>
    intro k hk
    refine hc.needs k ?_
    simpa using hk

theorem PropertiesCode.needs {ps : List Property} (h : s.PropertiesCode e ps n body m)
    (hp : ∀ p ∈ ps, s.HasProperty t p) : ∀ k ∈ Stmt.callees body, s.Needs t k := by
  induction h with
  | nil => simp
  | @cons p ps _ _ _ _ _ hc _ ih =>
    intro k hk
    rw [Stmt.callees_append, List.mem_append] at hk
    rcases hk with hk | hk
    · obtain ⟨hb, hn⟩ := hc.needs k hk
      exact hn.step (.property (hp p List.mem_cons_self) trivial) hb
    · exact ih (fun q hq => hp q (List.mem_cons_of_mem _ hq)) k hk

theorem FunctionCode.needs {f : ObjectFunction} (h : s.FunctionCode n f m)
    (hf : s.formOf (.cls f.name) = some .object) :
    ∀ k ∈ Stmt.callees f.body, s.Needs (.cls f.name) k := by
  cases h with
  | own hc _ _ hw | narrowed hc _ _ hw =>
    intro k hk
    refine hw.needs (fun p hp => hasProperty_of_formOf hf hc hp) k ?_
    simpa using hk

/-! ## Programs -/

/-- Whether every function is of a class that is known, or that a function before it runs. -/
def Requested (known : List ClassName) : List ObjectFunction → Prop
  | [] => True
  | f :: fs => f.name ∈ known ∧ Requested (known ++ Stmt.callees f.body) fs

theorem Requested.mono {known known' : List ClassName} {fs : List ObjectFunction}
    (h : Requested known fs) (hk : known ⊆ known') : Requested known' fs := by
  induction fs generalizing known known' with
  | nil => trivial
  | cons f fs ih => exact ⟨hk h.1, ih h.2 fun k hk' => by grind⟩

/-- The functions of the classes requested behind those built. Of the classes requested a property
holds that a function hands on to the classes whose functions it runs. -/
theorem ensures_functions {P : ClassName → Prop} (c : Place)
    (hobj : ∀ k, P k → s.formOf (.cls k) = some .object)
    (hstep : ∀ n f m, P f.name → s.FunctionCode n f m → ∀ k ∈ Stmt.callees f.body, P k)
    (built : List ClassName) (st : BuildState) (hr : s.Reached st.memo) (hb : st.Built built)
    (hP : ∀ k ∈ st.requested, P k) :
    Ensures s (s.functions c built) st (¬ s.Dated) fun fs st' =>
      s.FunctionsCode st.nextVar fs st'.nextVar ∧
      built.reverse ++ fs.map (·.name) = st'.requested ∧ st'.requested.Nodup ∧
      (∀ k ∈ st'.requested, P k) ∧ Requested st.requested fs ∧
      st'.requested = BuildState.enlist st.requested (fs.flatMap fun f => Stmt.callees f.body) := by
  induction built using functions.induct s generalizing st with
  | case1 built ih =>
    rw [functions]
    refine (ensures_get (Q := fun st₁ st₂ => st₁ = st ∧ st₂ = st) hr ⟨rfl, rfl⟩).bind ?_
    rintro _ _ - ⟨rfl, rfl⟩
    split
    · rename_i hn
      have hd := hb.done hn
      refine ensures_pure hr ⟨.nil, ?_, hb.1, hP, trivial, rfl⟩
      rw [List.map_nil, List.append_nil, hd]
    · rename_i name hn
      have hname := hobj name (hP name (BuildState.Built.mem hn))
      obtain ⟨_, info, h, hc, -⟩ := class?_of_formOf hname
      cases h
      split
      · rename_i hc'
        rw [hc] at hc'
        cases hc'
      · rename_i hc'
        refine (ensures_objectFunction hr hname).bind ?_
        rintro f st₁ hr₁ ⟨rfl, hf, hq₁⟩
        have hP₁ : ∀ k ∈ st₁.requested, P k := by
          intro k hk
          rw [hq₁, BuildState.mem_enlist] at hk
          rcases hk with hk | hk
          · exact hP k hk
          · exact hstep _ f _ (hP _ (BuildState.Built.mem hn)) hf k hk
        refine (ih _ f.name hn _ hc' st₁ hr₁ (hb.cons hn hq₁) hP₁).bind ?_
        rintro fs st₂ hr₂ ⟨hfs, he, hnd, hP₂, hreq, hq₂⟩
        refine ensures_pure hr₂ ⟨.cons hf hfs, ?_, hnd, hP₂, ⟨BuildState.Built.mem hn, ?_⟩, ?_⟩
        · rw [← he]
          simp
        · refine hreq.mono fun k hk => ?_
          rw [hq₁, BuildState.mem_enlist] at hk
          exact List.mem_append.mpr hk
        · rw [hq₂, hq₁, List.flatMap_cons, BuildState.enlist_append]

variable (s) in
/-- A program for a type. Its locals are numbered through, every class has one function at most, and
there are functions for the classes that are run and are needed, in the order in which they are run
first. -/
structure ProgramCode (t : TypeRef) (p : Program) : Prop where
  code : ∃ v n m, s.formOf t = some v ∧ s.Code none v .root t 0 p.entry n ∧
    s.FunctionsCode n p.functions m
  nodup : (p.functions.map (·.name)).Nodup
  entry : Stmt.callees p.entry ⊆ p.functions.map (·.name)
  closed : ∀ f ∈ p.functions, Stmt.callees f.body ⊆ p.functions.map (·.name)
  needed : ∀ f ∈ p.functions, s.Needs t f.name
  ordered : p.functions.map (·.name) = BuildState.enlist [] (p.statements.filterMap Stmt.callee?)
  requested : Requested (Stmt.callees p.entry) p.functions

theorem callees_statements (p : Program) : p.statements.filterMap Stmt.callee? =
    Stmt.callees p.entry ++ p.functions.flatMap fun f => Stmt.callees f.body := by
  rw [Program.statements, List.filterMap_append, List.filterMap_flatMap]
  rfl

/-- What a type needs the functions for the classes it needs need as well. -/
theorem FunctionCode.needs_of_needs {f : ObjectFunction} (h : s.FunctionCode n f m)
    (hf : s.Needs t f.name) : ∀ k ∈ Stmt.callees f.body, s.Needs t k :=
  fun k hk => ⟨hf.1.trans (h.needs hf.2 k hk).1, (h.needs hf.2 k hk).2⟩

theorem ensures_entry (memo : Memo) (hr : s.Reached memo) (hf : s.formOf t = some v) {E : Prop} :
    Ensures s (s.writeNotNull v (.root t)) { memo } E fun entry st =>
      s.Code none v .root t 0 entry st.nextVar ∧
      st.requested = BuildState.enlist [] (Stmt.callees entry) ∧ st.Built [] ∧
      ∀ k ∈ st.requested, s.Needs t k := by
  refine (writes_writeNotNull hr (.inr hf)).mono (fun h => absurd ⟨_, rfl⟩ h) ?_
  rintro entry st - ⟨hc, hq⟩
  refine ⟨hc, hq, ⟨hq ▸ BuildState.nodup_enlist .nil _, List.nil_prefix⟩, fun k hk => ?_⟩
  rw [hq, BuildState.mem_enlist] at hk
  exact hc.needs hf k (hk.resolve_left (by simp))

/-- **A type that can be written has a program**, which is built from whatever is remembered. -/
theorem ensures_program (memo : Memo) (hr : s.Reached memo) (hf : s.formOf t = some v) :
    Ensures s (s.program v t) { memo } (¬ s.Dated) fun p _ => s.ProgramCode t p := by
  rw [program]
  refine (ensures_entry memo hr hf).bind ?_
  rintro entry st₁ hr₁ ⟨hc, hq, hb, hP⟩
  refine (ensures_functions (P := s.Needs t) (.root t) (fun k hk => hk.2)
    (fun _ f _ hk hcode => hcode.needs_of_needs hk) [] st₁ hr₁ hb hP).bind ?_
  · rintro fs st₂ hr₂ ⟨hfs, he, hnd, hP₂, hreq, hq₂⟩
    rw [List.reverse_nil, List.nil_append] at he
    have hall : ∀ k, k ∈ fs.map (·.name) ↔
        k ∈ Stmt.callees entry ∨ ∃ f ∈ fs, k ∈ Stmt.callees f.body := by
      intro k
      rw [he, hq₂, hq]
      simp [BuildState.mem_enlist]
    refine ensures_pure hr₂ ⟨⟨v, _, _, hf, hc, hfs⟩, he ▸ hnd, ?_, ?_, ?_, ?_, ?_⟩
    · exact fun k hk => (hall k).mpr (.inl hk)
    · exact fun f hf' k hk => (hall k).mpr (.inr ⟨f, hf', hk⟩)
    · intro f hf'
      exact hP₂ f.name (he ▸ List.mem_map_of_mem hf')
    · rw [he, hq₂, hq, ← BuildState.enlist_append, callees_statements]
    · refine hreq.mono fun k hk => ?_
      rw [hq, BuildState.mem_enlist] at hk
      exact hk.resolve_left (by simp)

end Schema

end JsonBinding
