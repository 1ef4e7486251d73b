import JsonBinding.Proofs.Program.Building
import JsonBinding.Proofs.Program.Steady
import JsonBinding.Proofs.Support.Agreement
import JsonBinding.SerializerUnit.Build

/-!
# Programs of schemas that agree

Schemas that know the same of every class build the same programs, with the same memory afterwards.

* **`Agrees.writeNotNull`**, **`Agrees.objectFunction`**, **`Agrees.program`**: the same statements,
  functions and programs.
* `Agrees.unit`: the same unit, fault included.
-/

namespace JsonBinding.Schema.Agrees

variable {s s' : Schema}

/-! ## Forms -/

theorem resolve (h : s.Agrees s') (t : TypeRef) (memo : Memo) :
    s.resolve t memo = s'.resolve t memo := by
  rw [Schema.resolve, Schema.resolve, h.resolveIn]

theorem form? (h : s.Agrees s') (t : TypeRef) : s.form? t = s'.form? t := by
  rw [Schema.form?, Schema.form?]
  simp only [h.resolve]

theorem propertyForm? (h : s.Agrees s') (t : TypeRef) : s.propertyForm? t = s'.propertyForm? t := by
  rw [Schema.propertyForm?, Schema.propertyForm?, h.form?, h.isDeferrable]

theorem form (h : s.Agrees s') (t : TypeRef) (what : String) : s.form t what = s'.form t what := by
  rw [Schema.form, Schema.form, h.form?]

theorem inspect (h : s.Agrees s') (n : ClassName) : s.inspect n = s'.inspect n := by
  rw [Schema.inspect, Schema.inspect, Index.require, Index.require]
  cases hc : s.index.class? n with
  | none =>
    have hfault (e : Fault) (f : ClassInfo → Build Inspection) :
        (liftM (Except.error e : Except Fault ClassInfo) : Build ClassInfo) >>= f =
          throw e := rfl
    rw [h.unknown hc, hfault, hfault]
  | some c =>
    obtain ⟨c', hc', hi⟩ := h.known hc
    rw [hc']
    exact congrArg (fun i => (do
      modify fun st => { st with memo := st.memo.inspect n }
      pure i : Build Inspection)) hi.symm

/-! ## Values -/

theorem string (h : s.Agrees s') (c : Place) :
    s.writeNotNull .string c = s'.writeNotNull .string c := by
  rw [Schema.writeNotNull, Schema.writeNotNull, funext h.isEnum]

theorem values (h : s.Agrees s') :
    (∀ v c, s.writeNotNull v c = s'.writeNotNull v c) ∧ (∀ v c, s.write v c = s'.write v c) ∧
      ∀ inner c, s.writePresent inner c = s'.writePresent inner c := by
  refine writeNotNull.mutual_induct (fun v c => s.writeNotNull v c = s'.writeNotNull v c)
    (fun v c => s.write v c = s'.write v c)
    (fun inner c => s.writePresent inner c = s'.writePresent inner c)
    ?_ ?_ ?_ ?_ ?_ ?_ ?_ ?_ ?_ ?_ ?_ ?_ ?_ ?_ ?_ ?_ ?_ ?_ ?_ ?_ ?_
  -- values without parts
  iterate 6
    · intros
      rw [writeNotNull.eq_def, writeNotNull.eq_def]
  · exact h.string
  · intro c
    rw [writeNotNull, writeNotNull, h.dateFormat]
  -- an optional
  · intro c ih
    rw [writeNotNull, writeNotNull]
    simp only [ih]
  -- a collection
  · intro c _ he
    rw [writeNotNull_element?_none he, writeNotNull_element?_none he]
  · intro c _ u he ih
    rw [writeNotNull_collection he, writeNotNull_collection he, h.form]
    simp only [ih]
  -- a map
  · intro c _ he
    rw [writeNotNull_value?_none he, writeNotNull_value?_none he]
  · intro c _ u he ih
    rw [writeNotNull_map he, writeNotNull_map he, h.form]
    simp only [ih]
  -- an object, and what is left to the generic writer
  iterate 3
    · intros
      rw [writeNotNull, writeNotNull]
  -- a value that may be null
  · intro v c hv ih
    rw [write, write, if_pos hv, if_pos hv, ih]
  · intro v c hv he ih
    rw [write, write, if_neg hv, if_neg hv, if_pos he, if_pos he, ih]
  · intro v c hv he ih
    rw [write, write, if_neg hv, if_neg hv, if_neg he, if_neg he]
    simp only [ih]
  -- the content of an optional
  · intro inner c he
    rw [writePresent_element?_none he, writePresent_element?_none he]
  · intro inner c u he ih
    rw [writePresent_of_element? he, writePresent_of_element? he, h.form]
    simp only [ih]

theorem writeNotNull (h : s.Agrees s') (v : Variant) (c : Place) :
    s.writeNotNull v c = s'.writeNotNull v c := h.values.1 v c

/-! ## Functions -/

theorem writeProperty (h : s.Agrees s') (owner : Place) (p : Property) :
    s.writeProperty owner p = s'.writeProperty owner p := by
  rw [Schema.writeProperty, Schema.writeProperty, h.propertyForm?]
  simp only [h.values]

theorem objectFunction (h : s.Agrees s') (n : ClassName) (c : Place) :
    s.objectFunction n c = s'.objectFunction n c := by
  rw [Schema.objectFunction, Schema.objectFunction, h.inspect]
  simp only [h.properties, h.writeProperty]

theorem functions (h : s.Agrees s') (c : Place) (built : List ClassName) :
    s.functions c built = s'.functions c built := by
  induction built using functions.induct s with
  | case1 built ih =>
    funext st
    show (s.functions c built).run.run st = (s'.functions c built).run.run st
    rw [run_functions, run_functions]
    cases hn : st.next? built with
    | none => rfl
    | some n =>
      rw [functionsFrom, functionsFrom]
      cases hc : s.index.class? n with
      | none => rw [h.unknown hc]
      | some c₁ =>
        obtain ⟨c₂, hc', -⟩ := h.known hc
        simp only [hc', h.objectFunction, ih st n hn c₁ hc]

/-- **Schemas that agree build the same programs.** -/
theorem program (h : s.Agrees s') (v : Variant) (t : TypeRef) : s.program v t = s'.program v t := by
  rw [Schema.program, Schema.program, h.writeNotNull, h.functions]

/-! ## Units -/

theorem missingRoot? (h : s.Agrees s') (t : TypeRef) : s.missingRoot? t = s'.missingRoot? t := by
  cases t with
  | cls n =>
    have hi : (s.index.class? n).isNone = (s'.index.class? n).isNone := by
      cases hc : s.index.class? n with
      | none => rw [h.unknown hc]
      | some c =>
        obtain ⟨c', hc', -⟩ := h.known hc
        rw [hc']
        rfl
    simp only [Schema.missingRoot?, hi]
  | prim _ | array _ | app _ _ | var _ | wildcard => rfl

/-- **Schemas that agree build the same units.** -/
theorem unit (h : s.Agrees s') (root : TypeRef) (id : UnitId) (memo : Memo) :
    s.unit root id memo = s'.unit root id memo := by
  rw [Schema.unit, Schema.unit, h.missingRoot?, h.resolve]
  simp only [h.program]

end JsonBinding.Schema.Agrees
