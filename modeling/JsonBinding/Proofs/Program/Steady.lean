import JsonBinding.Proofs.Program.Ensures

/-!
# Builds and what was resolved before

What is built does not depend on what was resolved before the build.

* `BuildState.Same`: states that differ in what is remembered only.
* `Build.Steady`: builds that end alike from such states.
* **`steady_program`**: programs are built steadily.
-/

namespace JsonBinding

/-- States that differ only in what is remembered, which has been reached in both. -/
structure BuildState.Same (s : Schema) (st st' : BuildState) : Prop where
  left : s.Reached st.memo
  right : s.Reached st'.memo
  nextVar : st.nextVar = st'.nextVar
  requested : st.requested = st'.requested

namespace Build

variable {α β : Type} {s : Schema} {x : Build α} {f : α → Build β}

/-- A build that ends alike whatever is remembered. -/
def Steady (s : Schema) (x : Build α) : Prop :=
  ∀ st st', BuildState.Same s st st' →
    (x.run.run st).1 = (x.run.run st').1 ∧ BuildState.Same s (x.run.run st).2 (x.run.run st').2

theorem steady_pure (a : α) : Steady s (pure a : Build α) := fun _ _ h => ⟨rfl, h⟩

theorem steady_throw (e : Fault) : Steady s (throw e : Build α) := fun _ _ h => ⟨rfl, h⟩

theorem steady_ofExcept (y : Except Fault α) : Steady s (liftM y : Build α) := by
  cases y with
  | ok a => exact steady_pure a
  | error e => exact steady_throw e

theorem Steady.bind (hx : Steady s x) (hf : ∀ a, Steady s (f a)) : Steady s (x >>= f) := by
  intro st st' h
  have hb : ∀ st, (x >>= f).run.run st =
      ExceptT.bindCont f (x.run.run st).1 (x.run.run st).2 := fun _ => rfl
  obtain ⟨he, hs⟩ := hx st st' h
  rw [hb, hb, ← he]
  cases (x.run.run st).1 with
  | ok a => exact hf a _ _ hs
  | error e => exact ⟨rfl, hs⟩

theorem Steady.mapM {γ : Type} {g : γ → Build α} (hg : ∀ c, Steady s (g c)) (cs : List γ) :
    Steady s (cs.mapM g) := by
  induction cs with
  | nil => exact steady_pure []
  | cons c cs ih =>
    rw [List.mapM_cons]
    exact (hg c).bind fun a => ih.bind fun as => steady_pure (a :: as)

theorem steady_freshVar : Steady s freshVar := by
  intro st st' h
  exact ⟨congrArg Except.ok h.nextVar, h.left, h.right, congrArg (· + 1) h.nextVar, h.requested⟩

theorem steady_request (name : ClassName) :
    Steady s (modify (·.request name) : Build PUnit) := by
  intro st st' h
  refine ⟨rfl, ?_, ?_, ?_, ?_⟩
  · show s.Reached (st.request name).memo
    rw [BuildState.memo_request]
    exact h.left
  · show s.Reached (st'.request name).memo
    rw [BuildState.memo_request]
    exact h.right
  · show (st.request name).nextVar = (st'.request name).nextVar
    rw [BuildState.nextVar_request, BuildState.nextVar_request, h.nextVar]
  · show (st.request name).requested = (st'.request name).requested
    rw [BuildState.requested_request, BuildState.requested_request, h.requested]

end Build

namespace Schema

open Build

variable {s : Schema}

/-! ## Forms -/

theorem steady_form? (t : TypeRef) : Steady s (s.form? t) := by
  intro st st' h
  refine ⟨?_, h.left.resolve t, h.right.resolve t, h.nextVar, h.requested⟩
  exact congrArg Except.ok ((h.left.form t).trans (h.right.form t).symm)

theorem steady_propertyForm? (t : TypeRef) : Steady s (s.propertyForm? t) := by
  refine (steady_form? t).bind fun v? => ?_
  cases v? with
  | some v => exact steady_pure _
  | none => exact steady_pure _

theorem steady_form (t : TypeRef) (what : String) : Steady s (s.form t what) := by
  refine (steady_form? t).bind fun v? => ?_
  cases v? with
  | some v => exact steady_pure _
  | none => exact steady_throw _

theorem steady_inspect (name : ClassName) : Steady s (s.inspect name) := by
  refine (steady_ofExcept _).bind fun c => Steady.bind ?_ fun _ => steady_pure _
  intro st st' h
  exact ⟨rfl, h.left.inspect name, h.right.inspect name, h.nextVar, h.requested⟩

/-! ## Values -/

theorem steady_primitive (c : Place) : Steady s (s.writeNotNull .primitive c) := by
  rw [writeNotNull]
  split
  · exact steady_pure _
  · exact steady_pure _
  · split_ifs
    · exact steady_pure _
    · exact steady_throw _
  · exact steady_throw _

theorem steady_object (c : Place) : Steady s (s.writeNotNull .object c) := by
  rw [writeNotNull]
  split
  · exact steady_throw _
  · exact (steady_request _).bind fun _ => steady_pure _

theorem steady_all :
    (∀ v c, Steady s (s.writeNotNull v c)) ∧ (∀ v c, Steady s (s.write v c)) ∧
      ∀ inner c, Steady s (s.writePresent inner c) := by
  refine writeNotNull.mutual_induct (fun v c => Steady s (s.writeNotNull v c))
    (fun v c => Steady s (s.write v c)) (fun inner c => Steady s (s.writePresent inner c))
    ?_ ?_ ?_ ?_ ?_ ?_ ?_ ?_ ?_ ?_ ?_ ?_ ?_ ?_ ?_ ?_ ?_ ?_ ?_ ?_ ?_
  -- values without parts
  iterate 5
    · intros
      exact steady_primitive _
  · intro c
    rw [writeNotNull]
    exact steady_pure _
  · intro c
    rw [writeNotNull]
    exact steady_pure _
  · intro c
    rw [writeNotNull]
    exact (steady_ofExcept _).bind fun _ => steady_pure _
  -- an optional
  · intro c ih
    rw [writeNotNull]
    exact steady_freshVar.bind fun n => (ih n).bind fun _ => steady_pure _
  -- a collection
  · intro c _ he
    rw [writeNotNull_element?_none he]
    exact steady_throw _
  · intro c _ u he ih
    rw [writeNotNull_collection he]
    exact (steady_form _ _).bind fun v => steady_freshVar.bind fun n =>
      (ih v n).bind fun _ => steady_pure _
  -- a map
  · intro c _ he
    rw [writeNotNull_value?_none he]
    exact steady_throw _
  · intro c _ u he ih
    rw [writeNotNull_map he]
    exact (steady_form _ _).bind fun v => steady_freshVar.bind fun k =>
      steady_freshVar.bind fun n => (ih v n).bind fun _ => steady_pure _
  -- an object, and what is left to the generic writer
  iterate 2
    · intros
      exact steady_object _
  · intro c
    rw [writeNotNull]
    exact steady_pure _
  -- a value that may be null
  · intro v c h ih
    rw [write, if_pos h]
    exact ih
  · intro v c h he ih
    rw [write, if_neg h, if_pos he]
    exact ih.bind fun _ => steady_pure _
  · intro v c h he ih
    rw [write, if_neg h, if_neg he]
    exact steady_freshVar.bind fun n => (ih n).bind fun _ => steady_pure _
  -- the content of an optional
  · intro inner c he
    rw [writePresent_element?_none he]
    exact steady_throw _
  · intro inner c u he ih
    rw [writePresent_of_element? he]
    exact (steady_form _ _).bind fun v => ih v

/-! ## Functions -/

theorem steady_writeProperty (owner : Place) (p : Property) :
    Steady s (s.writeProperty owner p) := by
  rw [writeProperty]
  refine (steady_propertyForm? _).bind fun v? => ?_
  cases v? with
  | none => exact steady_throw _
  | some v =>
    simp only
    split_ifs
    · exact (steady_all.1 _ _).bind fun _ => steady_pure _
    · exact steady_freshVar.bind fun n => (steady_all.2.1 _ _).bind fun _ => steady_pure _
    · exact steady_freshVar.bind fun n => steady_freshVar.bind fun inner =>
        (steady_all.2.2 _ _).bind fun _ => steady_pure _
    · exact steady_freshVar.bind fun n => (steady_all.1 _ _).bind fun _ => steady_pure _

theorem steady_objectFunction (name : ClassName) (c : Place) :
    Steady s (s.objectFunction name c) := by
  rw [objectFunction]
  refine (steady_inspect name).bind fun i => ?_
  have hrest : ∀ narrowing (owner : Place), Steady s (do
      let written ← (s.properties i).mapM fun p => s.writeProperty owner p
      pure (⟨name, narrowing ++ .beginObject :: written.flatten ++ [.endObject]⟩ :
        ObjectFunction)) :=
    fun _ owner => (Steady.mapM (steady_writeProperty owner) _).bind fun _ => steady_pure _
  split_ifs
  · exact fun _ _ h => ⟨rfl, h⟩
  · simp only
    split
    · exact hrest _ _
    · exact steady_freshVar.bind fun n => hrest _ _

variable (s) in
/-- The functions of the classes requested, from the one that comes next. -/
def functionsFrom (c : Place) (built : List ClassName) :
    Option ClassName → Build (List ObjectFunction)
  | none => pure []
  | some name =>
    match s.index.class? name with
    | none => throw (.classNotFound name.text)
    | some _ => do
      let f ← s.objectFunction name c
      pure (f :: (← s.functions c (name :: built)))

theorem run_get_bind {α : Type} (k : BuildState → Build α) (st : BuildState) :
    (get >>= k).run.run st = (k st).run.run st := rfl

theorem run_functions (c : Place) (built : List ClassName) (st : BuildState) :
    (s.functions c built).run.run st = (s.functionsFrom c built (st.next? built)).run.run st := by
  rw [functions, run_get_bind]
  split
  · rename_i hn
    rw [hn]
    rfl
  · rename_i name hn
    rw [hn, functionsFrom]
    split <;> rename_i hc <;> rw [hc]

theorem steady_functions (c : Place) (built : List ClassName) :
    Steady s (s.functions c built) := by
  induction built using functions.induct s with
  | case1 built ih =>
    intro st st' h
    have hn : st'.next? built = st.next? built := by
      rw [BuildState.next?, BuildState.next?, h.requested]
    rw [run_functions, run_functions, hn]
    cases hnext : st.next? built with
    | none => exact steady_pure [] st st' h
    | some name =>
      rw [functionsFrom]
      cases hc : s.index.class? name with
      | none => exact steady_throw _ st st' h
      | some info =>
        have htail : Steady s (do
            let f ← s.objectFunction name c
            pure (f :: (← s.functions c (name :: built)))) :=
          (steady_objectFunction name c).bind fun f =>
            (ih st name hnext info hc).bind fun fs => steady_pure (f :: fs)
        exact htail st st' h

/-- **Programs are built steadily.** -/
theorem steady_program (v : Variant) (t : TypeRef) : Steady s (s.program v t) :=
  (steady_all.1 _ _).bind fun _ => (steady_functions _ _).bind fun _ => steady_pure _

end Schema

end JsonBinding
