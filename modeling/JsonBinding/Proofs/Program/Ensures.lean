import JsonBinding.Proofs.Support.Level

/-!
# What a build ensures

A build keeps what is remembered of types exact, so that its forms are those that can be read off
the types themselves.

* `Build.Ensures`: a build from a state ends as a relation says, or fails for a reason.
* `Schema.formOf`, `Schema.propertyFormOf`: the form of a type, and of the type of a property.
* `BuildState.enlist`: the classes requested after some more requests.
-/

namespace JsonBinding

namespace Build

variable {α β : Type} {s : Schema} {x : Build α} {f : α → Build β} {st : BuildState}
  {Q Q' : α → BuildState → Prop} {R : β → BuildState → Prop} {E E' : Prop}

/-- A build that ends, from a state, with a result and a state as `Q` says, or fails where `E`
holds. What is remembered afterwards has been reached. -/
def Ensures (s : Schema) (x : Build α) (st : BuildState) (E : Prop) (Q : α → BuildState → Prop) :
    Prop :=
  s.Reached (x.run.run st).2.memo ∧
    match (x.run.run st).1 with
    | .ok a => Q a (x.run.run st).2
    | .error _ => E

theorem Ensures.mono (hx : Ensures s x st E Q) (hE : E → E')
    (hQ : ∀ a st', s.Reached st'.memo → Q a st' → Q' a st') : Ensures s x st E' Q' := by
  refine ⟨hx.1, ?_⟩
  obtain ⟨hr, h⟩ := hx
  cases ha : (x.run.run st).1 with
  | ok a => rw [ha] at h; exact hQ a _ hr h
  | error e => rw [ha] at h; exact hE h

theorem ensures_pure {a : α} (hr : s.Reached st.memo) (hQ : Q a st) :
    Ensures s (pure a : Build α) st E Q := ⟨hr, hQ⟩

theorem Ensures.bind (hx : Ensures s x st E Q)
    (hf : ∀ a st', s.Reached st'.memo → Q a st' → Ensures s (f a) st' E R) :
    Ensures s (x >>= f) st E R := by
  have hb : (x >>= f).run.run st =
      ExceptT.bindCont f (x.run.run st).1 (x.run.run st).2 := rfl
  obtain ⟨hr, h⟩ := hx
  rw [Ensures, hb]
  cases ha : (x.run.run st).1 with
  | ok a => rw [ha] at h; exact hf a _ hr h
  | error e => rw [ha] at h; exact ⟨hr, h⟩

theorem ensures_modifyGet {g : BuildState → α × BuildState} (hr : s.Reached (g st).2.memo)
    (hQ : Q (g st).1 (g st).2) : Ensures s (modifyGet g : Build α) st E Q := ⟨hr, hQ⟩

theorem ensures_modify {g : BuildState → BuildState} {Q : PUnit → BuildState → Prop}
    (hr : s.Reached (g st).memo) (hQ : Q ⟨⟩ (g st)) :
    Ensures s (modify g : Build PUnit) st E Q := ⟨hr, hQ⟩

theorem ensures_get {Q : BuildState → BuildState → Prop} (hr : s.Reached st.memo) (hQ : Q st st) :
    Ensures s (get : Build BuildState) st E Q := ⟨hr, hQ⟩

theorem ensures_freshVar {n : Nat} {names : List ClassName} (hr : s.Reached st.memo)
    (hn : st.nextVar = n) (hq : st.requested = names) :
    Ensures s Build.freshVar st E fun k st' =>
      k = n ∧ st'.nextVar = n + 1 ∧ st'.requested = names := by
  subst hn hq
  exact ⟨hr, rfl, rfl, rfl⟩

theorem ensures_ofExcept {y : Except Fault α} (hr : s.Reached st.memo)
    (hQ : ∀ a, y = .ok a → Q a st) (hE : ∀ e, y = .error e → E) :
    Ensures s (liftM y : Build α) st E Q := by
  cases y with
  | ok a => exact ⟨hr, hQ a rfl⟩
  | error e => exact ⟨hr, hE e rfl⟩

end Build

namespace BuildState

/-- The classes requested when those of `more` are requested in order. -/
def enlist (requested more : List ClassName) : List ClassName :=
  more.foldl (fun known name => if name ∈ known then known else known ++ [name]) requested

theorem enlist_append (requested more more' : List ClassName) :
    enlist requested (more ++ more') = enlist (enlist requested more) more' :=
  List.foldl_append

theorem requested_request (st : BuildState) (name : ClassName) :
    (st.request name).requested = enlist st.requested [name] := by
  unfold request
  split
  · rename_i h
    simp [enlist, h]
  · rename_i h
    simp [enlist, h]

theorem memo_request (st : BuildState) (name : ClassName) : (st.request name).memo = st.memo := by
  unfold request
  split <;> rfl

theorem nextVar_request (st : BuildState) (name : ClassName) :
    (st.request name).nextVar = st.nextVar := by
  unfold request
  split <;> rfl

end BuildState

namespace Schema

variable (s : Schema)

open Classical in
/-- The form of a type; none when values cannot be written. -/
noncomputable def formOf (t : TypeRef) : Option Variant :=
  if s.Blocked t then none else s.variant? t

/-- The form of the type of a property. -/
noncomputable def propertyFormOf (t : TypeRef) : Option Variant :=
  (s.formOf t).or (if s.isDeferrable t then some .unhandled else none)

variable {s} {memo : Memo} {t : TypeRef} {v : Variant}

theorem formOf_eq_some_iff : s.formOf t = some v ↔ ¬ s.Blocked t ∧ s.variant? t = some v := by
  unfold formOf
  split_ifs with h <;> simp [h]

theorem exists_formOf (h : ¬ s.Blocked t) : ∃ v, s.formOf t = some v := by
  obtain ⟨v, hv, -⟩ := shape?_of_not_hopeless (not_hopeless_of_not_blocked h)
  exact ⟨v, formOf_eq_some_iff.mpr ⟨h, hv⟩⟩

theorem Exact.isSupported_iff {r : Resolution} (h : s.Exact t r) :
    r.support.isSupported = true ↔ ¬ s.Blocked t := by
  rw [← h.unsupported]
  cases r.support <;> simp [Support.level]

theorem Exact.variant?_eq {r : Resolution} (h : s.Exact t r) : r.variant? = s.formOf t := by
  cases hv : r.variant? with
  | none =>
    have := h.variant?_none.mp hv
    simp [formOf, this]
  | some v =>
    have hb : ¬ s.Blocked t := fun hb => by rw [h.variant?_none.mpr hb] at hv; cases hv
    exact (formOf_eq_some_iff.mpr ⟨hb, variant?_of_shape? (h.variant?_some v hv)⟩).symm

theorem Reached.form (hr : s.Reached memo) (t : TypeRef) :
    (if (s.resolve t memo).1.support.isSupported then (s.resolve t memo).1.variant? else none) =
      s.formOf t := by
  have he := hr.exact_resolve t
  rw [he.variant?_eq]
  split_ifs with h
  · rfl
  · rw [he.isSupported_iff, Classical.not_not] at h
    simp [formOf, h]

open Build

variable {st : BuildState} {E : Prop}

theorem ensures_form? (hr : s.Reached st.memo) (t : TypeRef) :
    Ensures s (s.form? t) st E fun r st' =>
      r = s.formOf t ∧ st'.nextVar = st.nextVar ∧ st'.requested = st.requested :=
  ensures_modifyGet (hr.resolve t) ⟨hr.form t, rfl, rfl⟩

theorem ensures_form (hr : s.Reached st.memo) (hv : s.formOf t = some v) (what : String) :
    Ensures s (s.form t what) st E fun r st' =>
      r = v ∧ st'.nextVar = st.nextVar ∧ st'.requested = st.requested := by
  refine (ensures_form? hr t).bind ?_
  rintro r st' hr' ⟨hf, hn, hq⟩
  rw [hf, hv]
  exact ensures_pure hr' ⟨rfl, hn, hq⟩

theorem ensures_propertyForm? (hr : s.Reached st.memo) (t : TypeRef) :
    Ensures s (s.propertyForm? t) st E fun r st' =>
      r = s.propertyFormOf t ∧ st'.nextVar = st.nextVar ∧ st'.requested = st.requested := by
  refine (ensures_form? hr t).bind ?_
  rintro r st' hr' ⟨hf, hn, hq⟩
  cases hv : s.formOf t with
  | some v =>
    rw [hf, hv]
    exact ensures_pure hr' ⟨by simp [propertyFormOf, hv], hn, hq⟩
  | none =>
    rw [hf, hv]
    exact ensures_pure hr' ⟨by simp [propertyFormOf, hv], hn, hq⟩

theorem ensures_inspect (hr : s.Reached st.memo) {n : ClassName} {c : ClassInfo}
    (hc : s.index.class? n = some c) :
    Ensures s (s.inspect n) st E fun r st' =>
      r = s.index.inspect c ∧ st'.nextVar = st.nextVar ∧ st'.requested = st.requested := by
  have hq : s.index.require n = .ok c := by rw [Index.require, hc]
  refine (ensures_ofExcept (Q := fun c' st' => c = c' ∧ st = st') hr ?_ ?_).bind ?_
  · intro c' h
    rw [hq] at h
    cases h
    exact ⟨rfl, rfl⟩
  · intro e h
    rw [hq] at h
    cases h
  · rintro _ _ - ⟨rfl, rfl⟩
    refine (ensures_modify (Q := fun _ st' => st'.nextVar = st.nextVar ∧
      st'.requested = st.requested) (hr.inspect n) ⟨rfl, rfl⟩).bind fun _ st' hr' h => ?_
    exact ensures_pure hr' ⟨rfl, h.1, h.2⟩

end Schema

end JsonBinding
