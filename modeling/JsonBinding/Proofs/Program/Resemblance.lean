import JsonBinding.Proofs.Program.Faithful
import Mathlib.Data.List.Forall2

/-!
# Values that look the same to a program

A program reads of an instance what the accessors of the properties say, and nothing else.

* `Schema.Resembles`: values that differ only in members of instances that no property of the class
  reads, by the type as which they are written; `Resembles.of_unread` for one instance.
* `Together`: two readings that both fail or come to related values; `Resembles.content`,
  `Resembles.elements`, `Resembles.entries`, `Resembles.property`, `Resembles.cast`.
* **`Code.resembling`**, **`PropertyCode.resembling`**, **`FunctionCode.resembling`**: the code of a
  value, of a property and of a class writes such values alike.
* **`Resembles.run`**: so does a unit.
-/

namespace JsonBinding

open Writing
open Locals (Agree)

attribute [local simp] List.filterMap_cons

/-! ## Two readings -/

section Together

variable {α β γ δ : Type}

/-- Whether two readings both fail, or come to related results. -/
inductive Together (R : α → β → Prop) : Except Fault α → Except Fault β → Prop
  | ok {a : α} {b : β} : R a b → Together R (.ok a) (.ok b)
  | error {f f' : Fault} : Together R (.error f) (.error f')

theorem Together.refl {R : α → α → Prop} (h : ∀ a, R a a) (x : Except Fault α) :
    Together R x x := by
  cases x with
  | ok a => exact .ok (h a)
  | error f => exact .error

namespace Writing

variable {P : γ → δ → Prop}

theorem Alike.ofExcept {R : α → β → Prop} {x : Except Fault α} {y : Except Fault β}
    {f : α → Writing γ} {g : β → Writing δ} (h : Together R x y)
    (hf : ∀ a b, x = .ok a → y = .ok b → R a b → Alike P (f a) (g b)) :
    Alike P (Writing.ofExcept x >>= f) (Writing.ofExcept y >>= g) := by
  cases h with
  | ok h => exact hf _ _ rfl rfl h
  | error => exact .fail _ _

theorem Alike.rounds {Q : α → β → Prop} {xs : List α} {ys : List β} {step : γ → α → Writing γ}
    {step' : δ → β → Writing δ} (h : List.Forall₂ Q xs ys)
    (hstep : ∀ x ∈ xs, ∀ y ∈ ys, Q x y → ∀ a b, P a b → Alike P (step a x) (step' b y)) {a : γ}
    {b : δ} (hab : P a b) : Alike P (xs.foldlM step a) (ys.foldlM step' b) := by
  induction h generalizing a b with
  | nil => exact .pure hab
  | cons hq _ ih =>
    rw [List.foldlM_cons, List.foldlM_cons]
    refine (hstep _ List.mem_cons_self _ List.mem_cons_self hq a b hab).bind fun c d hcd => ?_
    exact ih (fun x hx y hy => hstep x (List.mem_cons_of_mem _ hx) y (List.mem_cons_of_mem _ hy)) hcd

end Writing

end Together

namespace Schema

variable (s : Schema)

/-! ## Resemblance -/

mutual

/-- Whether two values of a declared type are the same, but for members of instances that are
written by the functions of their classes: such a member may be another one, or be missing, when
no property of the class reads it and it does not name the class. -/
inductive Resembles : TypeRef → Json → Json → Prop
  | refl {t : TypeRef} {v : Json} : Resembles t v v
  | optional {t u : TypeRef} {v v' c c' : Json} : s.formOf t = some .optional →
    t.element? = some u → Host.content v = .ok (some c) → Host.content v' = .ok (some c') →
    Resembles u c c' → Resembles t v v'
  | collection {t u : TypeRef} {items items' : List Json} : s.formOf t = some .collection →
    t.element? = some u → ResemblesItems u items items' → Resembles t (.arr items) (.arr items')
  | map {t u : TypeRef} {es es' : Members} : s.formOf t = some .map → t.value? = some u →
    ResemblesEntries u es es' → Resembles t (.obj es) (.obj es')
  | object {n : ClassName} {c : ClassInfo} {ms ms' : Members} :
    s.formOf (.cls n) = some .object → s.index.class? n = some c →
    Json.lookup ms Host.typeMarker = Json.lookup ms' Host.typeMarker →
    (∀ p w w', p ∈ s.properties (s.index.inspect c) →
      Host.property (.obj ms) p.accessor = .ok w → Host.property (.obj ms') p.accessor = .ok w' →
      Resembles p.type w w') → Resembles (.cls n) (.obj ms) (.obj ms')

/-- Whether the elements of two collections resemble each other, one by one. -/
inductive ResemblesItems : TypeRef → List Json → List Json → Prop
  | nil {u : TypeRef} : ResemblesItems u [] []
  | cons {u : TypeRef} {w w' : Json} {items items' : List Json} : Resembles u w w' →
    ResemblesItems u items items' → ResemblesItems u (w :: items) (w' :: items')

/-- Whether two maps have the same keys with values that resemble each other. -/
inductive ResemblesEntries : TypeRef → Members → Members → Prop
  | nil {u : TypeRef} : ResemblesEntries u [] []
  | cons {u : TypeRef} {key : String} {w w' : Json} {es es' : Members} : Resembles u w w' →
    ResemblesEntries u es es' → ResemblesEntries u ((key, w) :: es) ((key, w') :: es')

end

variable {s} {t u : TypeRef} {v v' : Json} {n : ClassName}

theorem ResemblesItems.forall₂ {items items' : List Json} (h : s.ResemblesItems u items items') :
    List.Forall₂ (s.Resembles u) items items' := by
  induction items generalizing items' with
  | nil =>
    cases h
    exact .nil
  | cons w items ih =>
    cases h with
    | cons hw h => exact .cons hw (ih h)

theorem ResemblesEntries.forall₂ {es es' : Members} (h : s.ResemblesEntries u es es') :
    List.Forall₂ (fun m m' => m.1 = m'.1 ∧ s.Resembles u m.2 m'.2) es es' := by
  induction es generalizing es' with
  | nil =>
    cases h
    exact .nil
  | cons m es ih =>
    cases h with
    | cons hw h => exact .cons ⟨rfl, hw⟩ (ih h)

namespace Resembles

/-- Instances that agree on the members that the properties of their class read, and on the class
that they name, resemble each other. -/
theorem of_unread {c : ClassInfo} {ms ms' : Members} (hf : s.formOf (.cls n) = some .object)
    (hc : s.index.class? n = some c)
    (h : ∀ name, (name = Host.typeMarker ∨ ∃ p ∈ s.properties (s.index.inspect c),
      p.accessor = .getter name ∨ p.accessor = .field name) →
        Json.lookup ms name = Json.lookup ms' name) :
    s.Resembles (.cls n) (.obj ms) (.obj ms') := by
  refine .object hf hc (h _ (.inl rfl)) fun p w w' hp hw hw' => ?_
  have hsame : Host.property (.obj ms) p.accessor = Host.property (.obj ms') p.accessor := by
    cases ha : p.accessor with
    | getter name =>
      rw [Host.property, Host.property, Host.invoke, Host.invoke, Host.member, Host.member,
        h name (.inr ⟨p, hp, .inl ha⟩)]
    | field name =>
      rw [Host.property, Host.property, Host.read, Host.read, Host.member, Host.member,
        h name (.inr ⟨p, hp, .inr ha⟩)]
  cases hw.symm.trans (hsame.trans hw')
  exact .refl

theorem isNull_eq (h : s.Resembles t v v') : v.isNull = v'.isNull := by
  have hcontent : ∀ {x c : Json}, Host.content x = .ok (some c) → x.isNull = false := by
    intro x c hx
    cases x with
    | null => cases hx
    | _ => rfl
  cases h with
  | optional _ _ hc hc' _ => rw [hcontent hc, hcontent hc']
  | _ => rfl

theorem eq_of_formOf (h : s.Resembles t v v') (ho : s.formOf t ≠ some .optional)
    (hc : s.formOf t ≠ some .collection) (hm : s.formOf t ≠ some .map)
    (hi : s.formOf t ≠ some .object) : v = v' := by
  cases h with
  | refl => rfl
  | optional hf => exact absurd hf ho
  | collection hf => exact absurd hf hc
  | map hf => exact absurd hf hm
  | object hf => exact absurd hf hi

/-! ## What is read of values that resemble each other -/

theorem content (h : s.Resembles t v v') (hf : s.formOf t = some .optional)
    (hu : t.element? = some u) :
    Together (Option.Rel (s.Resembles u)) (Host.content v) (Host.content v') := by
  cases h with
  | refl => exact .refl (fun c? => by cases c? <;> constructor; exact .refl) _
  | optional _ hu' hc hc' h =>
    cases hu.symm.trans hu'
    rw [hc, hc']
    exact .ok (.some h)
  | collection hf' | map hf' | object hf' => cases hf.symm.trans hf'

theorem elements (h : s.Resembles t v v') (hf : s.formOf t = some .collection)
    (hu : t.element? = some u) :
    Together (List.Forall₂ (s.Resembles u)) (Host.elements v) (Host.elements v') := by
  cases h with
  | refl => exact .refl (fun items => List.forall₂_same.mpr fun _ _ => .refl) _
  | collection _ hu' h =>
    cases hu.symm.trans hu'
    exact .ok h.forall₂
  | optional hf' | map hf' | object hf' => cases hf.symm.trans hf'

theorem entries (h : s.Resembles t v v') (hf : s.formOf t = some .map) (hu : t.value? = some u) :
    Together (List.Forall₂ fun m m' => m.1 = m'.1 ∧ s.Resembles u m.2 m'.2) (Host.entries v)
      (Host.entries v') := by
  cases h with
  | refl => exact .refl (fun es => List.forall₂_same.mpr fun _ _ => ⟨rfl, .refl⟩) _
  | map _ hu' h =>
    cases hu.symm.trans hu'
    exact .ok h.forall₂
  | optional hf' | collection hf' | object hf' => cases hf.symm.trans hf'

theorem property {c : ClassInfo} {p : Property} (h : s.Resembles (.cls n) v v')
    (hf : s.formOf (.cls n) = some .object) (hc : s.index.class? n = some c)
    (hp : p ∈ s.properties (s.index.inspect c)) :
    Together (s.Resembles p.type) (Host.property v p.accessor) (Host.property v' p.accessor) := by
  cases h with
  | refl => exact .refl (fun _ => .refl) _
  | object _ hc' _ h =>
    cases hc.symm.trans hc'
    have hread : ∀ ms, ∃ w, Host.property (.obj ms) p.accessor = .ok w := by
      intro ms
      cases p.accessor <;> exact ⟨_, rfl⟩
    obtain ⟨w, hw⟩ := hread _
    obtain ⟨w', hw'⟩ := hread _
    have hsub := h p w w' hp hw hw'
    rw [hw, hw']
    exact .ok hsub
  | optional hf' | collection hf' | map hf' => cases hf.symm.trans hf'

theorem cast (h : s.Resembles (.cls n) v v') (hf : s.formOf (.cls n) = some .object)
    (k : ClassName) : Together (fun _ _ => True) (Host.cast v k) (Host.cast v' k) := by
  have hclass : Host.class? v = Host.class? v' := by
    cases h with
    | refl => rfl
    | object _ _ hm _ =>
      rw [Host.class?, Host.class?, Json.member?_obj, Json.member?_obj, hm]
    | optional hf' | collection hf' | map hf' => cases hf.symm.trans hf'
  rw [Host.cast, Host.cast, hclass]
  cases Host.class? v' with
  | none => exact .ok trivial
  | some actual =>
    dsimp only
    split_ifs
    · exact .ok trivial
    · exact .error

end Resembles

/-! ## Values -/

variable {around around' : Surroundings} {root root' w w' x x' : Json} {ls ls' : Locals} {e : Expr}
  {a? : Option AnnotationSet} {form : Variant} {k m : Nat} {body : List Stmt}

/-- Whether each of two blocks changes no local below its own. -/
def AgreeBoth (k : Nat) (ls ls' l l' : Locals) : Prop := Agree k ls l ∧ Agree k ls' l'

theorem AgreeBoth.refl : AgreeBoth k ls ls' ls ls' := ⟨.refl, .refl⟩

theorem AgreeBoth.inner {i : Nat} {b b' : Bound} {l l' : Locals}
    (h : AgreeBoth m ((i, b) :: ls) ((i, b') :: ls') l l') (hi : k ≤ i) (hm : k ≤ m) :
    AgreeBoth k ls ls' l l' := ⟨h.1.inner hi hm, h.2.inner hi hm⟩

variable (s) in
/-- Whether functions write values that resemble each other alike, as long as they are below some
sizes. -/
structure CallsAlike (around around' : Surroundings) (names : List ClassName) (size size' : Nat) :
    Prop where
  generic : around.generic = s.writeUnhandled ∧ around'.generic = s.writeUnhandled
  call : ∀ n ∈ names, ∀ x x' : Json, s.Resembles (.cls n) x x' → x.size < size → x'.size < size' →
    Alike (fun _ _ => True) (around.call n x) (around'.call n x')

theorem CallsAlike.mono {names names' : List ClassName} {size size' smaller smaller' : Nat}
    (h : s.CallsAlike around around' names size size') (hn : names' ⊆ names)
    (hk : smaller ≤ size) (hk' : smaller' ≤ size') :
    s.CallsAlike around around' names' smaller smaller' where
  generic := h.generic
  call n hname x x' hr hx hx' := h.call n (hn hname) x x' hr (Nat.lt_of_lt_of_le hx hk)
    (Nat.lt_of_lt_of_le hx' hk')

theorem resembling_emit {P : Locals → Locals → Prop} {st : Stmt} {rest : List Stmt}
    {ev : Json.Event} (hst : ∀ around root ls, Stmt.run around root st ls =
      (Writing.emit ev >>= fun _ => pure ls))
    (h : Alike P (Stmt.runAll around root rest ls) (Stmt.runAll around' root' rest ls')) :
    Alike P (Stmt.runAll around root (st :: rest) ls)
      (Stmt.runAll around' root' (st :: rest) ls') := by
  rw [Stmt.runAll_emit (hst around root ls), Stmt.runAll_emit (hst around' root' ls')]
  exact (Alike.emit ev).bind fun _ _ _ => h

theorem resembling_event {st : Stmt} {ev : Json.Event} (hst : ∀ around root ls,
      Stmt.run around root st ls = (Writing.emit ev >>= fun _ => pure ls)) :
    Alike (AgreeBoth k ls ls') (Stmt.runAll around root [st] ls)
      (Stmt.runAll around' root' [st] ls') := resembling_emit hst (.pure .refl)

theorem resembling_orNull (hw : w.isNull = w'.isNull) (he : e.eval root ls = .ok w)
    (he' : e.eval root' ls' = .ok w')
    (h : Alike (AgreeBoth k ls ls') (Stmt.runAll around root body ls)
      (Stmt.runAll around' root' body ls')) :
    Alike (AgreeBoth k ls ls') (Stmt.runAll around root (Stmt.orNull t e body) ls)
      (Stmt.runAll around' root' (Stmt.orNull t e body) ls') := by
  rw [run_orNull he, run_orNull he', hw]
  split_ifs
  · exact (Alike.emit .null).bind fun _ _ _ => .pure .refl
  · exact h

/-- **The code of a value writes values that resemble each other alike.** -/
theorem Code.resembling (h : s.Code a? form e t k body m) (hf : s.formOf t = some form)
    (hw : s.Resembles t w w') (he : e.eval root ls = .ok w) (he' : e.eval root' ls' = .ok w')
    (hcall : s.CallsAlike around around' (Stmt.callees body) (w.size + 1) (w'.size + 1)) :
    Alike (AgreeBoth k ls ls') (Stmt.runAll around root body ls)
      (Stmt.runAll around' root' body ls') := by
  induction h generalizing ls ls' w w' with
  | primitive | boxed | string | date =>
    cases hw.eq_of_formOf (by simp [hf]) (by simp [hf]) (by simp [hf]) (by simp [hf])
    rw [Stmt.runAll_singleton, Stmt.runAll_singleton, Stmt.run, Stmt.run, he, he']
    exact (Alike.emitOk rfl).bind fun _ _ _ => .pure .refl
  | @optional e t u v k m body hu hv hc ih =>
    rw [Stmt.runAll_singleton, Stmt.runAll_singleton, Stmt.run, Stmt.run, he, he',
      ofExcept_ok_bind, ofExcept_ok_bind]
    refine .ofExcept (hw.content hf hu) fun c? c'? hcon hcon' hr => ?_
    cases hr with
    | none => exact resembling_event fun _ _ _ => rfl
    | some hr =>
      have hsize := Host.size_of_content hcon
      have hsize' := Host.size_of_content hcon'
      refine (ih hv hr Expr.eval_var Expr.eval_var
        (hcall.mono (by simp) (by omega) (by omega))).mono fun _ _ h => ?_
      exact h.inner (Nat.le_refl k) (Nat.le_succ k)
  | @collection e t u v k m body hu hv hc ih =>
    refine resembling_emit (fun _ _ _ => rfl) ?_
    rw [Stmt.runAll_cons, Stmt.runAll_cons, Stmt.run, Stmt.run, he, he', ofExcept_ok_bind,
      ofExcept_ok_bind, Writing.bind_assoc, Writing.bind_assoc]
    refine .ofExcept (hw.elements hf hu) fun items items' hi hi' hr => ?_
    refine (Alike.rounds (P := AgreeBoth k ls ls') hr (fun y hy y' hy' hyr l l' hl => ?_)
      .refl).bind fun l l' hl => ?_
    · have hsize := Host.size_of_elements hi hy
      have hsize' := Host.size_of_elements hi' hy'
      refine (resembling_orNull (k := k + 1) hyr.isNull_eq Expr.eval_var Expr.eval_var
        (ih hv hyr Expr.eval_var Expr.eval_var
          (hcall.mono (by simp) (by omega) (by omega)))).mono fun _ _ h => ?_
      have h := h.inner (Nat.le_refl k) (Nat.le_succ k)
      exact ⟨hl.1.trans h.1, hl.2.trans h.2⟩
    · exact resembling_emit (fun _ _ _ => rfl) (.pure hl)
  | @map e t u v k m body hu hv hc ih =>
    refine resembling_emit (fun _ _ _ => rfl) ?_
    rw [Stmt.runAll_cons, Stmt.runAll_cons, Stmt.run, Stmt.run, he, he', ofExcept_ok_bind,
      ofExcept_ok_bind, Writing.bind_assoc, Writing.bind_assoc]
    refine .ofExcept (hw.entries hf hu) fun es es' hi hi' hr => ?_
    refine (Alike.rounds (P := AgreeBoth k ls ls') hr (fun y hy y' hy' hyr l l' hl => ?_)
      .refl).bind fun l l' hl => ?_
    · have hsize := Host.size_of_entries hi hy
      have hsize' := Host.size_of_entries hi' hy'
      rw [Stmt.runAll_emit Stmt.run_entryKey, Stmt.runAll_emit Stmt.run_entryKey, hyr.1]
      refine (Alike.emit (.key y'.1)).bind fun _ _ _ => ?_
      refine (resembling_orNull (k := k + 2) hyr.2.isNull_eq Expr.eval_var Expr.eval_var
        (ih hv hyr.2 Expr.eval_var Expr.eval_var
          (hcall.mono (by simp) (by omega) (by omega)))).mono fun _ _ h => ?_
      have h : AgreeBoth (k + 1) _ _ _ _ := h.inner (Nat.le_refl _) (Nat.le_succ _)
      have h := h.inner (Nat.le_refl k) (Nat.le_succ k)
      exact ⟨hl.1.trans h.1, hl.2.trans h.2⟩
    · exact resembling_emit (fun _ _ _ => rfl) (.pure hl)
  | @object e name k =>
    rw [Stmt.runAll_singleton, Stmt.runAll_singleton, Stmt.run, Stmt.run, he, he']
    refine (hcall.call name (by simp) w w' hw (Nat.lt_succ_self _) (Nat.lt_succ_self _)).bind
      fun _ _ _ => .pure .refl
  | unhandled => exact absurd hf formOf_ne_unhandled

/-! ## Properties -/

theorem resembling_unhandled (hf : s.formOf t = none) (hw : s.Resembles t w w')
    (he : e.eval root ls = .ok w) (he' : e.eval root' ls' = .ok w')
    (hg : around.generic = s.writeUnhandled ∧ around'.generic = s.writeUnhandled) :
    Alike (AgreeBoth k ls ls') (Stmt.runAll around root [.writeUnhandled e t] ls)
      (Stmt.runAll around' root' [.writeUnhandled e t] ls') := by
  cases hw.eq_of_formOf (by simp [hf]) (by simp [hf]) (by simp [hf]) (by simp [hf])
  rw [Stmt.runAll_singleton, Stmt.runAll_singleton, Stmt.run, Stmt.run, he, he', ofExcept_ok_bind,
    ofExcept_ok_bind, hg.1, hg.2]
  exact Alike.bind steady_reflect fun _ _ _ => .pure .refl

theorem NillableCode.resembling (h : s.NillableCode a? e t k body m) (hw : s.Resembles t w w')
    (he : e.eval root ls = .ok w) (he' : e.eval root' ls' = .ok w')
    (hcall : s.CallsAlike around around' (Stmt.callees body) (w.size + 1) (w'.size + 1)) :
    Alike (AgreeBoth k ls ls') (Stmt.runAll around root body ls)
      (Stmt.runAll around' root' body ls') := by
  cases h with
  | handled hf hc =>
    rw [Stmt.callees_orNull] at hcall
    exact resembling_orNull hw.isNull_eq he he' (hc.resembling hf hw he he' hcall)
  | unhandled hf _ => exact resembling_unhandled hf hw he he' hcall.generic

theorem PresentCode.resembling {key : String} (h : s.PresentCode a? key e t k body m)
    (hw : s.Resembles t w w') (he : e.eval root ls = .ok w) (he' : e.eval root' ls' = .ok w')
    (hcall : s.CallsAlike around around' (Stmt.callees body) (w.size + 1) (w'.size + 1)) :
    Alike (AgreeBoth k ls ls') (Stmt.runAll around root body ls)
      (Stmt.runAll around' root' body ls') := by
  cases h with
  | @optional u v k m content hf hu hv hc =>
    rw [Stmt.runAll_singleton, Stmt.runAll_singleton, Stmt.run, Stmt.run, he, he',
      ofExcept_ok_bind, ofExcept_ok_bind]
    refine .ofExcept (hw.content hf hu) fun c? c'? hcon hcon' hr => ?_
    cases hr with
    | none => exact .pure .refl
    | some hr =>
      have hsize := Host.size_of_content hcon
      have hsize' := Host.size_of_content hcon'
      refine Alike.mono (resembling_emit (fun _ _ _ => rfl) (hc.resembling hv hr Expr.eval_var
        Expr.eval_var (hcall.mono (by simp) (by omega) (by omega)))) fun _ _ h => ?_
      exact h.inner (Nat.le_refl k) (Nat.le_succ k)
  | handled hf _ hc =>
    exact resembling_emit (fun _ _ _ => rfl) (hc.resembling hf hw he he'
      (hcall.mono (by simp) (Nat.le_refl _) (Nat.le_refl _)))
  | unhandled hf _ =>
    exact resembling_emit (fun _ _ _ => rfl) (resembling_unhandled hf hw he he' hcall.generic)

/-- **The code of a property writes alike** when what it reads of two instances resembles each
other. -/
theorem PropertyCode.resembling {p : Property} (h : s.PropertyCode e p k body m)
    (hx : Together (s.Resembles p.type) (Host.property x p.accessor) (Host.property x' p.accessor))
    (he : e.eval root ls = .ok x) (he' : e.eval root' ls' = .ok x')
    (hcall : s.CallsAlike around around' (Stmt.callees body) x.size x'.size) :
    Alike (AgreeBoth k ls ls') (Stmt.runAll around root body ls)
      (Stmt.runAll around' root' body ls') := by
  have hread := Accessor.eval_read he p.accessor
  have hread' := Accessor.eval_read he' p.accessor
  cases h with
  | @primitive v k m body hp hf hc =>
    refine resembling_emit (fun _ _ _ => rfl) ?_
    cases eq_primitive_of_isPrimitive (formOf_eq_some_iff.mp hf).2 hp
    generalize hprop : Host.property x p.accessor = y at hx hread
    generalize hprop' : Host.property x' p.accessor = y' at hx hread'
    cases hx with
    | error =>
      rw [hc.run_error hread, hc.run_error hread']
      exact .fail _ _
    | ok hw =>
      have hsize := Host.size_of_property hprop
      have hsize' := Host.size_of_property hprop'
      exact hc.resembling hf hw hread hread' (hcall.mono (by simp) (by omega) (by omega))
  | @nillable k m body hp hn hc =>
    rw [Stmt.runAll_cons, Stmt.runAll_cons, Stmt.run, Stmt.run, hread, hread', Writing.bind_assoc,
      Writing.bind_assoc]
    refine .ofExcept hx fun w w' hprop hprop' hw => ?_
    have hsize := Host.size_of_property hprop
    have hsize' := Host.size_of_property hprop'
    refine Alike.mono (resembling_emit (fun _ _ _ => rfl) (hc.resembling hw Expr.eval_var
      Expr.eval_var (hcall.mono (by simp) (by omega) (by omega)))) fun _ _ h => ?_
    exact h.inner (Nat.le_refl k) (Nat.le_succ k)
  | @present k m body hp hn hc =>
    rw [Stmt.runAll_cons, Stmt.runAll_cons, Stmt.run, Stmt.run, hread, hread', Writing.bind_assoc,
      Writing.bind_assoc]
    refine .ofExcept hx fun w w' hprop hprop' hw => ?_
    have hsize := Host.size_of_property hprop
    have hsize' := Host.size_of_property hprop'
    rw [Writing.pure_bind, Writing.pure_bind, Stmt.runAll_singleton, Stmt.runAll_singleton,
      Stmt.run, Stmt.run, Expr.eval_var, Expr.eval_var, ofExcept_ok_bind, ofExcept_ok_bind,
      hw.isNull_eq]
    split_ifs
    · exact .pure (AgreeBoth.inner .refl (Nat.le_refl k) (Nat.le_succ k))
    · refine (hc.resembling hw Expr.eval_var Expr.eval_var
        (hcall.mono (by simp) (by omega) (by omega))).mono fun _ _ h => ?_
      exact h.inner (Nat.le_refl k) (Nat.le_succ k)

theorem PropertiesCode.resembling {ps : List Property} {i : Nat} {l l' : Locals}
    (h : s.PropertiesCode e ps k body m) (hi : i ≤ k)
    (hx : ∀ p ∈ ps, Together (s.Resembles p.type) (Host.property x p.accessor)
      (Host.property x' p.accessor))
    (he : ∀ l, Agree i ls l → e.eval root l = .ok x)
    (he' : ∀ l', Agree i ls' l' → e.eval root' l' = .ok x')
    (hcall : s.CallsAlike around around' (Stmt.callees body) x.size x'.size)
    (hl : AgreeBoth i ls ls' l l') :
    Alike (AgreeBoth i ls ls') (Stmt.runAll around root body l)
      (Stmt.runAll around' root' body l') := by
  induction h generalizing l l' with
  | nil => exact .pure hl
  | cons hc _ ih =>
    rw [Stmt.callees_append] at hcall
    rw [Stmt.runAll_append, Stmt.runAll_append]
    refine (hc.resembling (hx _ List.mem_cons_self) (he _ hl.1) (he' _ hl.2)
      (hcall.mono (List.subset_append_left _ _) (Nat.le_refl _) (Nat.le_refl _))).bind
      fun l₁ l₁' h₁ => ?_
    exact ih (Nat.le_trans hi hc.le) (fun p hp => hx p (List.mem_cons_of_mem _ hp))
      (hcall.mono (List.subset_append_right _ _) (Nat.le_refl _) (Nat.le_refl _))
      ⟨hl.1.trans (h₁.1.anti hi), hl.2.trans (h₁.2.anti hi)⟩

/-! ## Functions -/

/-- **The function of a class writes instances that resemble each other alike.** -/
theorem FunctionCode.resembling {f : ObjectFunction} (h : s.FunctionCode k f m)
    (hf : s.formOf (.cls f.name) = some .object) (hx : s.Resembles (.cls f.name) x x')
    (hcall : s.CallsAlike around around' (Stmt.callees f.body) x.size x'.size) :
    Alike (fun _ _ => True) (Stmt.runAll around x f.body [])
      (Stmt.runAll around' x' f.body []) := by
  cases h with
  | @own name c k m written hc hi hnone hw =>
    rw [List.cons_append]
    refine resembling_emit (fun _ _ _ => rfl) ?_
    rw [Stmt.runAll_append, Stmt.runAll_append]
    refine (hw.resembling (Nat.le_refl k) (fun p hp => hx.property hf hc hp) (fun _ _ => rfl)
      (fun _ _ => rfl) (hcall.mono (by simp) (Nat.le_refl _) (Nat.le_refl _))
      (.refl : AgreeBoth k [] [] [] [])).bind fun _ _ _ => ?_
    exact resembling_emit (fun _ _ _ => rfl) (.pure trivial)
  | @narrowed name concrete c k m written hc hi hsome hw =>
    have heval : ∀ y, (Expr.cast .root concrete).eval y [] = Host.cast y concrete := fun _ => rfl
    rw [List.cons_append, List.cons_append, Stmt.runAll_cons, Stmt.runAll_cons, Stmt.run, Stmt.run,
      heval, heval, Writing.bind_assoc, Writing.bind_assoc]
    refine .ofExcept (hx.cast hf concrete) fun y y' hy hy' _ => ?_
    cases Host.cast_eq_ok hy
    cases Host.cast_eq_ok hy'
    have hlocal : ∀ {y z : Json} ls', Agree (k + 1) [(k, .value y)] ls' →
        (Expr.var k).eval z ls' = .ok y := by
      intro y z ls' h
      rw [Expr.eval, h k (Nat.lt_succ_self k), List.lookup_cons_self]
    refine resembling_emit (fun _ _ _ => rfl) ?_
    rw [Stmt.runAll_append, Stmt.runAll_append]
    refine (hw.resembling (Nat.le_refl _) (fun p hp => hx.property hf hc hp) hlocal hlocal
      (hcall.mono (by simp) (Nat.le_refl _) (Nat.le_refl _)) .refl).bind fun _ _ _ => ?_
    exact resembling_emit (fun _ _ _ => rfl) (.pure trivial)

variable {unit : SerializerUnit}

/-- The functions of a unit, called deep enough, write values that resemble each other alike. -/
theorem callsAlike_callWithin (hu : s.ProgramCode unit.root unit.program) (depth depth' : Nat) :
    s.CallsAlike ⟨s.callWithin unit depth, s.writeUnhandled⟩
      ⟨s.callWithin unit depth', s.writeUnhandled⟩ (unit.program.functions.map (·.name)) depth
      depth' := by
  induction depth generalizing depth' with
  | zero => exact ⟨⟨rfl, rfl⟩, fun _ _ _ _ _ h => absurd h (Nat.not_lt_zero _)⟩
  | succ depth ih =>
    refine ⟨⟨rfl, rfl⟩, fun n hn x x' hx hsize hsize' => ?_⟩
    cases depth' with
    | zero => exact absurd hsize' (Nat.not_lt_zero _)
    | succ depth' =>
      obtain ⟨f, hf, hmem⟩ := function?_of_mem hn
      have hname : f.name = n := by simpa using List.find?_some hf
      obtain ⟨k, m, hcode⟩ := hu.function hmem
      show Alike _ (s.callWithin unit (depth + 1) n x) (s.callWithin unit (depth' + 1) n x')
      rw [callWithin, callWithin, hf, ← hname]
      rw [← hname] at hx
      simp only [discard_eq]
      refine (hcode.resembling (hu.needed f hmem).2 hx ?_).bind fun _ _ _ => .pure trivial
      exact (ih depth').mono (hu.closed f hmem) (Nat.le_of_lt_succ hsize)
        (Nat.le_of_lt_succ hsize')

/-- **A unit writes values that resemble each other alike.** -/
theorem Resembles.run (hu : s.ProgramCode unit.root unit.program)
    (hx : s.Resembles unit.root x x') :
    Alike (fun _ _ => True) (s.run unit x) (s.run unit x') := by
  rw [Schema.run, Schema.run, hx.isNull_eq]
  split_ifs
  · exact .fail _ _
  · obtain ⟨v, k, m, hf, hc, -⟩ := hu.code
    rw [discard_eq, discard_eq]
    refine (hc.resembling hf hx rfl rfl ⟨⟨rfl, rfl⟩, fun n hn y y' hr hy hy' => ?_⟩).bind
      fun _ _ _ => .pure trivial
    have hn := hu.entry hn
    exact (callsAlike_callWithin hu _ _).call n hn y y' hr
      (Nat.lt_of_lt_of_le hy (callLimit_deep hn x)) (Nat.lt_of_lt_of_le hy' (callLimit_deep hn x'))

end Schema

end JsonBinding
