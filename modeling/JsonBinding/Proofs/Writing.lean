import JsonBinding.Writing

/-!
# Computations that write alike

Two computations write alike when from equal writers both come to equal writers, or both fail
(`Writing.Alike`). What is inspected on the way does not matter, nor does the fault.

* `Alike.bind`, `Alike.each`: computations of parts that write alike write alike.
* `Steady`: computations that write alike themselves, since they do not look at what was inspected.
* `Alike.outcome`, `Alike.complete`: what this says of two computations with a new writer.
-/

namespace JsonBinding.Writing

variable {α β γ δ : Type}

/-! ## Laws -/

theorem pure_bind (a : α) (f : α → Writing β) : (pure a >>= f) = f a := rfl

theorem bind_apply (x : Writing α) (f : α → Writing β) (o : Output) : (x >>= f) o =
    match x o with
    | (.ok a, o) => f a o
    | (.error e, o) => (.error e, o) := rfl

theorem bind_eq_ok {x : Writing α} {f : α → Writing β} {o p : Output} {b : β} :
    (x >>= f) o = (.ok b, p) ↔ ∃ a o', x o = (.ok a, o') ∧ f a o' = (.ok b, p) := by
  rw [bind_apply]
  rcases x o with ⟨_ | a, o'⟩
  · simp
  · exact ⟨fun h => ⟨a, o', rfl, h⟩, fun ⟨_, _, hx, h⟩ => by cases hx; exact h⟩

theorem bind_pure (x : Writing α) : (x >>= fun a => pure a) = x := by
  funext o
  rw [bind_apply]
  rcases x o with ⟨_ | _, _⟩ <;> rfl

theorem bind_assoc (x : Writing α) (f : α → Writing β) (g : β → Writing γ) :
    ((x >>= f) >>= g) = x >>= fun a => f a >>= g := by
  funext o
  rw [bind_apply, bind_apply, bind_apply]
  rcases x o with ⟨_ | _, _⟩ <;> rfl

@[simp] theorem ofExcept_ok_bind (a : α) (f : α → Writing β) :
    (ofExcept (.ok a) >>= f) = f a := rfl

theorem discard_eq (x : Writing α) : discard x = x >>= fun _ => pure () := rfl

/-! ## Writing alike -/

/-- From equal writers both computations end with equal writers and related results, or both
fail. -/
def Alike (R : α → β → Prop) (x : Writing α) (y : Writing β) : Prop :=
  ∀ o o' : Output, o.writer = o'.writer →
    match x o, y o' with
    | (.ok a, p), (.ok b, p') => R a b ∧ p.writer = p'.writer
    | (.error _, _), (.error _, _) => True
    | _, _ => False

variable {R : α → β → Prop} {R' : γ → δ → Prop} {x : Writing α} {y : Writing β}
  {f : α → Writing γ} {g : β → Writing δ}

theorem Alike.pure {a : α} {b : β} (h : R a b) : Alike R (Pure.pure a) (Pure.pure b) :=
  fun _ _ ho => ⟨h, ho⟩

theorem Alike.fail (e e' : Fault) : Alike R (Writing.fail e) (Writing.fail e') :=
  fun _ _ _ => trivial

theorem Alike.mono {S : α → β → Prop} (h : Alike R x y) (hRS : ∀ a b, R a b → S a b) :
    Alike S x y := by
  intro o o' ho
  have := h o o' ho
  rcases hx : x o with ⟨_ | _, _⟩ <;> rcases hy : y o' with ⟨_ | _, _⟩ <;>
    simp only [hx, hy] at this ⊢
  exact ⟨hRS _ _ this.1, this.2⟩

theorem Alike.bind (h : Alike R x y) (hf : ∀ a b, R a b → Alike R' (f a) (g b)) :
    Alike R' (x >>= f) (y >>= g) := by
  intro o o' ho
  have := h o o' ho
  rw [bind_apply, bind_apply]
  rcases hx : x o with ⟨e | a, p⟩ <;> rcases hy : y o' with ⟨e' | b, p'⟩ <;>
    simp only [hx, hy] at this ⊢
  exact hf a b this.1 p p' this.2

theorem Alike.emit (e : Json.Event) :
    Alike (fun _ _ => True) (Writing.emit e) (Writing.emit e) := by
  rintro ⟨w, names⟩ ⟨w', names'⟩ rfl
  simp only [Writing.emit]
  rcases w.write e with ⟨_, _ | _⟩
  · exact ⟨trivial, rfl⟩
  · trivial

theorem Alike.emitOk {e e' : Except Fault Json.Event} (h : e.toOption = e'.toOption) :
    Alike (fun _ _ => True) (Writing.emitOk e) (Writing.emitOk e') := by
  cases e with
  | error f =>
    cases e' with
    | error f' => exact .fail f f'
    | ok ev => cases h
  | ok ev =>
    cases e' with
    | error f' => cases h
    | ok ev' =>
      cases h
      exact .emit ev

/-- Events before a fault make no difference. -/
theorem Alike.fail_of_emit {ev : Json.Event} {e : Fault} (e' : Fault)
    (h : Alike R x (Writing.emit ev >>= fun _ => Writing.fail e)) :
    Alike R x (Writing.fail e') := by
  intro o o' ho
  have := h o o' ho
  rw [bind_apply] at this
  rcases hx : x o with ⟨_ | _, _⟩ <;> rcases hev : Writing.emit ev o' with ⟨_ | _, _⟩ <;>
    simp only [hx, hev, Writing.fail] at this ⊢

theorem Alike.emit_fail (ev : Json.Event) (e e' : Fault) :
    Alike R (Writing.emit ev >>= fun _ => Writing.fail e) (Writing.fail e') :=
  .fail_of_emit e' ((Alike.emit ev).bind fun _ _ _ => .fail e e)

/-- The result of a computation may be something that was there before. -/
theorem Alike.keep {P : γ → Prop} {c : γ} (h : Alike R x y) (hc : P c) :
    Alike (fun c _ => P c) (x >>= fun _ => Pure.pure c) y := by
  rw [← bind_pure y]
  exact h.bind fun _ _ _ => .pure hc

theorem Alike.inspect_right (n : ClassName) (h : Alike R x y) :
    Alike R x (Writing.inspect n >>= fun _ => y) :=
  fun o o' ho => h o { o' with inspected := n :: o'.inspected } ho

/-- Values are gone through alike when every one of them is written alike, from whatever was kept of
those before it. -/
theorem Alike.each {P : β → Prop} {step : β → α → Writing β} {items : List α}
    {g : (x : α) → x ∈ items → Writing Unit}
    (h : ∀ b x (hx : x ∈ items), P b → Alike (fun b' _ => P b') (step b x) (g x hx)) {b : β}
    (hb : P b) : Alike (fun b' _ => P b') (items.foldlM step b) (Writing.each items g) := by
  induction items generalizing b with
  | nil => exact .pure hb
  | cons x rest ih =>
    rw [List.foldlM_cons]
    refine (h b x List.mem_cons_self hb).bind fun b' _ hb' => ?_
    exact ih (fun c y hy => h c y (List.mem_cons_of_mem _ hy)) hb'

/-! ## Steady computations -/

/-- Whether it makes no difference to a computation what was inspected before. -/
def Steady (x : Writing α) : Prop := Alike (· = ·) x x

namespace Steady

theorem pure (a : α) : Steady (Pure.pure a : Writing α) := Alike.pure rfl

theorem fail (e : Fault) : Steady (Writing.fail e : Writing α) := Alike.fail e e

theorem ofExcept (y : Except Fault α) : Steady (Writing.ofExcept y) := by
  cases y with
  | ok a => exact pure a
  | error e => exact fail e

theorem emit (e : Json.Event) : Steady (Writing.emit e) := (Alike.emit e).mono fun _ _ _ => rfl

theorem emitAll (es : List Json.Event) : Steady (Writing.emitAll es) := by
  rintro ⟨w, names⟩ ⟨w', names'⟩ rfl
  simp only [Writing.emitAll]
  rcases w.writeAll es with ⟨_, _ | _⟩
  · exact ⟨trivial, rfl⟩
  · trivial

theorem inspect (n : ClassName) : Steady (Writing.inspect n) := fun _ _ ho => ⟨rfl, ho⟩

theorem bind (hx : Steady x) (hf : ∀ a, Steady (f a)) : Steady (x >>= f) := by
  refine Alike.bind hx fun a b hab => ?_
  rw [hab]
  exact hf b

theorem emitOk (e : Except Fault Json.Event) : Steady (Writing.emitOk e) :=
  (ofExcept e).bind emit

theorem each {items : List α} {g : (x : α) → x ∈ items → Writing Unit}
    (h : ∀ x hx, Steady (g x hx)) : Steady (Writing.each items g) := by
  induction items with
  | nil => exact pure ()
  | cons x rest ih =>
    rw [Writing.each]
    exact (h x _).bind fun _ => ih fun y hy => h y _

end Steady

theorem Alike.outcome (h : Alike R x y) : ((x {}).1.isOk ↔ (y {}).1.isOk) ∧
    ((x {}).1.isOk → (x {}).2.writer = (y {}).2.writer) := by
  have := h {} {} rfl
  rcases hx : x {} with ⟨_ | _, _⟩ <;> rcases hy : y {} with ⟨_ | _, _⟩ <;>
    simp only [hx, hy] at this ⊢ <;> simp_all [Except.isOk, Except.toBool]

theorem Alike.complete {x y : Writing Unit} {R : Unit → Unit → Prop} (h : Alike R x y)
    (text : String) : x.written.1 = .complete text ↔ y.written.1 = .complete text := by
  have := h {} {} rfl
  simp only [written]
  rcases hx : x {} with ⟨_ | _, _⟩ <;> rcases hy : y {} with ⟨_ | _, _⟩ <;>
    simp only [hx, hy] at this ⊢
  · simp
  · rw [this.2]
    split <;> simp

end JsonBinding.Writing
