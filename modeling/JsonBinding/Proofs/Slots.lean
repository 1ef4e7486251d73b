import JsonBinding.Proofs.Json.Document
import JsonBinding.Proofs.Writing
import Mathlib.Data.List.Forall2

/-!
# Filling the slots of a document

A computation that fills a slot writes, from a writer that is at such a slot, just the events of
something that may stand there, or it stops at a fault of a kind (`Writing.Fills`). The writer then
refuses no event.

* `Slot.value`, `Slot.items`, `Slot.members`: the slots of a document.
* `Slot.Parts`: slots filled part by part between the two ends of a container; `parts_items`
  and `parts_members`.
* `Fills.ofExcept`, `Fills.seq`, `Fills.item`, `Fills.member`, `Fills.enclose`, `Fills.foldlM`:
  computations of parts that fill their slots fill the slot of the whole.
* **`Fills.outcome`**: a computation that fills the slot of a value makes one complete document or
  stops at a fault of the kind.
* `assemble`: what some things come to one after the other.
* `Writing.Writes`: computations that fill a slot with something known, or stop at a fault that is
  known; `Writes.each` and `Writes.container` for parts.
-/

namespace JsonBinding

open Json (Writer Event)

/-- A slot of a document: the writers that are at it, and the events of what may stand there. -/
structure Slot (β : Type) where
  here : Writer → Prop
  events : β → List Event

namespace Slot

/-- The slot of one value. -/
def value : Slot Json := ⟨Writer.Ready, Json.events⟩

/-- The slot of some items of an array. -/
def items : Slot (List Json) := ⟨Writer.Inside .array, Json.itemEvents⟩

/-- The slot of some members of an object. -/
def members : Slot Members := ⟨Writer.Inside .object, Json.memberEvents⟩

variable {γ : Type}

/-- How some parts fill a slot one after the other, between the two ends of a container. -/
structure Parts (k : Slot (List γ)) (first last : Event) (whole : List γ → Json) : Prop where
  nil : k.events [] = []
  append : ∀ b c, k.events (b ++ c) = k.events b ++ k.events c
  stay : ∀ {w w' : Writer} {b}, k.here w → w.writeAll (k.events b) = (w', none) → k.here w'
  start : ∀ {w : Writer}, w.Ready → ∃ w', w.write first = (w', none) ∧ k.here w'
  close : ∀ {w : Writer}, k.here w → ∃ w', w.write last = (w', none)
  events : ∀ b, (whole b).events = first :: (k.events b ++ [last])

theorem parts_items : items.Parts .startArray .endArray .arr where
  nil := rfl
  append := Json.itemEvents_append
  stay {w w' b} hw h := by
    obtain ⟨w₁, h₁, hw₁⟩ := Writer.Inside.items hw b
    cases h₁.symm.trans h
    exact hw₁
  start := Writer.Ready.startArray
  close hw := hw.close "]"
  events b := by rw [Json.events]; rfl

theorem parts_members : members.Parts .startObject .endObject .obj where
  nil := rfl
  append := Json.memberEvents_append
  stay {w w' b} hw h := by
    obtain ⟨w₁, h₁, hw₁⟩ := Writer.Inside.members hw b
    cases h₁.symm.trans h
    exact hw₁
  start := Writer.Ready.startObject
  close hw := hw.close "\x7d"
  events b := by rw [Json.events]; rfl

end Slot

/-! ## Results -/

section Results

variable {α β : Type}

/-- What some things come to one after the other, up to the first fault. -/
def assemble : (xs : List α) → ((x : α) → x ∈ xs → Except Fault (List β)) → Except Fault (List β)
  | [], _ => .ok []
  | x :: rest, f => do
    let b ← f x List.mem_cons_self
    let bs ← assemble rest fun y hy => f y (List.mem_cons_of_mem _ hy)
    .ok (b ++ bs)

theorem map_eq_error {x : Except Fault α} {g : α → β} {f : Fault} :
    x.map g = .error f ↔ x = .error f := by
  cases x <;> simp [Except.map]

theorem bind_eq_error {x : Except Fault α} {g : α → Except Fault β} {f : Fault} :
    (x >>= g) = .error f ↔ x = .error f ∨ ∃ a, x = .ok a ∧ g a = .error f := by
  cases x <;> simp [bind, Except.bind]

theorem exists_of_map {x : Except Fault α} {g : α → β} {b : β} (h : x.map g = .ok b) :
    ∃ a, x = .ok a ∧ b = g a := by
  cases x with
  | error f => cases h
  | ok a =>
    cases h
    exact ⟨a, rfl, rfl⟩

theorem exists_of_bind {x : Except Fault α} {g : α → Except Fault β} {b : β}
    (h : (x >>= g) = .ok b) : ∃ a, x = .ok a ∧ g a = .ok b := by
  cases x with
  | error f => cases h
  | ok a => exact ⟨a, rfl, h⟩

theorem exists_of_assemble_cons {x : α} {xs : List α}
    {f : (y : α) → y ∈ x :: xs → Except Fault (List β)} {bs : List β}
    (h : assemble (x :: xs) f = .ok bs) : ∃ b rest, f x List.mem_cons_self = .ok b ∧
      assemble xs (fun y hy => f y (List.mem_cons_of_mem _ hy)) = .ok rest ∧ bs = b ++ rest := by
  rw [assemble] at h
  obtain ⟨b, hb, h⟩ := exists_of_bind h
  obtain ⟨rest, hrest, h⟩ := exists_of_bind h
  cases h
  exact ⟨b, rest, hb, hrest, rfl⟩

theorem forall₂_of_assemble {xs : List α} {Q : α → β → Prop}
    {f : (x : α) → x ∈ xs → Except Fault (List β)} {bs : List β} (h : assemble xs f = .ok bs)
    (hf : ∀ x hx b, f x hx = .ok b → ∃ c, b = [c] ∧ Q x c) : List.Forall₂ Q xs bs := by
  induction xs generalizing bs with
  | nil =>
    cases h
    exact .nil
  | cons x xs ih =>
    obtain ⟨b, rest, hb, hrest, rfl⟩ := exists_of_assemble_cons h
    obtain ⟨c, rfl, hc⟩ := hf x _ b hb
    exact .cons hc (ih hrest fun y hy => hf y _)

theorem assemble_error {xs : List α} {g : (x : α) → x ∈ xs → Except Fault (List β)} {f : Fault}
    (h : assemble xs g = .error f) : ∃ x hx, g x hx = .error f := by
  induction xs with
  | nil => cases h
  | cons x xs ih =>
    rw [assemble] at h
    rcases bind_eq_error.mp h with hx | ⟨b, -, h⟩
    · exact ⟨x, _, hx⟩
    · rcases bind_eq_error.mp h with hxs | ⟨bs, -, h⟩
      · obtain ⟨y, hy, hg⟩ := ih hxs
        exact ⟨y, _, hg⟩
      · cases h

theorem toOption_bind (x : Except Fault α) (f : α → Except Fault β) :
    (x >>= f).toOption = x.toOption.bind fun a => (f a).toOption := by
  cases x <;> rfl

theorem toOption_map (x : Except Fault α) (f : α → β) :
    (x.map f).toOption = x.toOption.map f := by
  cases x <;> rfl

theorem map_alike {x y : Except Fault α} (h : x.toOption = y.toOption) (f : α → β) :
    (x.map f).toOption = (y.map f).toOption := by
  rw [toOption_map, toOption_map, h]

theorem toOption_assemble_singleton {x : α} {f : (y : α) → y ∈ [x] → Except Fault (List β)} :
    (assemble [x] f).toOption = (f x List.mem_cons_self).toOption := by
  rw [assemble]
  cases f x List.mem_cons_self with
  | error e => rfl
  | ok b =>
    show some (b ++ []) = some b
    rw [List.append_nil]

theorem assemble_alike {xs : List α} {f g : (x : α) → x ∈ xs → Except Fault (List β)}
    (h : ∀ x hx, (f x hx).toOption = (g x hx).toOption) :
    (assemble xs f).toOption = (assemble xs g).toOption := by
  induction xs with
  | nil => rfl
  | cons x xs ih =>
    have hrest := ih fun y hy => h y (List.mem_cons_of_mem _ hy)
    simp only [assemble, toOption_bind, h x List.mem_cons_self, hrest]

end Results

/-- The value of a single event. -/
def Json.Event.value : Json.Event → Json
  | .bool b => .bool b
  | .number n => .num n
  | .string s => .str s
  | _ => .null

namespace Writing

variable {α β γ δ : Type}

/-- Whether a computation, from a writer at a slot, fills it with something that is related to its
result, or stops at a fault of a kind. -/
def Fills (k : Slot β) (R : α → β → Prop) (E : Fault → Prop) (x : Writing α) : Prop :=
  ∀ o : Output, k.here o.writer → match x o with
    | (.ok a, o') => ∃ b, R a b ∧ o.writer.writeAll (k.events b) = (o'.writer, none)
    | (.error f, _) => E f

theorem emit_eq_ok {o : Output} {e : Event} {w : Writer} (h : o.writer.write e = (w, none)) :
    emit e o = (.ok (), ⟨w, o.inspected⟩) := by
  obtain ⟨w₀, names⟩ := o
  rw [emit, h]

namespace Fills

variable {k : Slot β} {R S : α → β → Prop} {E E' : Fault → Prop} {x : Writing α}
  {g : γ → Writing α}

theorem mono (h : Fills k R E x) (hR : ∀ a b, R a b → S a b) (hE : ∀ f, E f → E' f) :
    Fills k S E' x := by
  intro o ho
  have := h o ho
  rcases hx : x o with ⟨f | a, o'⟩ <;> simp only [hx] at this ⊢
  · exact hE f this
  · exact this.imp fun b hb => ⟨hR a b hb.1, hb.2⟩

theorem fail {f : Fault} (h : E f) : Fills k R E (.fail f) := fun _ _ => h

theorem ofExcept {y : Except Fault γ} (hE : ∀ f, y = .error f → E f)
    (hg : ∀ c, y = .ok c → Fills k R E (g c)) : Fills k R E (.ofExcept y >>= g) := by
  cases y with
  | error f => exact fail (hE f rfl)
  | ok c => exact hg c rfl

theorem result {S : γ → β → Prop} {r : α → γ} (h : Fills k R E x)
    (hS : ∀ a b, R a b → S (r a) b) : Fills k S E (x >>= fun a => pure (r a)) := by
  intro o ho
  have := h o ho
  rw [bind_apply]
  rcases hx : x o with ⟨f | a, o'⟩ <;> simp only [hx] at this ⊢
  · exact this
  · exact this.imp fun b hb => ⟨hS a b hb.1, hb.2⟩

/-- What only inspects classes fills nothing. -/
theorem behind {y : Writing γ} {c : γ} (hy : ∀ o, ∃ names, y o = (.ok c, ⟨o.writer, names⟩))
    (h : Fills k R E (g c)) : Fills k R E (y >>= g) := by
  intro o ho
  obtain ⟨names, hy⟩ := hy o
  have := h ⟨o.writer, names⟩ ho
  rw [bind_apply, hy]
  exact this

/-! ## Values -/

variable {v : Json} {R S : α → Json → Prop}

theorem emitAll {R : Unit → Json → Prop} (h : R () v) :
    Fills .value R E (.emitAll v.events) := by
  rintro ⟨w, names⟩ ⟨w', hw⟩
  have := Writer.writeAll_events hw v
  rw [Writing.emitAll, this]
  exact ⟨v, h, this⟩

theorem emit {R : Unit → Json → Prop} {e : Event} (he : v.events = [e]) (h : R () v) :
    Fills .value R E (.emit e) := by
  rintro ⟨w, names⟩ ⟨w', hw⟩
  have hv := Writer.writeAll_events hw v
  rw [he, Writer.writeAll] at hv
  rw [Writing.emit]
  rcases hwr : w.write e with ⟨w₁, _ | m⟩ <;> simp only [hwr] at hv ⊢
  · refine ⟨v, h, ?_⟩
    show w.writeAll v.events = _
    rw [he, Writer.writeAll_singleton hwr]
  · cases hv

theorem item (h : Fills .value R E x) :
    Fills .items (fun a b => ∃ v, R a v ∧ b = [v]) E x := by
  intro o ho
  have := h o (Writer.Inside.ready ho)
  rcases hx : x o with ⟨f | a, o'⟩ <;> simp only [hx] at this ⊢
  · exact this
  · obtain ⟨v, hv, hw⟩ := this
    refine ⟨[v], ⟨v, hv, rfl⟩, ?_⟩
    show o.writer.writeAll (v.events ++ []) = _
    rw [List.append_nil]
    exact hw

theorem member (key : String) (h : Fills .value R E x) :
    Fills .members (fun a b => ∃ v, R a v ∧ b = [(key, v)]) E
      (Writing.emit (.key key) >>= fun _ => x) := by
  intro o ho
  obtain ⟨w, hw, hready⟩ := Writer.Inside.key ho key
  have := h ⟨w, o.inspected⟩ hready
  rw [bind_apply, emit_eq_ok hw]
  rcases hx : x ⟨w, o.inspected⟩ with ⟨f | a, o'⟩ <;> simp only [hx] at this ⊢
  · exact this
  · obtain ⟨v, hv, hv'⟩ := this
    refine ⟨[(key, v)], ⟨v, hv, rfl⟩, ?_⟩
    show o.writer.writeAll (.key key :: (v.events ++ [])) = _
    rw [Writer.writeAll_cons hw, List.append_nil]
    exact hv'

/-! ## Parts -/

section Parts

variable {β : Type} {k : Slot (List β)} {first last : Event} {whole : List β → Json}
  {R : α → List β → Prop}

theorem pure (hk : k.Parts first last whole) {a : α} (h : R a []) :
    Fills k R E (Pure.pure a) := by
  intro o _
  refine ⟨[], h, ?_⟩
  rw [hk.nil]
  rfl

theorem seq (hk : k.Parts first last whole) {S : δ → List β → Prop} {f : α → Writing δ}
    (hx : Fills k R E x) (hf : ∀ a b, R a b → Fills k (fun c b' => S c (b ++ b')) E (f a)) :
    Fills k S E (x >>= f) := by
  intro o ho
  have := hx o ho
  rw [bind_apply]
  rcases hxo : x o with ⟨e | a, o₁⟩ <;> simp only [hxo] at this ⊢
  · exact this
  · obtain ⟨b, hb, hw⟩ := this
    have := hf a b hb o₁ (hk.stay ho hw)
    rcases hfo : f a o₁ with ⟨e | c, o₂⟩ <;> simp only [hfo] at this ⊢
    · exact this
    · obtain ⟨b', hb', hw'⟩ := this
      refine ⟨b ++ b', hb', ?_⟩
      rw [hk.append, Writer.writeAll_append hw]
      exact hw'

/-- Parts between the two ends of their container. -/
theorem enclose (hk : k.Parts first last whole) {S : α → Json → Prop} (h : Fills k R E x)
    (hS : ∀ a b, R a b → S a (whole b)) :
    Fills .value S E (Writing.emit first >>= fun _ => x >>= fun a =>
      Writing.emit last >>= fun _ => Pure.pure a) := by
  intro o ho
  obtain ⟨w, hw, hhere⟩ := hk.start ho
  have := h ⟨w, o.inspected⟩ hhere
  rw [bind_apply, emit_eq_ok hw]
  dsimp only
  rw [bind_apply]
  rcases hx : x ⟨w, o.inspected⟩ with ⟨f | a, o₁⟩ <;> simp only [hx] at this ⊢
  · exact this
  · obtain ⟨b, hb, hw₁⟩ := this
    obtain ⟨w₂, hw₂⟩ := hk.close (hk.stay hhere hw₁)
    rw [bind_apply, emit_eq_ok hw₂]
    refine ⟨whole b, hS a b hb, ?_⟩
    show o.writer.writeAll (whole b).events = _
    rw [hk.events, Writer.writeAll_cons hw, Writer.writeAll_append hw₁,
      Writer.writeAll_singleton hw₂]

/-- Parts that are written one after the other, each from something else, with something that is
kept all the way. -/
theorem foldlM (hk : k.Parts first last whole) {P : α → Prop} {Q : γ → β → Prop}
    {step : α → γ → Writing α} {xs : List γ}
    (h : ∀ a x, x ∈ xs → P a → Fills k (fun a' bs => P a' ∧ ∃ b, Q x b ∧ bs = [b]) E (step a x))
    {a : α} (ha : P a) :
    Fills k (fun a' bs => P a' ∧ List.Forall₂ Q xs bs) E (xs.foldlM step a) := by
  induction xs generalizing a with
  | nil => exact pure hk ⟨ha, .nil⟩
  | cons x xs ih =>
    rw [List.foldlM_cons]
    refine (h a x List.mem_cons_self ha).seq hk ?_
    rintro a' _ ⟨ha', b, hb, rfl⟩
    refine mono (ih (fun c y hy => h c y (List.mem_cons_of_mem _ hy)) ha') ?_ fun _ h => h
    rintro a'' bs ⟨ha'', hbs⟩
    exact ⟨ha'', .cons hb hbs⟩

end Parts

/-- **A computation that fills the slot of a value makes one complete document**, or stops at a
fault of the kind. -/
theorem outcome {R : Unit → Json → Prop} {x : Writing Unit} (h : Fills .value R E x) :
    (∃ v, R () v ∧ (x {}).1 = .ok () ∧ (x {}).2.writer.finish = .ok v.text) ∨
    ∃ f, E f ∧ (x {}).1 = .error f := by
  have := h {} ⟨_, rfl⟩
  rcases hx : x {} with ⟨f | _, o⟩ <;> simp only [hx] at this
  · exact .inr ⟨f, this, rfl⟩
  · obtain ⟨v, hv, hw⟩ := this
    refine .inl ⟨v, hv, rfl, ?_⟩
    have hnew : (({} : Output).writer).writeAll v.events = _ := Writer.writeAll_events rfl v
    have ho : o.writer = _ := congrArg Prod.fst (hw.symm.trans hnew)
    simp [ho, Writer.finish, Writer.put]

theorem complete {R : Unit → Json → Prop} {x : Writing Unit} {text : String}
    (h : Fills .value R E x) (hx : x.written.1 = .complete text) : ∃ v, R () v ∧ text = v.text := by
  rcases h.outcome with ⟨v, hv, hok, hfinish⟩ | ⟨f, -, hf⟩
  · rw [Writing.written, show x {} = (.ok (), (x {}).2) from Prod.ext hok rfl] at hx
    simp only [hfinish, Written.complete.injEq] at hx
    exact ⟨v, hv, hx.symm⟩
  · rw [Writing.written, show x {} = (.error f, (x {}).2) from Prod.ext hf rfl] at hx
    cases hx

end Fills

/-! ## Results that are known -/

/-- Whether a computation fills a slot with just what `r` is, or stops at its fault. -/
def Writes (k : Slot β) (x : Writing α) (r : Except Fault β) : Prop :=
  Fills k (fun _ b => r = .ok b) (fun f => r = .error f) x

namespace Writes

variable {k : Slot β} {x : Writing α} {r : Except Fault β}

theorem of_fail (f : Fault) : Writes k (.fail f : Writing α) (.error f) := Fills.fail rfl

theorem ofExcept {y : Except Fault γ} {g : γ → Writing α} {h : γ → Except Fault β}
    (hg : ∀ c, y = .ok c → Writes k (g c) (h c)) :
    Writes k (Writing.ofExcept y >>= g) (y >>= h) := by
  cases y with
  | error f => exact of_fail f
  | ok c => exact hg c rfl

theorem emitOk {y : Except Fault Json.Event} (h : ∀ e, y = .ok e → e.value.events = [e]) :
    Writes .value (Writing.emitOk y) (y.map Json.Event.value) := by
  cases y with
  | error f => exact of_fail f
  | ok e => exact Fills.emit (h e rfl) rfl

theorem item {r : Except Fault Json} (h : Writes .value x r) :
    Writes .items x (r.map fun j => [j]) := by
  refine Fills.mono (Fills.item h) ?_ ?_
  · rintro _ _ ⟨v, rfl, rfl⟩
    rfl
  · rintro f rfl
    rfl

theorem member {r : Except Fault Json} (key : String) (h : Writes .value x r) :
    Writes .members (Writing.emit (.key key) >>= fun _ => x) (r.map fun j => [(key, j)]) := by
  refine Fills.mono (Fills.member key h) ?_ ?_
  · rintro _ _ ⟨v, rfl, rfl⟩
    rfl
  · rintro f rfl
    rfl

section Parts

variable {k : Slot (List β)} {first last : Json.Event} {whole : List β → Json}

theorem each (hk : k.Parts first last whole) {xs : List γ} {g : (x : γ) → x ∈ xs → Writing Unit}
    {f : (x : γ) → x ∈ xs → Except Fault (List β)} (h : ∀ x hx, Writes k (g x hx) (f x hx)) :
    Writes k (Writing.each xs g) (assemble xs f) := by
  induction xs with
  | nil => exact Fills.pure hk rfl
  | cons x xs ih =>
    rw [Writing.each, assemble]
    refine Fills.seq hk (Fills.mono (h x List.mem_cons_self) (fun _ _ h => h) ?_) fun _ b hb => ?_
    · rintro f hf
      rw [hf]
      rfl
    · refine Fills.mono (ih fun y hy => h y (List.mem_cons_of_mem _ hy)) ?_ ?_
      · intro _ b' hb'
        rw [hb]
        show (assemble xs _ >>= fun bs => Except.ok (b ++ bs)) = _
        rw [hb']
        rfl
      · intro e he
        rw [hb]
        show (assemble xs _ >>= fun bs => Except.ok (b ++ bs)) = _
        rw [he]
        rfl

/-- Parts, which may be read from a value first, between the two ends of their container. -/
theorem container (hk : k.Parts first last whole) {y : Except Fault γ} {g : γ → Writing Unit}
    {f : γ → Except Fault (List β)} (h : ∀ c, y = .ok c → Writes k (g c) (f c)) :
    Writes .value (Writing.emit first >>= fun _ => Writing.ofExcept y >>= fun c =>
      g c >>= fun _ => Writing.emit last) (y >>= fun c => (f c).map whole) := by
  have hmap : (y >>= fun c => (f c).map whole) = (y >>= f).map whole := by cases y <;> rfl
  have hparts := Fills.enclose hk (ofExcept h) (S := fun _ j => (y >>= f).map whole = .ok j)
    fun _ b hb => by rw [hb]; rfl
  have hlast : ∀ a, (Writing.emit last >>= fun _ => Pure.pure a) = Writing.emit last :=
    fun _ => bind_pure _
  rw [hmap]
  simp only [bind_assoc, hlast] at hparts
  refine Fills.mono hparts (fun _ _ h => h) fun f hf => ?_
  rw [hf]
  rfl

end Parts

end Writes

end Writing

end JsonBinding
