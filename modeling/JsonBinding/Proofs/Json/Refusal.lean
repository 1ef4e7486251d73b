import JsonBinding.Proofs.Json.Nesting

/-!
# Refused events

A refused event leaves the writer as it was, unless it crosses the innermost open container: the
end of an array in an object, or of an object in an array, closes the container without a sign of it
in the text.

* `Writer.crosses`: events that cross a container; `write_of_crosses`, **`write_refused`**.
* `Writer.sendAll`, `Writer.taken`, `Writer.crossings`: events that are sent whatever became of
  those before them, those of them that are taken, and how many cross a container.
* `depth_sendAll`: what is open is what was started but for what was ended or crossed.
* **`refused_unchanged_iff`**: when refused events leave no trace, in the writer and in its document.
-/

namespace JsonBinding.Json

/-- The kind of container that an event ends. -/
def Event.ends? : Event → Option Scope
  | .endObject => some .object
  | .endArray => some .array
  | .startObject | .startArray | .key _ | .null | .bool _ | .number _ | .string _ => none

/-- By how much an event changes the number of open containers. -/
def Event.rise : Event → Int
  | .startObject | .startArray => 1
  | .endObject | .endArray => -1
  | .key _ | .null | .bool _ | .number _ | .string _ => 0

namespace Writer

variable {w w' : Writer} {e : Event} {es : List Event} {m : Misuse} {scope : Scope}
  {token : String}

/-- Whether an event ends a container of another kind than the innermost one that is open. -/
def crosses (w : Writer) (e : Event) : Bool :=
  match e.ends?, w.frames with
  | some scope, f :: _ => !w.afterKey && f.scope ≠ scope
  | _, _ => false

/-! ## One event -/

theorem scalar_eq_some {s : String} (h : w.scalar s = (w', some m)) : w' = w := by
  rw [scalar] at h
  split at h <;> cases h
  rfl

theorem start_eq_some (h : w.start scope token = (w', some m)) : w' = w := by
  rw [start] at h
  split at h <;> cases h
  rfl

theorem key_eq_some {name : String} (h : w.key name = (w', some m)) : w' = w := by
  rw [key] at h
  split at h
  · cases h
    rfl
  · split at h <;> cases h
    rfl

/-- A refused end leaves the writer as it was, or takes a container of another kind away. -/
theorem close_eq_some (h : w.close scope token = (w', some m)) :
    w' = w ∧ (w.afterKey = true ∨ w.frames = []) ∨
    w' = { w with frames := w.frames.tail } ∧ w.afterKey = false ∧
      ∃ f rest, w.frames = f :: rest ∧ f.scope ≠ scope := by
  rw [close] at h
  split at h
  · cases h
    exact .inl ⟨rfl, .inl ‹_›⟩
  · rename_i hk
    have hk := Bool.eq_false_iff.mpr hk
    split at h
    · cases h
      exact .inl ⟨rfl, .inr ‹_›⟩
    · rename_i f rest hf
      dsimp only at h
      split at h <;> cases h
      exact .inr ⟨by rw [hf]; rfl, hk, f, rest, hf, ‹_›⟩

theorem write_of_ends? (h : e.ends? = some scope) :
    ∃ token, ∀ w : Writer, w.write e = w.close scope token := by
  cases e with
  | endObject | endArray =>
    cases h
    exact ⟨_, fun _ => rfl⟩
  | startObject | startArray | key _ | null | bool _ | number _ | string _ => cases h

/-- A refused event that ends no container leaves the writer as it was. -/
theorem write_refused_of_ends?_none (he : e.ends? = none) (h : w.write e = (w', some m)) :
    w' = w := by
  cases e with
  | endObject | endArray => cases he
  | startObject | startArray => exact start_eq_some h
  | key _ => exact key_eq_some h
  | null | bool _ | number _ | string _ => exact scalar_eq_some h

theorem crosses_of_ends?_none (h : e.ends? = none) : w.crosses e = false := by
  rw [crosses, h]

theorem crosses_of_ends? (h : e.ends? = some scope) : w.crosses e = true ↔
    w.afterKey = false ∧ ∃ f rest, w.frames = f :: rest ∧ f.scope ≠ scope := by
  rw [crosses, h]
  cases w.frames <;> simp

/-- **A refused event** leaves the writer as it was, unless it crosses a container, which it then
takes away. -/
theorem write_refused (h : w.write e = (w', some m)) :
    w' = if w.crosses e then { w with frames := w.frames.tail } else w := by
  cases he : e.ends? with
  | none =>
    rw [crosses_of_ends?_none he]
    exact write_refused_of_ends?_none he h
  | some scope =>
    obtain ⟨token, hclose⟩ := write_of_ends? he
    have hx := crosses_of_ends? (w := w) he
    rw [hclose] at h
    rcases close_eq_some h with ⟨rfl, hn⟩ | ⟨rfl, hk, f, rest, hf, hs⟩
    · rw [if_neg]
      rw [hx]
      rintro ⟨hk, f, rest, hf, -⟩
      rcases hn with hn | hn
      · cases hk.symm.trans hn
      · cases hf.symm.trans hn
    · rw [if_pos (hx.mpr ⟨hk, f, rest, hf, hs⟩)]

theorem write_of_crosses (h : w.crosses e = true) :
    w.write e = ({ w with frames := w.frames.tail }, some .unbalancedEnd) := by
  cases he : e.ends? with
  | none => cases (crosses_of_ends?_none he).symm.trans h
  | some scope =>
    obtain ⟨token, hclose⟩ := write_of_ends? he
    obtain ⟨hk, f, rest, hf, hs⟩ := (crosses_of_ends? he).mp h
    rw [hclose, close, hk, hf]
    exact if_neg hs

theorem exists_frame_of_crosses (h : w.crosses e = true) : ∃ f rest, w.frames = f :: rest := by
  rw [crosses] at h
  split at h
  · exact ⟨_, _, ‹_›⟩
  · cases h

/-- A refused event leaves no trace just when it crosses no container. -/
theorem refused_eq_iff (h : w.write e = (w', some m)) : w' = w ↔ w.crosses e = false := by
  have hw := write_refused h
  cases hx : w.crosses e with
  | false => simp [hw, hx]
  | true =>
    obtain ⟨f, rest, hf⟩ := exists_frame_of_crosses hx
    rw [hx, if_pos rfl, hf, List.tail_cons] at hw
    refine iff_of_false (fun heq => ?_) (by simp)
    have hframes : rest = f :: rest := by rw [← hf, ← congrArg frames heq, hw]
    exact List.cons_ne_self f rest hframes.symm

theorem length_of_beforeValue (h : w.beforeValue = .ok w') :
    w'.frames.length = w.frames.length := by
  rcases beforeValue_eq_ok h with ⟨-, rfl⟩ | ⟨-, n, rest, hf, rfl⟩ | ⟨-, -, -, rfl⟩
  · rfl
  · rw [hf]
    rfl
  · rfl

theorem length_of_write (h : w.write e = (w', none)) :
    (w'.frames.length : Int) = w.frames.length + e.rise := by
  have hscalar : ∀ {s}, w.scalar s = (w', none) → w'.frames.length = w.frames.length := by
    intro s hs
    obtain ⟨w₁, h₁, rfl⟩ := scalar_eq_none hs
    exact (length_of_beforeValue h₁ :)
  have hstart : ∀ {scope token}, w.start scope token = (w', none) →
      w'.frames.length = w.frames.length + 1 := by
    intro scope token hs
    obtain ⟨w₁, h₁, rfl⟩ := start_eq_none hs
    exact congrArg (· + 1) (length_of_beforeValue h₁)
  have hclose : ∀ {scope token}, w.close scope token = (w', none) →
      w.frames.length = w'.frames.length + 1 := by
    intro scope token hs
    obtain ⟨-, n, rest, hf, rfl⟩ := close_eq_none hs
    rw [hf]
    rfl
  cases e with
  | startObject | startArray => simp [Event.rise, hstart h]
  | endObject | endArray =>
    rw [hclose h, Event.rise]
    omega
  | null | bool _ | number _ | string _ => simp [Event.rise, hscalar h]
  | key name =>
    obtain ⟨-, n, rest, hf, rfl⟩ := key_eq_none h
    simp [Event.rise, hf]

/-! ## Events that are sent whatever becomes of them -/

/-- The writer after some events, each of them sent whatever became of those before it. -/
def sendAll (w : Writer) : List Event → Writer
  | [] => w
  | e :: rest => sendAll (w.write e).1 rest

/-- Those of the events that are taken. -/
def taken (w : Writer) : List Event → List Event
  | [] => []
  | e :: rest =>
    if (w.write e).2 = none then e :: taken (w.write e).1 rest else taken (w.write e).1 rest

/-- How many of the events cross a container. -/
def crossings (w : Writer) : List Event → Nat
  | [] => 0
  | e :: rest => (w.crosses e).toNat + crossings (w.write e).1 rest

theorem crosses_of_taken (h : (w.write e).2 = none) : w.crosses e = false := by
  cases hx : w.crosses e with
  | false => rfl
  | true =>
    rw [write_of_crosses hx] at h
    cases h

/-- **What is open** is what was started, but for what was ended or crossed. -/
theorem depth_sendAll (w : Writer) (es : List Event) :
    ((w.sendAll es).frames.length : Int) + w.crossings es =
      w.frames.length + ((w.taken es).map Event.rise).sum := by
  induction es generalizing w with
  | nil => simp [sendAll, crossings, taken]
  | cons e es ih =>
    rw [sendAll, crossings, taken]
    rcases he : w.write e with ⟨w₁, _ | m⟩
    · have hl := length_of_write he
      have hx := crosses_of_taken (congrArg Prod.snd he)
      have ih := ih w₁
      simp only [hx, if_true, List.map_cons, List.sum_cons, Bool.toNat_false]
      omega
    · have hw := write_refused he
      have ih := ih w₁
      cases hx : w.crosses e with
      | false =>
        simp only [hx, Bool.false_eq_true, if_false] at hw
        subst hw
        simpa using ih
      | true =>
        obtain ⟨f, rest, hf⟩ := exists_frame_of_crosses hx
        simp only [hx, if_true, hf, List.tail_cons] at hw
        subst hw
        simp only [hf, List.length_cons, reduceCtorEq, if_false, Bool.toNat_true] at ih ⊢
        omega

/-- The refused events leave no trace as long as none crosses a container. -/
theorem writeAll_taken (h : w.crossings es = 0) : w.writeAll (w.taken es) = (w.sendAll es, none) := by
  induction es generalizing w with
  | nil => rfl
  | cons e es ih =>
    rw [crossings] at h
    obtain ⟨hx, hrest⟩ := Nat.add_eq_zero_iff.mp h
    have ih := ih hrest
    rw [sendAll, taken]
    rcases he : w.write e with ⟨w₁, _ | m⟩
    · rw [he] at ih
      rw [if_pos rfl, writeAll_cons he]
      exact ih
    · rw [he] at ih
      have hw : w₁ = w := (refused_eq_iff he).mpr (by simpa using hx)
      subst hw
      simpa using ih

/-! ## Documents -/

mutual

theorem sum_rise_events (v : Json) : (v.events.map Event.rise).sum = 0 := by
  match v with
  | .null | .bool _ | .num _ | .str _ => rfl
  | .arr items => simp [events, Event.rise, sum_rise_itemEvents items]
  | .obj members => simp [events, Event.rise, sum_rise_memberEvents members]

theorem sum_rise_itemEvents (items : List Json) : ((itemEvents items).map Event.rise).sum = 0 := by
  match items with
  | [] => rfl
  | v :: items => simp [itemEvents, sum_rise_events v, sum_rise_itemEvents items]

theorem sum_rise_memberEvents (members : Members) :
    ((memberEvents members).map Event.rise).sum = 0 := by
  match members with
  | [] => rfl
  | (k, v) :: members =>
    simp [memberEvents, Event.rise, sum_rise_events v, sum_rise_memberEvents members]

end

/-- A document whose events cross no container is empty, or it is the text of a value. -/
theorem document_of_sendAll {text : String} (h : ({} : Writer).crossings es = 0)
    (hf : (({} : Writer).sendAll es).finish = .ok text) :
    ({} : Writer).taken es = [] ∧ text = "" ∨
      ∃ v : Json, ({} : Writer).taken es = v.events ∧ text = v.text :=
  document_of_finish (writeAll_taken h) hf

/-- A document whose events cross a container has no end for each container that it starts. -/
theorem crossings_eq_zero {text : String} (hf : (({} : Writer).sendAll es).finish = .ok text)
    (h : ({} : Writer).taken es = [] ∨ ∃ v : Json, ({} : Writer).taken es = v.events) :
    ({} : Writer).crossings es = 0 := by
  have hdepth := depth_sendAll {} es
  have hsum : ((({} : Writer).taken es).map Event.rise).sum = 0 := by
    rcases h with h | ⟨v, h⟩
    · rw [h]
      rfl
    · rw [h, sum_rise_events]
  rw [(finish_eq_ok hf).1, hsum] at hdepth
  simpa using hdepth

/-- **When refused events leave no trace.** Whatever was sent before, a refused event leaves the
writer as it was just when it crosses no container; one that does takes that container away and
changes nothing else. A writer that has a document has the text of the events that were taken, and
these are none or the listing of a value, just when no event crossed a container. -/
theorem refused_unchanged_iff (es : List Event) :
    (∀ e w' m, (({} : Writer).sendAll es).write e = (w', some m) →
      (w' = ({} : Writer).sendAll es ↔ (({} : Writer).sendAll es).crosses e = false)) ∧
    (∀ e, (({} : Writer).sendAll es).crosses e = true →
      (({} : Writer).sendAll es).write e = ({ ({} : Writer).sendAll es with
        frames := (({} : Writer).sendAll es).frames.tail }, some .unbalancedEnd)) ∧
    ∀ text, (({} : Writer).sendAll es).finish = .ok text →
      ((({} : Writer).taken es = [] ∧ text = "" ∨
        ∃ v : Json, ({} : Writer).taken es = v.events ∧ text = v.text) ↔
          ({} : Writer).crossings es = 0) := by
  refine ⟨fun e w' m h => refused_eq_iff h, fun e h => write_of_crosses h, fun text hf => ?_⟩
  constructor
  · intro h
    exact crossings_eq_zero hf (h.imp And.left fun ⟨v, hv, _⟩ => ⟨v, hv⟩)
  · intro h
    exact document_of_sendAll h hf

/-- An array with a key in it, which is refused. -/
def keyed : List Event := [.startArray, .key "k", .null, .endArray]

theorem refused_unchanged_iff_keyed :
    (({} : Writer).sendAll keyed).write .null = (({} : Writer).sendAll keyed, some .secondRoot) ∧
    (({} : Writer).sendAll keyed).crosses .null = false ∧
    (({} : Writer).sendAll keyed).finish = .ok "[null]" ∧
    ∃ v : Json, ({} : Writer).taken keyed = v.events ∧ "[null]" = v.text := by
  obtain ⟨hrefused, -, hdocument⟩ := refused_unchanged_iff keyed
  have hnull : (({} : Writer).sendAll keyed).write .null =
      (({} : Writer).sendAll keyed, some .secondRoot) := rfl
  refine ⟨hnull, (hrefused _ _ _ hnull).mp rfl, rfl, ?_⟩
  exact ((hdocument _ rfl).mpr rfl).resolve_left fun h => by cases h.1

/-- **The end of an array in an object is refused and closes the object.** The writer has then a
document, which is the start of an object without its end. -/
theorem truncated_object :
    (({} : Writer).sendAll [.startObject]).write .endArray =
      (({} : Writer).sendAll [.startObject, .endArray], some .unbalancedEnd) ∧
    ({} : Writer).sendAll [.startObject, .endArray] ≠ ({} : Writer).sendAll [.startObject] ∧
    (({} : Writer).sendAll [.startObject, .endArray]).finish = .ok "\x7b" ∧
    ({} : Writer).taken [.startObject, .endArray] = [.startObject] ∧
    ¬ ∃ v : Json, [.startObject] = v.events := by
  refine ⟨rfl, by decide, rfl, rfl, ?_⟩
  rintro ⟨v, hv⟩
  have hsum := sum_rise_events v
  rw [← hv] at hsum
  cases hsum

end Writer

end JsonBinding.Json
