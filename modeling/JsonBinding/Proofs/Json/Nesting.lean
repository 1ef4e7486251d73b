import JsonBinding.Proofs.Json.Document
import Mathlib

/-!
# Well-nested events

A new writer takes just those events that begin the listing of a value.

* `Hole`, `Progress`: a document that is written in part, as the places where a value is missing;
  `Progress.events` lists what is there.
* `Progress.prefix_completion`: a document in progress can be completed.
* `Writer.At`: the writers that have come so far; `At.write` says where an event leads that is not
  refused, **`at_of_accepted`** where all events lead.
* **`well_nested`**: the events that are taken, those that make a document, and its text.
-/

namespace JsonBinding.Json

/-! ## Documents in progress -/

/-- A place for a value in a container that is open: behind some items of an array, or at a key
behind some members of an object. -/
inductive Hole where
  | item (done : List Json)
  | member (done : Members) (key : String)

namespace Hole

/-- The container with a value in its place, and nothing behind it. -/
def fill (v : Json) : Hole → Json
  | .item done => .arr (done ++ [v])
  | .member done key => .obj (done ++ [(key, v)])

/-- The kind of the container. -/
def scope : Hole → Scope
  | .item _ => .array
  | .member _ _ => .object

/-- Whether a key stands in front of the place. -/
def isKeyed : Hole → Bool
  | .item _ => false
  | .member _ _ => true

/-- The events in front of the place. -/
def events : Hole → List Event
  | .item done => .startArray :: itemEvents done
  | .member done key => .startObject :: (memberEvents done ++ [.key key])

/-- The end of the container. -/
def last : Hole → Event
  | .item _ => .endArray
  | .member _ _ => .endObject

theorem events_fill (v : Json) (h : Hole) :
    (h.fill v).events = h.events ++ (v.events ++ [h.last]) := by
  cases h with
  | item done => simp [fill, Hole.events, Json.events, itemEvents_append, itemEvents, last]
  | member done key =>
    simp [fill, Hole.events, Json.events, memberEvents_append, memberEvents, last]

/-- The events in front of the innermost of some places, which stands first. -/
def eventsAll (holes : List Hole) : List Event := holes.reverse.flatMap Hole.events

theorem eventsAll_cons (h : Hole) (holes : List Hole) :
    eventsAll (h :: holes) = eventsAll holes ++ h.events := by
  simp [eventsAll]

/-- The document with a value in the innermost place, and nothing behind it. -/
def plug (v : Json) : List Hole → Json
  | [] => v
  | h :: holes => plug (h.fill v) holes

theorem events_plug (v : Json) (holes : List Hole) :
    (plug v holes).events = eventsAll holes ++ (v.events ++ holes.map last) := by
  induction holes generalizing v with
  | nil => simp [plug, eventsAll]
  | cons h holes ih => rw [plug, ih, events_fill, eventsAll_cons]; simp

end Hole

/-- A document that is written in part. -/
inductive Progress where
  /-- A value is missing in the innermost of some places, or all of it. -/
  | value (holes : List Hole)
  /-- The innermost container is an object with some members and without a key. -/
  | members (done : Members) (holes : List Hole)
  | complete (v : Json)

namespace Progress

/-- The events of what is there. -/
def events : Progress → List Event
  | .value holes => Hole.eventsAll holes
  | .members done holes => Hole.eventsAll holes ++ .startObject :: memberEvents done
  | .complete v => v.events

/-- The document once a value stands in the innermost place. -/
def put (v : Json) : List Hole → Progress
  | [] => .complete v
  | .item done :: holes => .value (.item (done ++ [v]) :: holes)
  | .member done key :: holes => .members (done ++ [(key, v)]) holes

theorem events_put (v : Json) (holes : List Hole) :
    (put v holes).events = Hole.eventsAll holes ++ v.events := by
  match holes with
  | [] => simp [put, events, Hole.eventsAll]
  | .item done :: holes =>
    simp [put, events, Hole.eventsAll_cons, Hole.events, itemEvents_append, itemEvents]
  | .member done key :: holes =>
    simp [put, events, Hole.eventsAll_cons, Hole.events, memberEvents_append, memberEvents]

/-- A value that begins like the document. -/
def completion : Progress → Json
  | .value holes => Hole.plug .null holes
  | .members done holes => Hole.plug (.obj done) holes
  | .complete v => v

theorem prefix_completion (p : Progress) : p.events <+: p.completion.events := by
  cases p with
  | value holes =>
    rw [completion, Hole.events_plug]
    exact List.prefix_append _ _
  | members done holes =>
    rw [completion, Hole.events_plug, events, Json.events]
    exact ⟨.endObject :: holes.map Hole.last, by simp⟩
  | complete v => exact List.prefix_rfl

/-- The kinds of the containers that are open, the innermost first. -/
def scopes : Progress → List Scope
  | .value holes => holes.map Hole.scope
  | .members _ holes => .object :: holes.map Hole.scope
  | .complete _ => []

/-- Whether a key waits for its value. -/
def isKeyed : Progress → Bool
  | .value (h :: _) => h.isKeyed
  | .value [] | .members _ _ | .complete _ => false

/-- Whether anything is there. -/
def isBegun : Progress → Bool
  | .value holes => !holes.isEmpty
  | .members _ _ | .complete _ => true

/-- Nothing is open just when nothing has begun, or all is complete. -/
theorem scopes_eq_nil {p : Progress} (h : p.scopes = []) :
    p.events = [] ∨ ∃ v, p = .complete v := by
  cases p with
  | value holes =>
    cases List.map_eq_nil_iff.mp h
    exact .inl rfl
  | members done holes => cases h
  | complete v => exact .inr ⟨v, rfl⟩

end Progress

/-! ## Events that are taken -/

namespace Writer

variable {w w' : Writer} {p : Progress} {e : Event} {es fs : List Event} {holes : List Hole}

theorem beforeValue_eq_ok (h : w.beforeValue = .ok w') :
    w.afterKey = true ∧ w' = { w with afterKey := false } ∨
    w.afterKey = false ∧ (∃ n rest, w.frames = ⟨.array, n⟩ :: rest ∧
      w' = { w.put (separator n) with frames := ⟨.array, n + 1⟩ :: rest }) ∨
    w.afterKey = false ∧ w.frames = [] ∧ w.rootWritten = false ∧
      w' = { w with rootWritten := true } := by
  by_cases hk : w.afterKey = true
  · rw [beforeValue_afterKey hk] at h
    cases h
    exact .inl ⟨hk, rfl⟩
  · have hk := Bool.eq_false_iff.mpr hk
    refine .inr ?_
    rw [beforeValue, hk] at h
    cases hf : w.frames with
    | nil =>
      simp only [hf, Bool.false_eq_true, if_false] at h
      split at h <;> cases h
      exact .inr ⟨hk, rfl, Bool.eq_false_iff.mpr ‹_›, by rw [hk]⟩
    | cons f rest =>
      obtain ⟨scope, n⟩ := f
      simp only [hf, Bool.false_eq_true, if_false] at h
      cases scope with
      | array =>
        cases h
        exact .inl ⟨hk, n, rest, rfl, rfl⟩
      | object => cases h

theorem scalar_eq_none {s : String} (h : w.scalar s = (w', none)) :
    ∃ w₁, w.beforeValue = .ok w₁ ∧ w' = w₁.put s := by
  rw [scalar] at h
  split at h <;> cases h
  exact ⟨_, ‹_›, rfl⟩

theorem start_eq_none {scope : Scope} {token : String} (h : w.start scope token = (w', none)) :
    ∃ w₁, w.beforeValue = .ok w₁ ∧
      w' = { w₁.put token with frames := ⟨scope, 0⟩ :: w₁.frames } := by
  rw [start] at h
  split at h <;> cases h
  exact ⟨_, ‹_›, rfl⟩

theorem close_eq_none {scope : Scope} {token : String} (h : w.close scope token = (w', none)) :
    w.afterKey = false ∧ ∃ n rest, w.frames = ⟨scope, n⟩ :: rest ∧
      w' = { w with frames := rest }.put token := by
  rw [close] at h
  split at h
  · cases h
  · refine ⟨Bool.eq_false_iff.mpr ‹_›, ?_⟩
    split at h
    · cases h
    · rename_i f rest hf
      dsimp only at h
      split at h <;> cases h
      rename_i hs
      exact ⟨f.members, rest, by rw [hf, ← hs], rfl⟩

theorem key_eq_none {name : String} (h : w.key name = (w', none)) :
    w.afterKey = false ∧ ∃ n rest, w.frames = ⟨.object, n⟩ :: rest ∧
      w' = { w.put (separator n ++ quoted name ++ ":") with
        frames := ⟨.object, n + 1⟩ :: rest, afterKey := true } := by
  rw [key] at h
  split at h
  · cases h
  · refine ⟨Bool.eq_false_iff.mpr ‹_›, ?_⟩
    split at h <;> cases h
    exact ⟨_, _, ‹_›, rfl⟩

/-! ## Writers in progress -/

/-- Whether a writer has come so far. -/
structure At (p : Progress) (w : Writer) : Prop where
  scopes : w.frames.map (·.scope) = p.scopes
  afterKey : w.afterKey = p.isKeyed
  rootWritten : w.rootWritten = p.isBegun

/-- Whether a value has just begun in the innermost of some places, or has just ended there. -/
structure Inner (holes : List Hole) (w : Writer) : Prop where
  scopes : w.frames.map (·.scope) = holes.map Hole.scope
  afterKey : w.afterKey = false
  rootWritten : w.rootWritten = true

theorem at_new : At (.value []) {} := ⟨rfl, rfl, rfl⟩

theorem Inner.at_put (h : Inner holes w) (v : Json) : At (.put v holes) w := by
  obtain ⟨hs, hk, hr⟩ := h
  match holes with
  | [] => exact ⟨hs, hk, hr⟩
  | .item _ :: _ => exact ⟨hs, hk, hr⟩
  | .member _ _ :: _ => exact ⟨hs, hk, hr⟩

theorem At.beforeValue (h : At p w) (hw : w.beforeValue = .ok w') :
    ∃ holes, p = .value holes ∧ Inner holes w' := by
  obtain ⟨hs, hk, hr⟩ := h
  have hk' := afterKey_of_beforeValue hw
  rcases beforeValue_eq_ok hw with ⟨hkey, rfl⟩ | ⟨hkey, n, rest, hf, rfl⟩ | ⟨hkey, hf, hroot, rfl⟩
  · -- behind a key
    match p with
    | .value (h :: holes) => exact ⟨_, rfl, hs, hk', hr⟩
    | .value [] | .members _ _ | .complete _ => cases hk.symm.trans hkey
  · -- in an array
    rw [hf] at hs
    match p with
    | .value (h :: holes) => exact ⟨_, rfl, hs, hk', hr⟩
    | .value [] | .members _ _ | .complete _ => cases hs
  · -- at the start
    match p with
    | .value [] => exact ⟨_, rfl, hs, hk', rfl⟩
    | .value (_ :: _) | .members _ _ | .complete _ => cases hr.symm.trans hroot

/-- Whether a writer stands where an event leads behind a document in progress. -/
def Leads (p : Progress) (e : Event) (w : Writer) : Prop :=
  ∃ p', p'.events = p.events ++ [e] ∧ At p' w

theorem At.scalar {v : Json} {s : String} (h : At p w) (hw : w.scalar s = (w', none))
    (hv : v.events = [e]) : Leads p e w' := by
  obtain ⟨w₁, hb, rfl⟩ := scalar_eq_none hw
  obtain ⟨holes, rfl, hi⟩ := h.beforeValue hb
  have hp := hi.at_put v
  exact ⟨.put v holes, by rw [Progress.events_put, hv]; rfl, hp.scopes, hp.afterKey, hp.rootWritten⟩

theorem At.startArray {token : String} (h : At p w) (hw : w.start .array token = (w', none)) :
    Leads p .startArray w' := by
  obtain ⟨w₁, hb, rfl⟩ := start_eq_none hw
  obtain ⟨holes, rfl, hi⟩ := h.beforeValue hb
  exact ⟨.value (.item [] :: holes), Hole.eventsAll_cons _ _,
    congrArg (Scope.array :: ·) hi.scopes, hi.afterKey, hi.rootWritten⟩

theorem At.startObject {token : String} (h : At p w) (hw : w.start .object token = (w', none)) :
    Leads p .startObject w' := by
  obtain ⟨w₁, hb, rfl⟩ := start_eq_none hw
  obtain ⟨holes, rfl, hi⟩ := h.beforeValue hb
  exact ⟨.members [] holes, rfl, congrArg (Scope.object :: ·) hi.scopes, hi.afterKey,
    hi.rootWritten⟩

theorem At.exists_items {n : Nat} {rest : List Frame} (h : At p w)
    (hf : w.frames = ⟨.array, n⟩ :: rest) : ∃ done holes, p = .value (.item done :: holes) ∧
      rest.map (·.scope) = holes.map Hole.scope ∧ w.rootWritten = true := by
  have hs := h.scopes
  rw [hf] at hs
  match p with
  | .value (.item done :: holes) => exact ⟨done, holes, rfl, (List.cons.inj hs).2, h.rootWritten⟩
  | .value (.member _ _ :: _) | .value [] | .members _ _ | .complete _ => cases hs

/-- Inside of an object with no key that waits, a key is missing. -/
theorem At.exists_members {n : Nat} {rest : List Frame} (h : At p w) (hk : w.afterKey = false)
    (hf : w.frames = ⟨.object, n⟩ :: rest) : ∃ done holes, p = .members done holes ∧
      rest.map (·.scope) = holes.map Hole.scope ∧ w.rootWritten = true := by
  have hs := h.scopes
  rw [hf] at hs
  match p with
  | .members done holes => exact ⟨done, holes, rfl, (List.cons.inj hs).2, h.rootWritten⟩
  | .value (.member _ _ :: _) => cases h.afterKey.symm.trans hk
  | .value (.item _ :: _) | .value [] | .complete _ => cases hs

theorem At.endArray {token : String} (h : At p w) (hw : w.close .array token = (w', none)) :
    Leads p .endArray w' := by
  obtain ⟨hk, n, rest, hf, rfl⟩ := close_eq_none hw
  obtain ⟨done, holes, rfl, hs, hr⟩ := h.exists_items hf
  have hi : Inner holes ({ w with frames := rest }.put token) := ⟨hs, hk, hr⟩
  refine ⟨.put (.arr done) holes, ?_, hi.at_put _⟩
  rw [Progress.events_put, Json.events, Progress.events, Hole.eventsAll_cons, Hole.events]
  simp

theorem At.endObject {token : String} (h : At p w) (hw : w.close .object token = (w', none)) :
    Leads p .endObject w' := by
  obtain ⟨hk, n, rest, hf, rfl⟩ := close_eq_none hw
  obtain ⟨done, holes, rfl, hs, hr⟩ := h.exists_members hk hf
  have hi : Inner holes ({ w with frames := rest }.put token) := ⟨hs, hk, hr⟩
  refine ⟨.put (.obj done) holes, ?_, hi.at_put _⟩
  rw [Progress.events_put, Json.events, Progress.events]
  simp

theorem At.key {name : String} (h : At p w) (hw : w.key name = (w', none)) :
    Leads p (.key name) w' := by
  obtain ⟨hk, n, rest, hf, rfl⟩ := key_eq_none hw
  obtain ⟨done, holes, rfl, hs, hr⟩ := h.exists_members hk hf
  refine ⟨.value (.member done name :: holes), ?_, congrArg (Scope.object :: ·) hs, rfl, hr⟩
  simp [Progress.events, Hole.eventsAll_cons, Hole.events]

/-- **An event that is not refused** leads to the document with this event behind it. -/
theorem At.write (h : At p w) (hw : w.write e = (w', none)) : Leads p e w' := by
  cases e with
  | startObject => exact h.startObject hw
  | endObject => exact h.endObject hw
  | startArray => exact h.startArray hw
  | endArray => exact h.endArray hw
  | key name => exact h.key hw
  | null => exact h.scalar (v := .null) hw rfl
  | bool b => exact h.scalar (v := .bool b) hw rfl
  | number n => exact h.scalar (v := .num n) hw rfl
  | string s => exact h.scalar (v := .str s) hw rfl

/-! ## Runs -/

/-- **Events that are not refused** list a document in progress. -/
theorem at_of_accepted (h : At p w) (hw : w.writeAll es = (w', none)) :
    ∃ p', p'.events = p.events ++ es ∧ At p' w' := by
  induction es generalizing p w with
  | nil =>
    cases hw
    exact ⟨p, (List.append_nil _).symm, h⟩
  | cons e es ih =>
    rw [writeAll] at hw
    rcases he : w.write e with ⟨w₁, _ | m⟩
    · rw [he] at hw
      obtain ⟨p₁, hp₁, h₁⟩ := h.write he
      obtain ⟨p', hp', h'⟩ := ih h₁ hw
      exact ⟨p', by rw [hp', hp₁, List.append_assoc]; rfl, h'⟩
    · rw [he] at hw
      cases hw

theorem accepted_of_append (h : (w.writeAll (es ++ fs)).2 = none) : (w.writeAll es).2 = none := by
  induction es generalizing w with
  | nil => rfl
  | cons e es ih =>
    rw [List.cons_append, writeAll] at h
    rw [writeAll]
    rcases he : w.write e with ⟨w₁, _ | m⟩
    · rw [he] at h
      exact ih h
    · rw [he] at h
      cases h

theorem new_writeAll_events (v : Json) :
    ({} : Writer).writeAll v.events = (({ rootWritten := true } : Writer).put v.text, none) :=
  writeAll_events rfl v

theorem finish_of_events (v : Json) : (({} : Writer).writeAll v.events).1.finish = .ok v.text := by
  rw [new_writeAll_events]
  simp [finish, put]

theorem finish_eq_ok {text : String} (h : w.finish = .ok text) :
    w.frames = [] ∧ w.afterKey = false ∧ text = w.text := by
  rw [finish] at h
  split at h <;> cases h
  rename_i hc
  simpa using hc

/-- A document in progress that is finished is empty, or it is the text of a value. -/
theorem document_of_finish {text : String} (h : ({} : Writer).writeAll es = (w, none))
    (hf : w.finish = .ok text) :
    es = [] ∧ text = "" ∨ ∃ v : Json, es = v.events ∧ text = v.text := by
  obtain ⟨p, hp, hat⟩ := at_of_accepted at_new h
  have hs := hat.scopes
  rw [(finish_eq_ok hf).1] at hs
  rcases Progress.scopes_eq_nil hs.symm with hnil | ⟨v, rfl⟩
  · obtain rfl : es = [] := hp.symm.trans hnil
    cases h
    cases hf
    exact .inl ⟨rfl, rfl⟩
  · obtain rfl : v.events = es := hp
    have hv := finish_of_events v
    rw [h, hf] at hv
    exact .inr ⟨v, rfl, Except.ok.inj hv⟩

/-- **Well-nested events.** A new writer refuses none of some events just when they begin the
listing of a value. It has then a document just when there are none or they list a value to its end,
and the document is the text of that value. -/
theorem well_nested (es : List Event) :
    ((({} : Writer).writeAll es).2 = none ↔ ∃ v : Json, es <+: v.events) ∧
    ((({} : Writer).writeAll es).2 = none →
      ((∃ text, (({} : Writer).writeAll es).1.finish = .ok text) ↔
        es = [] ∨ ∃ v : Json, es = v.events)) ∧
    ∀ v : Json, es = v.events → (({} : Writer).writeAll es).1.finish = .ok v.text := by
  refine ⟨⟨fun h => ?_, ?_⟩, fun h => ⟨?_, ?_⟩, ?_⟩
  · obtain ⟨p, rfl, -⟩ := at_of_accepted at_new (Prod.ext rfl h)
    exact ⟨_, p.prefix_completion⟩
  · rintro ⟨v, fs, hv⟩
    have hall : (({} : Writer).writeAll (es ++ fs)).2 = none := by rw [hv, new_writeAll_events]
    exact accepted_of_append hall
  · rintro ⟨text, htext⟩
    exact (document_of_finish (Prod.ext rfl h) htext).imp And.left fun ⟨v, hv, _⟩ => ⟨v, hv⟩
  · rintro (rfl | ⟨v, rfl⟩)
    · exact ⟨"", rfl⟩
    · exact ⟨_, finish_of_events v⟩
  · rintro v rfl
    exact finish_of_events v

/-- An object that holds an array and an object. -/
def nested : Json := .obj [("tags", .arr [.num (.int 1), .null]), ("rest", .obj [])]

theorem well_nested_nested :
    (({} : Writer).writeAll (nested.events.take 5)).2 = none ∧
    (¬ ∃ v : Json, nested.events.take 5 = v.events) ∧
    (({} : Writer).writeAll nested.events).1.finish =
      .ok "\x7b\"tags\":[1,null],\"rest\":\x7b\x7d\x7d" ∧
    ¬ ∃ v : Json, [.startObject, .null] <+: v.events := by
  have htaken := (well_nested (nested.events.take 5)).1.mpr ⟨nested, List.take_prefix _ _⟩
  refine ⟨htaken, fun h => ?_, ?_, fun h => ?_⟩
  · obtain ⟨text, htext⟩ := ((well_nested _).2.1 htaken).mpr (.inr h)
    cases htext
  · have htext : nested.text = "\x7b\"tags\":[1,null],\"rest\":\x7b\x7d\x7d" := by cbv
    rw [← htext]
    exact (well_nested _).2.2 nested rfl
  · cases (well_nested [.startObject, .null]).1.mpr h

end Writer

end JsonBinding.Json
