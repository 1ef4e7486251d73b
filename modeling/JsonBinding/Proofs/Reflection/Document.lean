import JsonBinding.Proofs.Host
import JsonBinding.Proofs.Reflection
import JsonBinding.Proofs.Slots

/-!
# The document of a value

What the generic writer makes of a value can be said without a writer (`Schema.document`): it is one
JSON value, or a fault.

* `Schema.document`, `Schema.document_eq`: the document of a value of a declared type.
* `Schema.reflectAt`, `reflect_eq`: the generic writer by the kind of the type.
* **`writes_reflectAt`**: the generic writer writes the document of a value, or stops at its fault.
* **`document_error`**: only the shape of a value, its class or its dates keep it from having one.
-/

namespace JsonBinding

namespace Schema

variable (s : Schema)

/-- How the index describes a class. -/
def description? (name : ClassName) : Option Description :=
  match s.index.class? name with
  | none => none
  | some c =>
    if c.kind = .enum then some .enum
    else if (s.index.inspect c).isPossible then some (.instance (s.index.inspect c)) else none

/-- How an instance of a declared class is described. -/
def instanceDescription? (v : Json) (name : ClassName) : Option Description :=
  match s.description? name with
  | some d => some d
  | none =>
    match Host.class? v with
    | some actual => if actual = name.text then none else s.description? ⟨actual⟩
    | none => none

/-- What a property of an instance adds to its document: nothing, or a member with null, when it is
absent, else a member with the document of its value. -/
def membersOf (v : Json) (p : Property)
    (value : (w : Json) → Host.property v p.accessor = .ok w → Except Fault Json) :
    Except Fault Members :=
  match h : Host.property v p.accessor with
  | .error e => .error e
  | .ok w => do
    let absent ← isAbsent p.type w
    if absent && !p.type.isPrimitive then .ok (if p.nillable then [(p.key, .null)] else [])
    else (value w h).map fun j => [(p.key, j)]

/-- The document of a value of a declared type, or of unknown type, under the annotations of the
property that holds it. -/
def document (v : Json) (t? : Option TypeRef) (a? : Option AnnotationSet) : Except Fault Json :=
  match t? with
  | none => .ok (s.plain v)
  | some t =>
    if v.isNull then
      if t.isPrimitive then .error (.shape s!"a `{t}` value" v) else .ok .null
    else
      match t.kind with
      | .primitive | .boxed => (Host.scalar v t.scalarForm).map Json.Event.value
      | .optional =>
        match _h : Host.content v with
        | .error e => .error e
        | .ok none => .ok .null
        | .ok (some c) => document c t.element? a?
      | .array | .collection =>
        match _h : Host.elements v with
        | .error e => .error e
        | .ok items =>
          (assemble items fun item _hi =>
            (document item t.element? a?).map fun j => [j]).map Json.arr
      | .map =>
        match _h : Host.entries v with
        | .error e => .error e
        | .ok members =>
          (assemble members fun m _hm =>
            (document m.2 t.value? a?).map fun j => [(m.1, j)]).map Json.obj
      | .plainClass =>
        match t with
        | .cls name =>
          if name.text ∈ Platform.strings then (Host.scalar v .text).map Json.Event.value
          else if name.text ∈ Platform.dates then do
            let format ← s.dateFormat a?
            (Host.date v format).map Json.Event.value
          else
            match s.instanceDescription? v name with
            | none => .ok (s.plain v)
            | some .enum => (Host.scalar v .enumConstant).map Json.Event.value
            | some (.instance i) => do
              if let some concrete := i.concrete? then
                discard (Host.cast v concrete)
              (assemble (s.properties i) fun p _ =>
                membersOf v p fun w _h => document w (some p.type) (some p.annotations)).map .obj
        | _ => .ok (s.plain v)
      | .generic | .unresolved => .ok (s.plain v)
termination_by v.size
decreasing_by
  · exact Host.size_of_content _h
  · exact Host.size_of_elements _h _hi
  · exact Host.size_of_entries _h _hm
  · exact Host.size_of_property _h

/-- The document of an instance of an inspected class. -/
def documentInstance (v : Json) (i : Inspection) : Except Fault Json := do
  if let some concrete := i.concrete? then
    discard (Host.cast v concrete)
  (assemble (s.properties i) fun p _ =>
    membersOf v p fun w _ => s.document w (some p.type) (some p.annotations)).map .obj

/-- The document of a value of a declared class. -/
def documentClass (v : Json) (name : ClassName) (a? : Option AnnotationSet) : Except Fault Json :=
  if name.text ∈ Platform.strings then (Host.scalar v .text).map Json.Event.value
  else if name.text ∈ Platform.dates then do
    let format ← s.dateFormat a?
    (Host.date v format).map Json.Event.value
  else
    match s.instanceDescription? v name with
    | none => .ok (s.plain v)
    | some .enum => (Host.scalar v .enumConstant).map Json.Event.value
    | some (.instance i) => s.documentInstance v i

/-- Writes a value of a declared type, or of unknown type. -/
def reflectAt (v : Json) (t? : Option TypeRef) (a? : Option AnnotationSet) : Writing Unit :=
  match t? with
  | some t => s.reflect v t a?
  | none => s.writePlain v

/-- Writes an entry with a value of a declared type, or of unknown type. -/
def reflectEntry (t? : Option TypeRef) (a? : Option AnnotationSet) (m : String × Json) :
    Writing Unit := do
  Writing.emit (.key m.1)
  s.reflectAt m.2 t? a?

/-- Writes a value of a declared class. -/
def reflectClass (v : Json) (name : ClassName) (a? : Option AnnotationSet) : Writing Unit :=
  if name.text ∈ Platform.strings then Writing.emitOk (Host.scalar v .text)
  else if name.text ∈ Platform.dates then do
    let format ← Writing.ofExcept (s.dateFormat a?)
    Writing.emitOk (Host.date v format)
  else do
    match ← s.describeInstance v name with
    | none => s.writePlain v
    | some .enum => Writing.emitOk (Host.scalar v .enumConstant)
    | some (.instance i) => do
      if let some concrete := i.concrete? then
        discard (Writing.ofExcept (Host.cast v concrete))
      s.reflectMembers v i

variable {s} {v : Json} {t u : TypeRef} {a? : Option AnnotationSet}

theorem membersOf_eq {p : Property} (value : Json → Except Fault Json) :
    membersOf v p (fun w _ => value w) = (do
      let w ← Host.property v p.accessor
      let absent ← isAbsent p.type w
      if absent && !p.type.isPrimitive then .ok (if p.nillable then [(p.key, .null)] else [])
      else (value w).map fun j => [(p.key, j)]) := by
  rw [membersOf]
  split <;> rename_i h <;> rw [h] <;> rfl

theorem document_null (hv : v.isNull = true) : s.document v (some t) a? =
    if t.isPrimitive then .error (.shape s!"a `{t}` value" v) else .ok .null := by
  rw [document.eq_def]
  exact if_pos hv

/-- The document of a value that is not null, by the kind of its type. -/
theorem document_eq (hv : v.isNull = false) : s.document v (some t) a? =
    match t.kind with
    | .primitive | .boxed => (Host.scalar v t.scalarForm).map Json.Event.value
    | .optional => do
      match ← Host.content v with
      | none => .ok .null
      | some c => s.document c t.element? a?
    | .array | .collection => do
      let items ← Host.elements v
      (assemble items fun item _ => (s.document item t.element? a?).map fun j => [j]).map .arr
    | .map => do
      let members ← Host.entries v
      (assemble members fun m _ => (s.document m.2 t.value? a?).map fun j => [(m.1, j)]).map .obj
    | .plainClass =>
      match t with
      | .cls name => s.documentClass v name a?
      | _ => .ok (s.plain v)
    | .generic | .unresolved => .ok (s.plain v) := by
  rw [document.eq_def]
  dsimp only
  rw [if_neg (Bool.eq_false_iff.mp hv)]
  split
  · rfl
  · rfl
  · split <;> rename_i h <;> rw [h] <;> rfl
  · split <;> rename_i h <;> rw [h] <;> rfl
  · split <;> rename_i h <;> rw [h] <;> rfl
  · split <;> rename_i h <;> rw [h] <;> rfl
  · cases t with
    | cls name =>
      rfl
    | _ => rfl
  · rfl
  · rfl

theorem document_instance {n : ClassName} {c : ClassInfo} (hv : v.isNull = false)
    (hk : (TypeRef.cls n).kind = .plainClass) (hs : n.text ∉ Platform.strings)
    (hd : n.text ∉ Platform.dates) (hc : s.index.class? n = some c) (he : c.kind ≠ .enum)
    (hp : (s.index.inspect c).isPossible = true)
    (hn : (s.index.inspect c).concrete? = none) :
    s.document v (some (.cls n)) a? = (assemble (s.properties (s.index.inspect c)) fun p _ =>
      membersOf v p fun w _ => s.document w (some p.type) (some p.annotations)).map .obj := by
  have hdescription : s.instanceDescription? v n = some (.instance (s.index.inspect c)) := by
    rw [instanceDescription?, description?, hc]
    simp only [he, hp, if_true, if_false]
  rw [document_eq hv, hk]
  dsimp only
  rw [documentClass, if_neg hs, if_neg hd, hdescription]
  dsimp only
  rw [documentInstance, hn]

theorem toOption_items (hk : t.kind = .array ∨ t.kind = .collection) (hu : t.element? = some u) :
    (s.document (.arr [v]) (some t) a?).toOption =
      (s.document v (some u) a?).toOption.map fun j => .arr [j] := by
  have hitems : ((assemble [v] fun item _ =>
      (s.document item t.element? a?).map fun j => [j]).map Json.arr).toOption =
      (s.document v (some u) a?).toOption.map fun j => .arr [j] := by
    rw [hu, toOption_map, toOption_assemble_singleton, toOption_map, Option.map_map]
    rfl
  rw [document_eq rfl]
  rcases hk with hk | hk <;> rw [hk] <;> exact hitems

/-- What is written for a value that is not null, by the kind of its type. -/
theorem reflect_eq (hv : v.isNull = false) : s.reflect v t a? =
    match t.kind with
    | .primitive | .boxed => Writing.emitOk (Host.scalar v t.scalarForm)
    | .optional => do
      match ← Writing.ofExcept (Host.content v) with
      | none => Writing.emit .null
      | some c => s.reflectAt c t.element? a?
    | .array | .collection => do
      Writing.emit .startArray
      let items ← Writing.ofExcept (Host.elements v)
      Writing.each items fun item _ => s.reflectAt item t.element? a?
      Writing.emit .endArray
    | .map => do
      Writing.emit .startObject
      let members ← Writing.ofExcept (Host.entries v)
      Writing.each members fun m _ => s.reflectEntry t.value? a? m
      Writing.emit .endObject
    | .plainClass =>
      match t with
      | .cls name => s.reflectClass v name a?
      | _ => s.writePlain v
    | .generic | .unresolved => s.writePlain v := by
  rw [reflect.eq_def, if_neg (Bool.eq_false_iff.mp hv)]
  cases hk : t.kind with
  | optional =>
    dsimp only
    split <;> rename_i h <;> rw [h]
    · rfl
    · rfl
    · cases t.element? <;> rfl
  | array | collection =>
    dsimp only
    congr 1
    funext _
    split <;> rename_i h <;> rw [h]
    · rfl
    · cases t.element? <;> rfl
  | map =>
    dsimp only
    congr 1
    funext _
    split <;> rename_i h <;> rw [h]
    · rfl
    · cases t.value? <;> rfl
  | plainClass =>
    cases t with
    | cls name =>
      refine ite_congr rfl (fun _ => rfl) fun _ => ite_congr rfl (fun _ => rfl) fun _ => ?_
      refine congrArg (s.describeInstance v name >>= ·) (funext fun d? => ?_)
      rcases d? with _ | _ | i
      · rfl
      · rfl
      · dsimp only
        cases i.concrete? with
        | none => exact (reflectMembers_eq i).symm
        | some c =>
          exact congrArg (fun k : Writing Unit => discard (Writing.ofExcept (Host.cast v c)) >>=
            fun _ => k) (reflectMembers_eq i).symm
    | _ => rfl
  | _ => rfl

theorem describe_apply (n : ClassName) (o : Output) :
    ∃ names, s.describe n o = (.ok (s.description? n), ⟨o.writer, names⟩) := by
  rw [describe, description?]
  cases s.index.class? n with
  | none => exact ⟨_, rfl⟩
  | some c =>
    dsimp only
    split_ifs
    · exact ⟨_, rfl⟩
    · exact ⟨_, rfl⟩
    · exact ⟨_, rfl⟩

theorem describeInstance_apply (v : Json) (n : ClassName) (o : Output) :
    ∃ names, s.describeInstance v n o = (.ok (s.instanceDescription? v n), ⟨o.writer, names⟩) := by
  obtain ⟨names, h⟩ := describe_apply n o
  rw [describeInstance, instanceDescription?, Writing.bind_apply, h]
  cases s.description? n with
  | some d => exact ⟨_, rfl⟩
  | none =>
    dsimp only
    cases Host.class? v with
    | none => exact ⟨_, rfl⟩
    | some actual =>
      dsimp only
      split_ifs
      · exact ⟨_, rfl⟩
      · exact describe_apply ⟨actual⟩ ⟨o.writer, names⟩

theorem scalar_event {form : ScalarForm} {e : Json.Event} (h : Host.scalar v form = .ok e) :
    e.value.events = [e] := by
  unfold Host.scalar at h
  split at h <;> cases h <;> rfl

theorem date_event {f : DateFormat} {e : Json.Event} (h : Host.date v f = .ok e) :
    e.value.events = [e] := by
  unfold Host.date at h
  split at h
  · rename_i t
    cases ht : f.apply t with
    | error f => rw [ht] at h; cases h
    | ok text => rw [ht] at h; cases h; rfl
  · cases h

theorem writes_plain : Writing.Writes .value (s.writePlain v) (.ok (s.plain v)) :=
  Writing.Fills.emitAll rfl

open Writing in
/-- What is written for an instance is its document when this is so for the parts of it. -/
theorem writes_class {n : ClassName} (ih : ∀ w : Json, w.size < v.size → ∀ u b?,
    Writes .value (s.reflect w u b?) (s.document w (some u) b?)) :
    Writes .value (s.reflectClass v n a?) (s.documentClass v n a?) := by
  have hproperty : ∀ p : Property, Writes .members (s.reflectProperty v p)
      (membersOf v p fun w _ => s.document w (some p.type) (some p.annotations)) := by
    intro p
    rw [reflectProperty, membersOf_eq]
    refine .ofExcept fun w hw => .ofExcept fun absent _ => ?_
    split_ifs
    · exact Writes.member (r := .ok .null) p.key (Fills.emit rfl rfl)
    · exact Fills.pure Slot.parts_members rfl
    · exact .member p.key (ih w (Host.size_of_property hw) p.type (some p.annotations))
  have hmembers : ∀ i, Writes .value (s.reflectMembers v i) ((assemble (s.properties i) fun p _ =>
      membersOf v p fun w _ => s.document w (some p.type) (some p.annotations)).map .obj) :=
    fun i => .container (y := .ok ()) Slot.parts_members fun _ _ =>
      .each Slot.parts_members fun p _ => hproperty p
  rw [reflectClass, documentClass]
  split_ifs
  · exact .emitOk fun _ => scalar_event
  · exact .ofExcept fun _ _ => .emitOk fun _ => date_event
  · refine Fills.behind (describeInstance_apply v n) ?_
    cases s.instanceDescription? v n with
    | none => exact writes_plain
    | some d =>
      cases d with
      | enum => exact Writes.emitOk fun _ => scalar_event
      | «instance» i =>
        dsimp only
        rw [documentInstance]
        cases i.concrete? with
        | none => exact hmembers i
        | some c =>
          dsimp only
          cases Host.cast v c with
          | error f => exact Writes.of_fail f
          | ok _ => exact hmembers i

open Writing in
/-- **The generic writer writes the document of a value**, or stops at its fault. -/
theorem writes_reflectAt (v : Json) (t? : Option TypeRef) (a? : Option AnnotationSet) :
    Writes .value (s.reflectAt v t? a?) (s.document v t? a?) := by
  induction hn : v.size using Nat.strongRecOn generalizing v t? a? with
  | ind k ih =>
    subst hn
    cases t? with
    | none =>
      rw [document.eq_def]
      exact writes_plain
    | some t =>
      rw [reflectAt]
      cases hv : v.isNull with
      | true =>
        rw [reflect_null hv, document_null hv]
        split_ifs
        · exact .of_fail _
        · exact Fills.emit rfl rfl
      | false =>
        rw [reflect_eq hv, document_eq hv]
        cases t.kind with
        | primitive | boxed => exact .emitOk fun _ => scalar_event
        | optional =>
          refine .ofExcept fun c? hc => ?_
          cases c? with
          | none => exact Fills.emit rfl rfl
          | some c => exact ih c.size (Host.size_of_content hc) c t.element? a? rfl
        | array | collection =>
          refine .container Slot.parts_items fun items hi => .each Slot.parts_items fun j hj => ?_
          exact .item (ih j.size (Host.size_of_elements hi hj) j t.element? a? rfl)
        | map =>
          refine .container Slot.parts_members fun members hi =>
            .each Slot.parts_members fun m hm => ?_
          exact .member m.1 (ih m.2.size (Host.size_of_entries hi hm) m.2 t.value? a? rfl)
        | plainClass =>
          cases t with
          | cls n => exact writes_class fun w hw u b? => ih w.size hw w (some u) b? rfl
          | _ => exact writes_plain
        | generic | unresolved => exact writes_plain

/-- What is written is complete just when the value has a document, which it is the text of. -/
theorem written_complete_iff {text : String} : (s.reflect v t a?).written.1 = .complete text ↔
    (s.document v (some t) a?).toOption.map Json.text = some text := by
  have h : Writing.Writes .value (s.reflect v t a?) (s.document v (some t) a?) :=
    writes_reflectAt v (some t) a?
  rcases h.outcome with ⟨j, hj, hx, hw⟩ | ⟨f, hf, hx⟩
  · have hx : s.reflect v t a? {} = (.ok (), (s.reflect v t a? {}).2) := Prod.ext hx rfl
    rw [hj, Writing.written, hx]
    simp [hw, Except.toOption]
  · have hx : s.reflect v t a? {} = (.error f, (s.reflect v t a? {}).2) := Prod.ext hx rfl
    rw [hf, Writing.written, hx]
    simp [Except.toOption]

/-! ## Faults -/

theorem dateFormat_error {f : Fault} (h : s.dateFormat a? = .error f) : f.FromHost := by
  unfold dateFormat at h
  split at h
  · unfold AnnotationSet.dateFormat at h
    split at h
    · exact .pattern h
    · cases h
  · cases h

theorem isAbsent_error {f : Fault} (h : isAbsent t v = .error f) : f.FromHost := by
  unfold isAbsent at h
  split_ifs at h
  cases hc : Host.content v with
  | error e =>
    rw [hc] at h
    cases h
    exact .content hc
  | ok c => rw [hc] at h; cases h

theorem documentClass_error {n : ClassName} {f : Fault} (ih : ∀ w : Json, w.size < v.size →
    ∀ t? b? f, s.document w t? b? = .error f → f.FromHost)
    (h : s.documentClass v n a? = .error f) : f.FromHost := by
  unfold documentClass at h
  split_ifs at h
  · exact .scalar (map_eq_error.mp h)
  · rcases bind_eq_error.mp h with hf | ⟨format, -, h⟩
    · exact dateFormat_error hf
    · exact .date (map_eq_error.mp h)
  · cases hd : s.instanceDescription? v n with
    | none => rw [hd] at h; cases h
    | some d =>
      cases d with
      | enum =>
        rw [hd] at h
        exact .scalar (map_eq_error.mp h)
      | «instance» i =>
        rw [hd] at h
        have hmembers : ∀ {f}, (assemble (s.properties i) fun p _ => membersOf v p fun w _ =>
            s.document w (some p.type) (some p.annotations)).map Json.obj = .error f →
            f.FromHost := by
          intro f h
          obtain ⟨p, -, h⟩ := assemble_error (map_eq_error.mp h)
          rw [membersOf_eq] at h
          rcases bind_eq_error.mp h with hw | ⟨w, hw, h⟩
          · exact .property hw
          · rcases bind_eq_error.mp h with ha | ⟨absent, -, h⟩
            · exact isAbsent_error ha
            · split_ifs at h
              · exact ih w (Host.size_of_property hw) _ _ _ (map_eq_error.mp h)
        dsimp only at h
        unfold documentInstance at h
        cases hi : i.concrete? with
        | none =>
          rw [hi] at h
          exact hmembers h
        | some c =>
          rw [hi] at h
          rcases bind_eq_error.mp h with hc | ⟨_, -, h⟩
          · exact .cast (map_eq_error.mp hc)
          · exact hmembers h

/-- A value has no document for its shape, its class or its dates only. -/
theorem document_error {f : Fault} {t? : Option TypeRef} (h : s.document v t? a? = .error f) :
    f.FromHost := by
  induction hn : v.size using Nat.strongRecOn generalizing v t? a? f with
  | ind k ih =>
    subst hn
    cases t? with
    | none =>
      rw [document.eq_def] at h
      cases h
    | some t =>
      cases hv : v.isNull with
      | true =>
        rw [document_null hv] at h
        split_ifs at h with ht
        cases h
        exact .null hv ht
      | false =>
        rw [document_eq hv] at h
        cases hk : t.kind with
        | primitive | boxed =>
          rw [hk] at h
          exact .scalar (map_eq_error.mp h)
        | optional =>
          rw [hk] at h
          rcases bind_eq_error.mp h with hc | ⟨c?, hc, h⟩
          · exact .content hc
          · cases c? with
            | none => cases h
            | some c => exact ih c.size (Host.size_of_content hc) h rfl
        | array | collection =>
          rw [hk] at h
          rcases bind_eq_error.mp h with hi | ⟨items, hi, h⟩
          · exact .elements hi
          · obtain ⟨j, hj, h⟩ := assemble_error (map_eq_error.mp h)
            exact ih j.size (Host.size_of_elements hi hj) (map_eq_error.mp h) rfl
        | map =>
          rw [hk] at h
          rcases bind_eq_error.mp h with hi | ⟨members, hi, h⟩
          · exact .entries hi
          · obtain ⟨m, hm, h⟩ := assemble_error (map_eq_error.mp h)
            exact ih m.2.size (Host.size_of_entries hi hm) (map_eq_error.mp h) rfl
        | plainClass =>
          rw [hk] at h
          cases t with
          | cls n => exact documentClass_error (fun w hw _ _ _ h => ih w.size hw h rfl) h
          | _ => cases h
        | generic | unresolved =>
          rw [hk] at h
          cases h

theorem fills_reflect (v : Json) (t : TypeRef) (a? : Option AnnotationSet) :
    Writing.Fills .value (fun _ _ => True) Fault.FromHost (s.reflect v t a?) :=
  Writing.Fills.mono (writes_reflectAt v (some t) a?) (fun _ _ _ => trivial)
    fun _ => document_error

end Schema

end JsonBinding
