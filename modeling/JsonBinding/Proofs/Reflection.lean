import JsonBinding.Proofs.Writing
import JsonBinding.Reflection
import Mathlib.Tactic.SplitIfs

/-!
# The generic writer, kind by kind

* `reflect_null`, `reflect_scalar`, `reflect_optional`, `reflect_collection`, `reflect_map`,
  `reflect_string`, `reflect_date`, `reflect_enum`, `reflect_instance`: what is written for the
  values of a type of some kind.
* **`reflect_congr`**: of the annotations only the date format matters.
* `steady_reflect`: what was inspected before does not matter.
-/

namespace JsonBinding.Schema

variable {s : Schema} {v : Json} {t u : TypeRef} {a? b? : Option AnnotationSet} {n : ClassName}

theorem reflect_null (hv : v.isNull = true) : s.reflect v t a? =
    if t.isPrimitive then .fail (.shape s!"a `{t}` value" v) else .emit .null := by
  rw [reflect.eq_def, if_pos hv]

theorem reflect_scalar (hv : v.isNull = false) (hk : t.kind = .primitive ∨ t.kind = .boxed) :
    s.reflect v t a? = .emitOk (Host.scalar v t.scalarForm) := by
  rw [reflect.eq_def, if_neg (Bool.eq_false_iff.mp hv)]
  rcases hk with hk | hk <;> rw [hk]

theorem reflect_optional (hv : v.isNull = false) (hk : t.kind = .optional)
    (hu : t.element? = some u) : s.reflect v t a? = (do
      match ← Writing.ofExcept (Host.content v) with
      | none => Writing.emit .null
      | some c => s.reflect c u a?) := by
  rw [reflect.eq_def, if_neg (Bool.eq_false_iff.mp hv), hk]
  simp only [hu]
  split <;> rename_i h <;> rw [h] <;> rfl

theorem reflect_collection (hv : v.isNull = false) (hk : t.kind = .array ∨ t.kind = .collection)
    (hu : t.element? = some u) : s.reflect v t a? = (do
      Writing.emit .startArray
      let items ← Writing.ofExcept (Host.elements v)
      Writing.each items fun item _ => s.reflect item u a?
      Writing.emit .endArray) := by
  rw [reflect.eq_def, if_neg (Bool.eq_false_iff.mp hv)]
  rcases hk with hk | hk
  all_goals
    rw [hk]
    simp only [hu]
    congr 1
    funext _
    split <;> rename_i h <;> rw [h] <;> rfl

theorem reflect_map (hv : v.isNull = false) (hk : t.kind = .map) (hu : t.value? = some u) :
    s.reflect v t a? = (do
      Writing.emit .startObject
      let members ← Writing.ofExcept (Host.entries v)
      Writing.each members fun m _ => do
        Writing.emit (.key m.1)
        s.reflect m.2 u a?
      Writing.emit .endObject) := by
  rw [reflect.eq_def, if_neg (Bool.eq_false_iff.mp hv), hk]
  simp only [hu]
  congr 1
  funext _
  split <;> rename_i h <;> rw [h] <;> rfl

/-! ## Classes -/

theorem reflect_string (hv : v.isNull = false) (hk : (TypeRef.cls n).kind = .plainClass)
    (hn : n.text ∈ Platform.strings) :
    s.reflect v (.cls n) a? = .emitOk (Host.scalar v .text) := by
  rw [reflect.eq_def, if_neg (Bool.eq_false_iff.mp hv), hk]
  simp only [if_pos hn]

theorem reflect_date (hv : v.isNull = false) (hk : (TypeRef.cls n).kind = .plainClass)
    (hn : n.text ∉ Platform.strings) (hd : n.text ∈ Platform.dates) :
    s.reflect v (.cls n) a? = (do
      let format ← Writing.ofExcept (s.dateFormat a?)
      Writing.emitOk (Host.date v format)) := by
  rw [reflect.eq_def, if_neg (Bool.eq_false_iff.mp hv), hk]
  simp only [if_neg hn, if_pos hd]

theorem describe_enum (he : s.isEnum n = true) : s.describe n = pure (some .enum) := by
  unfold isEnum at he
  cases hc : s.index.class? n with
  | none => rw [hc] at he; cases he
  | some c =>
    rw [hc] at he
    rw [describe, hc]
    exact if_pos (of_decide_eq_true he)

theorem reflect_enum (hv : v.isNull = false) (hk : (TypeRef.cls n).kind = .plainClass)
    (hn : n.text ∉ Platform.strings) (hd : n.text ∉ Platform.dates) (he : s.isEnum n = true) :
    s.reflect v (.cls n) a? = .emitOk (Host.scalar v .enumConstant) := by
  rw [reflect.eq_def, if_neg (Bool.eq_false_iff.mp hv), hk]
  simp only [if_neg hn, if_neg hd]
  rw [describeInstance, describe_enum he]
  rfl

variable (s) in
/-- What is written for a property of an instance. -/
def reflectProperty (v : Json) (p : Property) : Writing Unit := do
  let w ← Writing.ofExcept (Host.property v p.accessor)
  let absent ← Writing.ofExcept (isAbsent p.type w)
  if absent && !p.type.isPrimitive then
    if p.nillable then
      Writing.emit (.key p.key)
      Writing.emit .null
  else
    Writing.emit (.key p.key)
    s.reflect w p.type (some p.annotations)

variable (s) in
/-- What is written for an instance of an inspected class. -/
def reflectMembers (v : Json) (i : Inspection) : Writing Unit := do
  Writing.emit .startObject
  Writing.each (s.properties i) fun p _ => s.reflectProperty v p
  Writing.emit .endObject

theorem reflectMembers_eq (i : Inspection) : s.reflectMembers v i = (do
    Writing.emit .startObject
    Writing.each (s.properties i) fun p _ =>
      match _h : Host.property v p.accessor with
      | .error e => Writing.fail e
      | .ok w => do
        let absent ← Writing.ofExcept (isAbsent p.type w)
        if absent && !p.type.isPrimitive then
          if p.nillable then
            Writing.emit (.key p.key)
            Writing.emit .null
        else
          Writing.emit (.key p.key)
          s.reflect w p.type (some p.annotations)
    Writing.emit .endObject) := by
  rw [reflectMembers]
  congr 1
  funext _
  congr 1
  congr 1
  funext p _
  rw [reflectProperty]
  symm
  split <;> rename_i h <;> rw [h] <;> rfl

theorem reflect_instance {c : ClassInfo} (hv : v.isNull = false)
    (hk : (TypeRef.cls n).kind = .plainClass) (hn : n.text ∉ Platform.strings)
    (hd : n.text ∉ Platform.dates) (hc : s.index.class? n = some c) (he : c.kind ≠ .enum)
    (hp : (s.index.inspect c).isPossible = true) :
    s.reflect v (.cls n) a? = (do
      Writing.inspect n
      match (s.index.inspect c).concrete? with
      | none => s.reflectMembers v (s.index.inspect c)
      | some concrete =>
        discard (Writing.ofExcept (Host.cast v concrete))
        s.reflectMembers v (s.index.inspect c)) := by
  rw [reflect.eq_def, if_neg (Bool.eq_false_iff.mp hv), hk]
  simp only [if_neg hn, if_neg hd, describeInstance, describe, hc, if_neg he, hp, if_true,
    Writing.bind_assoc, Writing.pure_bind]
  rw [reflectMembers_eq]
  cases (s.index.inspect c).concrete? <;> rfl

/-! ## Annotations -/

/-- **Of the annotations only the date format matters.** -/
theorem reflect_congr (h : s.dateFormat a? = s.dateFormat b?) :
    s.reflect v t a? = s.reflect v t b? := by
  induction hn : v.size using Nat.strongRecOn generalizing v t with
  | ind k ih =>
    subst hn
    cases hv : v.isNull with
    | true => rw [reflect_null hv, reflect_null hv]
    | false =>
      have hv' := Bool.eq_false_iff.mp hv
      cases hk : t.kind with
      | optional =>
        cases hu : t.element? with
        | none =>
          rw [reflect.eq_def, reflect.eq_def s v t b?]
          simp only [hk, hu]
        | some u =>
          rw [reflect_optional hv hk hu, reflect_optional hv hk hu]
          rcases hc : Host.content v with e | _ | c
          · rfl
          · rfl
          · exact ih c.size (Host.size_of_content hc) rfl
      | array | collection =>
        cases hu : t.element? with
        | none =>
          rw [reflect.eq_def, reflect.eq_def s v t b?]
          simp only [hk, hu]
        | some u =>
          rw [reflect_collection hv (by simp [hk]) hu, reflect_collection hv (by simp [hk]) hu]
          rcases hc : Host.elements v with e | items
          · rfl
          · have heach : (fun item (_ : item ∈ items) => s.reflect item u a?) =
                fun item _ => s.reflect item u b? := by
              funext item hi
              exact ih item.size (Host.size_of_elements hc hi) rfl
            simp only [Writing.ofExcept_ok_bind, heach]
      | map =>
        cases hu : t.value? with
        | none =>
          rw [reflect.eq_def, reflect.eq_def s v t b?]
          simp only [hk, hu]
        | some u =>
          rw [reflect_map hv hk hu, reflect_map hv hk hu]
          rcases hc : Host.entries v with e | members
          · rfl
          · have heach : (fun (m : String × Json) (_ : m ∈ members) =>
                (Writing.emit (.key m.1) >>= fun _ => s.reflect m.2 u a?)) =
                fun m _ => Writing.emit (.key m.1) >>= fun _ => s.reflect m.2 u b? := by
              funext m hm
              rw [ih m.2.size (Host.size_of_entries hc hm) rfl]
            simp only [Writing.ofExcept_ok_bind, heach]
      | plainClass =>
        rw [reflect.eq_def, reflect.eq_def s v t b?]
        simp only [hk, h]
      | _ =>
        rw [reflect.eq_def, reflect.eq_def s v t b?]
        simp only [hk]

/-! ## Inspections -/

theorem steady_writePlain : (s.writePlain v).Steady := .emitAll _

theorem steady_describe : (s.describe n).Steady := by
  rw [describe]
  split
  · exact .pure _
  · split_ifs
    · exact .pure _
    · exact (Writing.Steady.inspect n).bind fun _ => .pure _

theorem steady_describeInstance : (s.describeInstance v n).Steady := by
  rw [describeInstance]
  refine steady_describe.bind fun d? => ?_
  cases d? with
  | some d => exact .pure _
  | none =>
    dsimp only
    split
    · split_ifs
      · exact .pure _
      · exact steady_describe
    · exact .pure _

theorem steady_reflectProperty {p : Property}
    (ih : ∀ w u b?, w.size < v.size → (s.reflect w u b?).Steady) :
    (s.reflectProperty v p).Steady := by
  rw [reflectProperty]
  rcases hw : Host.property v p.accessor with e | w
  · exact .fail e
  · rw [Writing.ofExcept_ok_bind]
    refine (Writing.Steady.ofExcept _).bind fun absent => ?_
    split_ifs
    · exact (Writing.Steady.emit _).bind fun _ => .emit _
    · exact .pure _
    · exact (Writing.Steady.emit _).bind fun _ => ih w _ _ (Host.size_of_property hw)

theorem steady_reflectMembers (ih : ∀ w u b?, w.size < v.size → (s.reflect w u b?).Steady)
    (i : Inspection) : (s.reflectMembers v i).Steady :=
  (Writing.Steady.emit _).bind fun _ =>
    (Writing.Steady.each fun _ _ => steady_reflectProperty ih).bind fun _ => .emit _

/-- What the generic writer writes does not depend on what was inspected before. -/
theorem steady_reflect : (s.reflect v t a?).Steady := by
  induction hn : v.size using Nat.strongRecOn generalizing v t a? with
  | ind k ih =>
    subst hn
    replace ih : ∀ w u b?, w.size < v.size → (s.reflect w u b?).Steady :=
      fun w _ _ hw => ih w.size hw rfl
    rw [reflect.eq_def]
    split_ifs
    · exact .fail _
    · exact .emit _
    · split
      -- scalars and optionals
      · exact .emitOk _
      · exact .emitOk _
      · split
        · exact .fail _
        · exact .emit _
        · rename_i c hc
          split
          · exact ih c _ _ (Host.size_of_content hc)
          · exact steady_writePlain
      -- arrays and collections
      iterate 2
        refine (Writing.Steady.emit _).bind fun _ => ?_
        split
        · exact .fail _
        · rename_i items hi
          refine (Writing.Steady.each fun item hm => ?_).bind fun _ => .emit _
          split
          · exact ih item _ _ (Host.size_of_elements hi hm)
          · exact steady_writePlain
      -- maps
      · refine (Writing.Steady.emit _).bind fun _ => ?_
        split
        · exact .fail _
        · rename_i members hi
          refine (Writing.Steady.each fun m hm => ?_).bind fun _ => .emit _
          refine (Writing.Steady.emit _).bind fun _ => ?_
          split
          · exact ih m.2 _ _ (Host.size_of_entries hi hm)
          · exact steady_writePlain
      -- classes
      · split
        · split_ifs
          · exact .emitOk _
          · exact (Writing.Steady.ofExcept _).bind fun _ => .emitOk _
          · refine steady_describeInstance.bind fun d? => ?_
            split
            · exact steady_writePlain
            · exact .emitOk _
            · rename_i i
              have hm := steady_reflectMembers ih i
              rw [reflectMembers_eq] at hm
              split
              · exact ((Writing.Steady.ofExcept _).bind fun _ => .pure _).bind fun _ => hm
              · exact hm
        · exact steady_writePlain
      -- what has no form of its own
      · exact steady_writePlain
      · exact steady_writePlain

end JsonBinding.Schema
