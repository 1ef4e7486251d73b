import JsonBinding.Proofs.Support.Walk

/-!
# Schemas that agree

What is resolved depends on an index only through what is found out about each class and which
classes are enums.

* `Schema.Agrees`: schemas that know the same of every class.
* **`Agrees.resolveIn`**: they resolve every type alike, and remember the same of it.
-/

namespace JsonBinding.Schema

variable {s s' : Schema}

/-- Schemas with the same settings that know the same of every class. -/
structure Agrees (s s' : Schema) : Prop where
  settings : s.settings = s'.settings
  isEnum (n : ClassName) : s.isEnum n = s'.isEnum n
  inspect? (n : ClassName) : s.index.inspect? n = s'.index.inspect? n

namespace Agrees

theorem unknown {n : ClassName} (h : s.Agrees s') (hc : s.index.class? n = none) :
    s'.index.class? n = none := by
  have hi := h.inspect? n
  rw [Index.inspect?, Index.inspect?, hc] at hi
  exact Option.map_eq_none_iff.mp hi.symm

theorem known {n : ClassName} {c : ClassInfo} (h : s.Agrees s') (hc : s.index.class? n = some c) :
    ∃ c', s'.index.class? n = some c' ∧ s'.index.inspect c' = s.index.inspect c := by
  have hi := h.inspect? n
  rw [Index.inspect?, Index.inspect?, hc] at hi
  exact Option.map_eq_some_iff.mp hi.symm

theorem variant? (h : s.Agrees s') (t : TypeRef) : s.variant? t = s'.variant? t := by
  cases t with
  | cls n => simp only [Schema.variant?, h.isEnum]
  | prim p => cases p <;> rfl
  | array _ | app _ _ | var _ | wildcard => rfl

theorem isWritableKey (h : s.Agrees s') (t : TypeRef) :
    s.isWritableKey t = s'.isWritableKey t := by
  cases t with
  | cls n => simp only [Schema.isWritableKey, h.isEnum]
  | prim _ | array _ | app _ _ | var _ | wildcard => rfl

theorem isDeferrable (h : s.Agrees s') (t : TypeRef) : s.isDeferrable t = s'.isDeferrable t := by
  cases t <;> simp only [Schema.isDeferrable, h.settings]

theorem dateFormat (h : s.Agrees s') (a? : Option AnnotationSet) :
    s.dateFormat a? = s'.dateFormat a? := by
  cases a? <;> simp only [Schema.dateFormat, h.settings]

theorem properties (h : s.Agrees s') (i : Inspection) : s.properties i = s'.properties i := by
  rw [Schema.properties, Schema.properties, h.settings]

theorem propertySupport (h : s.Agrees s') (owner : ClassName) (p : Property) (σ : Support) :
    s.propertySupport owner p σ = s'.propertySupport owner p σ := by
  cases σ <;> simp only [Schema.propertySupport, h.isDeferrable]

theorem resolveIn_new {opened : List TypeRef} {t : TypeRef} {memo : Memo} (h : s.Agrees s')
    (hm : memo.find? t = none) (ht : t ∉ opened)
    (hs : ∀ v, s.supportIn opened t memo v ht = s'.supportIn opened t memo v ht) :
    s.resolveIn opened t memo = s'.resolveIn opened t memo := by
  rw [Schema.resolveIn, Schema.resolveIn, hm]
  simp only [ht, dif_neg, not_false_eq_true, h.variant?]
  cases s'.variant? t with
  | none => rfl
  | some v => simp only [hs]

theorem resolution (h : s.Agrees s') :
    (∀ opened t memo, s.resolveIn opened t memo = s'.resolveIn opened t memo) ∧
      (∀ opened t memo v ht, s.supportIn opened t memo v ht = s'.supportIn opened t memo v ht) ∧
        ∀ opened owner ps memo,
          s.propertiesIn opened owner ps memo = s'.propertiesIn opened owner ps memo := by
  refine Schema.resolveIn.mutual_induct s
    (fun opened t memo => s.resolveIn opened t memo = s'.resolveIn opened t memo)
    (fun opened t memo v ht => s.supportIn opened t memo v ht = s'.supportIn opened t memo v ht)
    (fun opened owner ps memo =>
      s.propertiesIn opened owner ps memo = s'.propertiesIn opened owner ps memo)
    ?_ ?_ ?_ ?_ ?_ ?_ ?_ ?_ ?_ ?_ ?_ ?_ ?_ ?_ ?_ ?_ ?_ ?_ ?_ ?_ ?_ ?_
  -- a type: remembered, open, or new
  · intro opened t memo r hm
    rw [Schema.resolveIn, Schema.resolveIn, hm]
  · intro opened t memo hm ht
    rw [Schema.resolveIn, Schema.resolveIn, hm]
    simp only [ht, dif_pos]
  · intro opened t memo hm ht ih
    exact h.resolveIn_new hm ht ih
  -- a form without parts
  iterate 5
    · intro opened t memo ht
      rw [supportIn, supportIn]
  -- an optional or a collection
  · intro opened t memo ht he
    rw [supportIn_of_element?_none (by decide) ht he, supportIn_of_element?_none (by decide) ht he]
  · intro opened t memo ht u he ih
    rw [supportIn_of_element? (by decide) ht he, supportIn_of_element? (by decide) ht he, ih]
  · intro opened t memo ht he
    rw [supportIn_of_element?_none (by decide) ht he, supportIn_of_element?_none (by decide) ht he]
  · intro opened t memo ht u he ih
    rw [supportIn_of_element? (by decide) ht he, supportIn_of_element? (by decide) ht he, ih]
  -- a map
  · intro opened t memo ht key u hu hk hw ih
    rw [supportIn_of_value? ht hk hu, supportIn_of_value? ht hk hu, ← h.isWritableKey, ih]
  · intro opened t memo ht key u hu hk hw
    rw [supportIn_of_value? ht hk hu, supportIn_of_value? ht hk hu, ← h.isWritableKey, if_neg hw,
      if_neg hw]
  · intro opened t memo ht hn
    rw [supportIn_of_value?_none ht hn, supportIn_of_value?_none ht hn]
  -- an object
  · intro opened memo n ht hc _
    rw [supportIn_of_missing ht hc, supportIn_of_missing ht (h.unknown hc)]
  · intro opened memo n ht c hc _ i hi _
    obtain ⟨c', hc', hi'⟩ := h.known hc
    have hi'' := (congrArg Inspection.impossibility? hi').trans hi
    rw [supportIn_of_impossible ht hc hi, supportIn_of_impossible ht hc' hi'']
  · intro opened memo n ht c hc _ hi _ ih
    obtain ⟨c', hc', hi'⟩ := h.known hc
    have hi'' := (congrArg Inspection.impossibility? hi').trans hi
    rw [supportIn_of_possible ht hc hi, supportIn_of_possible ht hc' hi'', ih, hi', h.properties]
  · intro opened t memo _ ht hn
    rw [supportIn.eq_def, supportIn.eq_def]
    cases t with
    | cls n => exact (hn n ht rfl HEq.rfl).elim
    | prim _ | array _ | app _ _ | var _ | wildcard => rfl
  -- properties
  · intro opened owner memo
    rw [propertiesIn, propertiesIn]
  · intro opened owner memo p rest _ r hr ih
    replace hr : s.propertySupport owner p (s.resolveIn opened p.type memo).result.support =
      .unsupported r := hr
    rw [propertiesIn, propertiesIn, ← h.propertySupport, ← ih, hr]
  · intro opened owner memo p rest _ hr ih ih'
    replace ih' : s.propertiesIn opened owner rest (s.resolveIn opened p.type memo).memo =
      s'.propertiesIn opened owner rest (s.resolveIn opened p.type memo).memo := ih'
    have hr' : ∀ r, s'.propertySupport owner p
        (s'.resolveIn opened p.type memo).result.support = .unsupported r → False := by
      rw [← ih, ← h.propertySupport]
      exact hr
    rw [propertiesIn_of_supported hr, propertiesIn_of_supported hr', ← ih]
    simp only [ih', h.propertySupport]

/-- **Schemas that agree resolve every type alike.** -/
theorem resolveIn (h : s.Agrees s') (opened : List TypeRef) (t : TypeRef) (memo : Memo) :
    s.resolveIn opened t memo = s'.resolveIn opened t memo := h.resolution.1 opened t memo

end Agrees

end JsonBinding.Schema
