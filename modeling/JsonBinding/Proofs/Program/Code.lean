import JsonBinding.Proofs.Program.Ensures
import JsonBinding.Reflection

/-!
# What is built

The statements that are built for a value follow from its type alone.

* `Schema.Code`: the statements for a value of a form; `Schema.PropertyCode`, `PropertiesCode`,
  `FunctionCode` and `FunctionsCode` those for properties, for a class and for several classes.
* `Stmt.callees`, `Stmt.leaves`: the classes whose functions some statements run, and the types of
  the values that they leave to the generic writer.
* `element?_of_formOf`, `value?_of_formOf`, `class?_of_formOf`: what a type of a form has.
-/

namespace JsonBinding

attribute [local simp] List.filterMap_cons

namespace Stmt

/-! ## Statements of a kind -/

variable {α : Type} (g : Stmt → Option α)

/-- What `g` finds in the statements of a block and inside of them, in order. -/
def gather (body : List Stmt) : List α := (allOf body).filterMap g

/-- The classes whose functions some statements run. -/
abbrev callees (body : List Stmt) : List ClassName := gather callee? body

/-- The types of the values that some statements leave to the generic writer. -/
abbrev leaves (body : List Stmt) : List TypeRef := gather unhandled? body

theorem allOf_append (xs ys : List Stmt) : allOf (xs ++ ys) = allOf xs ++ allOf ys := by
  induction xs with
  | nil => rfl
  | cons x xs ih => rw [List.cons_append, allOf, allOf, ih, List.append_assoc]

@[simp] theorem gather_nil : gather g [] = [] := rfl

@[simp] theorem filterMap_allOf (body : List Stmt) : (allOf body).filterMap g = gather g body := rfl

@[simp] theorem gather_append (xs ys : List Stmt) :
    gather g (xs ++ ys) = gather g xs ++ gather g ys := by
  rw [gather, allOf_append, List.filterMap_append, gather, gather]

theorem mem_leaves_iff {body : List Stmt} {u : TypeRef} :
    u ∈ leaves body ↔ ∃ e, .writeUnhandled e u ∈ allOf body := by
  rw [leaves, gather, List.mem_filterMap]
  constructor
  · rintro ⟨st, hst, hu⟩
    cases st with
    | writeUnhandled e t =>
      cases hu
      exact ⟨e, hst⟩
    | _ => cases hu
  · rintro ⟨e, he⟩
    exact ⟨_, he, rfl⟩

theorem gather_subset {xs ys : List Stmt} (h : allOf xs ⊆ allOf ys) : gather g xs ⊆ gather g ys :=
  List.filterMap_subset g h

theorem callees_append (xs ys : List Stmt) : callees (xs ++ ys) = callees xs ++ callees ys :=
  gather_append _ xs ys

theorem leaves_append (xs ys : List Stmt) : leaves (xs ++ ys) = leaves xs ++ leaves ys :=
  gather_append _ xs ys

@[simp] theorem gather_cons (st : Stmt) (rest : List Stmt) :
    gather g (st :: rest) = (all st).filterMap g ++ gather g rest := by
  rw [gather, allOf, List.filterMap_append, gather]

attribute [simp] all allOf callee? unhandled?

/-- A block for a value that is not null before it is tested, unless its type has no null. -/
def orNull (t : TypeRef) (e : Expr) (body : List Stmt) : List Stmt :=
  if t.isPrimitive then body else [.ifNotNull e body [.writeNull]]

@[simp] theorem callees_orNull (t : TypeRef) (e : Expr) (body : List Stmt) :
    callees (orNull t e body) = callees body := by
  unfold orNull
  split
  · rfl
  · simp

@[simp] theorem leaves_orNull (t : TypeRef) (e : Expr) (body : List Stmt) :
    leaves (orNull t e body) = leaves body := by
  unfold orNull
  split
  · rfl
  · simp

end Stmt

namespace Schema

variable (s : Schema)

/-! ## Code -/

section Code

variable (annotations? : Option AnnotationSet)

/-- The statements that write a value of a form, which is not null, by its type and the expression
that reads it. Their locals are those from the first number on up to the second one. -/
inductive Code : Variant → Expr → TypeRef → Nat → List Stmt → Nat → Prop
  | primitive {e : Expr} {p : Primitive} {n : Nat} : p ≠ .void →
    Code .primitive e (.prim p) n [.writeScalar e (TypeRef.prim p).scalarForm] n
  | boxed {e : Expr} {t : TypeRef} {n : Nat} : Code .boxed e t n [.writeScalar e t.boxedForm] n
  | string {e : Expr} {t : TypeRef} {n : Nat} :
    Code .string e t n
      [.writeScalar e (if t.className?.any s.isEnum then .enumConstant else .text)] n
  | date {e : Expr} {t : TypeRef} {n : Nat} {f : DateFormat} : s.dateFormat annotations? = .ok f →
    Code .date e t n [.writeDate e f] n
  | optional {e : Expr} {t u : TypeRef} {v : Variant} {n m : Nat} {body : List Stmt} :
    t.element? = some u → s.formOf u = some v → Code v (.var n) u (n + 1) body m →
    Code .optional e t n [.ifPresent e n body [.writeNull]] m
  | collection {e : Expr} {t u : TypeRef} {v : Variant} {n m : Nat} {body : List Stmt} :
    t.element? = some u → s.formOf u = some v → Code v (.var n) u (n + 1) body m →
    Code .collection e t n
      [.beginArray, .forEachElement e n (Stmt.orNull u (.var n) body), .endArray] m
  | map {e : Expr} {t u : TypeRef} {v : Variant} {n m : Nat} {body : List Stmt} :
    t.value? = some u → s.formOf u = some v → Code v (.var (n + 1)) u (n + 2) body m →
    Code .map e t n
      [.beginObject,
        .forEachEntry e n (n + 1)
          (.writeDynamicKey (.var n) :: Stmt.orNull u (.var (n + 1)) body),
        .endObject] m
  | object {e : Expr} {name : ClassName} {n : Nat} :
    Code .object e (.cls name) n [.callObject name e] n
  | unhandled {e : Expr} {t : TypeRef} {n : Nat} : Code .unhandled e t n [.writeUnhandled e t] n

/-- The statements that write a value which may be null, as the value of a property. -/
inductive NillableCode (e : Expr) (t : TypeRef) : Nat → List Stmt → Nat → Prop
  | handled {v : Variant} {n m : Nat} {body : List Stmt} : s.formOf t = some v →
    s.Code annotations? v e t n body m → NillableCode e t n (Stmt.orNull t e body) m
  | unhandled {n : Nat} : s.formOf t = none → s.isDeferrable t = true →
    NillableCode e t n [.writeUnhandled e t] n

/-- The statements that write a key and a value, which is not null, unless the value is an optional
without content. -/
inductive PresentCode (key : String) (e : Expr) (t : TypeRef) : Nat → List Stmt → Nat → Prop
  | optional {u : TypeRef} {v : Variant} {n m : Nat} {content : List Stmt} :
    s.formOf t = some .optional → t.element? = some u → s.formOf u = some v →
    s.Code annotations? v (.var n) u (n + 1) content m →
    PresentCode key e t n [.ifPresent e n (.writeKey key :: content) []] m
  | handled {v : Variant} {n m : Nat} {content : List Stmt} : s.formOf t = some v →
    v ≠ .optional → s.Code annotations? v e t n content m →
    PresentCode key e t n (.writeKey key :: content) m
  | unhandled {n : Nat} : s.formOf t = none → s.isDeferrable t = true →
    PresentCode key e t n [.writeKey key, .writeUnhandled e t] n

end Code

/-- The statements that write a property of the value that `e` reads. -/
inductive PropertyCode (e : Expr) (p : Property) : Nat → List Stmt → Nat → Prop
  | primitive {v : Variant} {n m : Nat} {body : List Stmt} : p.type.isPrimitive = true →
    s.formOf p.type = some v →
    s.Code (some p.annotations) v (p.accessor.read e) p.type n body m →
    PropertyCode e p n (.writeKey p.key :: body) m
  | nillable {n m : Nat} {body : List Stmt} : p.type.isPrimitive = false → p.nillable = true →
    s.NillableCode (some p.annotations) (.var n) p.type (n + 1) body m →
    PropertyCode e p n (.bind n (p.accessor.read e) :: .writeKey p.key :: body) m
  | present {n m : Nat} {body : List Stmt} : p.type.isPrimitive = false → p.nillable = false →
    s.PresentCode (some p.annotations) p.key (.var n) p.type (n + 1) body m →
    PropertyCode e p n [.bind n (p.accessor.read e), .ifNotNull (.var n) body []] m

/-- The statements that write some properties of the value that `e` reads. -/
inductive PropertiesCode (e : Expr) : List Property → Nat → List Stmt → Nat → Prop
  | nil {n : Nat} : PropertiesCode e [] n [] n
  | cons {p : Property} {ps : List Property} {n m k : Nat} {body rest : List Stmt} :
    s.PropertyCode e p n body m → PropertiesCode e ps m rest k →
    PropertiesCode e (p :: ps) n (body ++ rest) k

/-- The function of a class. -/
inductive FunctionCode : Nat → ObjectFunction → Nat → Prop
  | own {name : ClassName} {c : ClassInfo} {n m : Nat} {written : List Stmt} :
    s.index.class? name = some c → (s.index.inspect c).impossibility? = none →
    (s.index.inspect c).concrete? = none →
    s.PropertiesCode .root (s.properties (s.index.inspect c)) n written m →
    FunctionCode n ⟨name, .beginObject :: written ++ [.endObject]⟩ m
  | narrowed {name concrete : ClassName} {c : ClassInfo} {n m : Nat} {written : List Stmt} :
    s.index.class? name = some c → (s.index.inspect c).impossibility? = none →
    (s.index.inspect c).concrete? = some concrete →
    s.PropertiesCode (.var n) (s.properties (s.index.inspect c)) (n + 1) written m →
    FunctionCode n
      ⟨name, .bind n (.cast .root concrete) :: .beginObject :: written ++ [.endObject]⟩ m

/-- The functions of some classes. -/
inductive FunctionsCode : Nat → List ObjectFunction → Nat → Prop
  | nil {n : Nat} : FunctionsCode n [] n
  | cons {f : ObjectFunction} {fs : List ObjectFunction} {n m k : Nat} : s.FunctionCode n f m →
    FunctionsCode m fs k → FunctionsCode n (f :: fs) k

/-! ## What a form needs -/

section Forms

variable {s} {t u : TypeRef} {v : Variant}

theorem element?_of_formOf (h : s.formOf t = some v) (hv : v = .optional ∨ v = .collection) :
    ∃ u w, t.element? = some u ∧ s.formOf u = some w := by
  obtain ⟨hb, ht⟩ := formOf_eq_some_iff.mp h
  cases he : t.element? with
  | none =>
    have hv' : s.variant? t = some .collection ∨ s.variant? t = some .optional := by
      rcases hv with rfl | rfl
      · exact .inr ht
      · exact .inl ht
    exact absurd (.noElement (kind_of_variant? hv' he) he) (not_hopeless_of_not_blocked hb)
  | some u =>
    obtain ⟨w, hw⟩ : ∃ w, s.formOf u = some w := by
      refine exists_formOf fun hu => hb (hu.step (.element ?_ he))
      rcases hv with rfl | rfl
      · exact .inl (shape?_of_variant? ht (by decide))
      · exact .inr (shape?_of_variant? ht (by decide))
    exact ⟨u, w, rfl, hw⟩

theorem value?_of_formOf (h : s.formOf t = some .map) :
    ∃ key u w, t.key? = some key ∧ s.isWritableKey key = true ∧ t.value? = some u ∧
      s.formOf u = some w := by
  obtain ⟨hb, ht⟩ := formOf_eq_some_iff.mp h
  have hh := not_hopeless_of_not_blocked hb
  have hk := kind_of_variant?_map ht
  cases hkey : t.key? with
  | none => exact absurd (.noEntry hk (.inl hkey)) hh
  | some key =>
    cases hu : t.value? with
    | none => exact absurd (.noEntry hk (.inr hu)) hh
    | some u =>
      cases hw : s.isWritableKey key with
      | false => exact absurd (.badKey hkey hw) hh
      | true =>
        obtain ⟨w, hform⟩ := exists_formOf fun hb' => hb (hb'.step (.value hu))
        exact ⟨key, u, w, rfl, hw, rfl, hform⟩

theorem class?_of_formOf (h : s.formOf t = some .object) :
    ∃ name c, t = .cls name ∧ s.index.class? name = some c ∧
      (s.index.inspect c).impossibility? = none := by
  obtain ⟨hb, ht⟩ := formOf_eq_some_iff.mp h
  have hh := not_hopeless_of_not_blocked hb
  obtain ⟨name, rfl⟩ := exists_cls_of_object ht
  cases hc : s.index.class? name with
  | none => exact absurd (.missing hc (shape?_eq_none_of_object ht hc)) hh
  | some c =>
    cases hi : (s.index.inspect c).impossibility? with
    | some i => exact absurd (.impossible (shape?_of_class? ht hc) hc hi) hh
    | none => exact ⟨name, c, rfl, hc, hi⟩

theorem formOf_ne_unhandled : s.formOf t ≠ some .unhandled := by
  intro h
  exact variant?_ne_unhandled (formOf_eq_some_iff.mp h).2

end Forms

end Schema

end JsonBinding
