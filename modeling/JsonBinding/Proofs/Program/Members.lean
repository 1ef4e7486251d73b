import JsonBinding.Proofs.Program.Blocks
import JsonBinding.Proofs.Program.Executions

/-!
# The members of a written object

* `Schema.isShown`: the properties of an instance that an object has members for.
* `Schema.Renders`: what is written for a value of a declared type, by the kind of the type;
  `RendersHeld` for the value of a property, `RendersMembers` for the properties of an instance.
* **`Code.renders`**, **`PropertyCode.renders`**, **`FunctionCode.renders`**: the code of a value,
  of a property and of a class writes that.
* **`rendersObject_callWithin`**: a function that is called writes an object with a member for each
  property that is shown.
-/

namespace JsonBinding

open Writing
open Locals (Agree)

namespace Schema

variable (s : Schema)

/-! ## What is written -/

/-- Whether an object has a member for a property of an instance: always for a primitive and when
null is written, else when the value is there. -/
def isShown (x : Json) (p : Property) : Bool :=
  p.type.isPrimitive || p.nillable ||
    (Host.property x p.accessor >>= isAbsent p.type) matches .ok false

mutual

/-- Whether a document is what is written for a value of a declared type, under some annotations. -/
inductive Renders : Option AnnotationSet → TypeRef → Json → Json → Prop
  | null {a? : Option AnnotationSet} {t : TypeRef} : t.isPrimitive = false →
    Renders a? t .null .null
  | scalar {a? : Option AnnotationSet} {t : TypeRef} {w : Json} {ev : Json.Event} :
    t.kind = .primitive ∨ t.kind = .boxed → Host.scalar w t.scalarForm = .ok ev →
    Renders a? t w ev.value
  | string {a? : Option AnnotationSet} {n : ClassName} {w : Json} {ev : Json.Event} :
    (TypeRef.cls n).kind = .plainClass → n.text ∈ Platform.strings →
    Host.scalar w .text = .ok ev → Renders a? (.cls n) w ev.value
  | date {a? : Option AnnotationSet} {n : ClassName} {w : Json} {f : DateFormat}
    {ev : Json.Event} : (TypeRef.cls n).kind = .plainClass → n.text ∈ Platform.dates →
    s.dateFormat a? = .ok f → Host.date w f = .ok ev → Renders a? (.cls n) w ev.value
  | enum {a? : Option AnnotationSet} {n : ClassName} {w : Json} {ev : Json.Event} :
    (TypeRef.cls n).kind = .plainClass → s.isEnum n = true →
    Host.scalar w .enumConstant = .ok ev → Renders a? (.cls n) w ev.value
  | empty {a? : Option AnnotationSet} {t : TypeRef} {w : Json} : t.kind = .optional →
    Host.content w = .ok none → Renders a? t w .null
  | content {a? : Option AnnotationSet} {t u : TypeRef} {w c j : Json} : t.kind = .optional →
    t.element? = some u → Host.content w = .ok (some c) → Renders a? u c j → Renders a? t w j
  | elements {a? : Option AnnotationSet} {t u : TypeRef} {w : Json} {items js : List Json} :
    t.kind = .array ∨ t.kind = .collection → t.element? = some u →
    Host.elements w = .ok items → RendersItems a? u items js → Renders a? t w (.arr js)
  | entries {a? : Option AnnotationSet} {t u : TypeRef} {w : Json} {es ms : Members} :
    t.kind = .map → t.value? = some u → Host.entries w = .ok es → RendersEntries a? u es ms →
    Renders a? t w (.obj ms)
  | «instance» {a? : Option AnnotationSet} {n : ClassName} {w : Json} {c : ClassInfo}
    {ms : Members} : (TypeRef.cls n).kind = .plainClass → n.text ∉ Platform.strings →
    n.text ∉ Platform.dates → s.isEnum n = false → w.isNull = false →
    s.index.class? n = some c → RendersMembers w (s.properties (s.index.inspect c)) ms →
    Renders a? (.cls n) w (.obj ms)

/-- What is written for the elements of a collection, one item for each. -/
inductive RendersItems : Option AnnotationSet → TypeRef → List Json → List Json → Prop
  | nil {a? : Option AnnotationSet} {u : TypeRef} : RendersItems a? u [] []
  | cons {a? : Option AnnotationSet} {u : TypeRef} {w j : Json} {items js : List Json} :
    Renders a? u w j → RendersItems a? u items js → RendersItems a? u (w :: items) (j :: js)

/-- What is written for the entries of a map, one member for each. -/
inductive RendersEntries : Option AnnotationSet → TypeRef → Members → Members → Prop
  | nil {a? : Option AnnotationSet} {u : TypeRef} : RendersEntries a? u [] []
  | cons {a? : Option AnnotationSet} {u : TypeRef} {key : String} {w j : Json} {es ms : Members} :
    Renders a? u w j → RendersEntries a? u es ms →
    RendersEntries a? u ((key, w) :: es) ((key, j) :: ms)

/-- What is written for the value of a property: a value of a type with a form is written by the
type, any other one is left to the generic writer, which knows no annotations of the property. -/
inductive RendersHeld : Option AnnotationSet → TypeRef → Json → Json → Prop
  | handled {a? : Option AnnotationSet} {t : TypeRef} {w j : Json} : s.formOf t ≠ none →
    Renders a? t w j → RendersHeld a? t w j
  | deferred {a? : Option AnnotationSet} {t : TypeRef} {w j : Json} : s.formOf t = none →
    s.document w (some t) none = .ok j → RendersHeld a? t w j

/-- What is written for some properties of an instance, one member for each that is shown. -/
inductive RendersMembers : Json → List Property → Members → Prop
  | nil {x : Json} : RendersMembers x [] []
  | hidden {x : Json} {p : Property} {ps : List Property} {ms : Members} :
    isShown x p = false → RendersMembers x ps ms → RendersMembers x (p :: ps) ms
  | shown {x w j : Json} {p : Property} {ps : List Property} {ms : Members} :
    isShown x p = true → Host.property x p.accessor = .ok w →
    RendersHeld (some p.annotations) p.type w j → RendersMembers x ps ms →
    RendersMembers x (p :: ps) ((p.key, j) :: ms)

end

/-- Whether a document is what the function of a class writes for an instance, which is one of the
class that the function narrows it to. -/
def RendersObject (k : ClassName) (x j : Json) : Prop :=
  ∃ c ms, s.index.class? k = some c ∧
    (∀ concrete, (s.index.inspect c).concrete? = some concrete → Host.cast x concrete = .ok x) ∧
    s.RendersMembers x (s.properties (s.index.inspect c)) ms ∧ j = .obj ms

variable {s} {around : Surroundings} {root w x : Json} {ls : Locals} {e : Expr} {t u : TypeRef}
  {a? : Option AnnotationSet} {v : Variant} {n m : Nat} {body : List Stmt}

theorem rendersItems_of_forall₂ {items js : List Json}
    (h : List.Forall₂ (s.Renders a? u) items js) : s.RendersItems a? u items js := by
  induction h with
  | nil => exact .nil
  | cons h _ ih => exact .cons h ih

theorem rendersEntries_of_forall₂ {es ms : Members}
    (h : List.Forall₂ (fun e m => m.1 = e.1 ∧ s.Renders a? u e.2 m.2) es ms) :
    s.RendersEntries a? u es ms := by
  induction h with
  | nil => exact .nil
  | @cons e m _ _ h _ ih =>
    obtain ⟨key, j⟩ := m
    obtain ⟨rfl, h⟩ := h
    exact .cons h ih

theorem RendersMembers.append {p : Property} {ps : List Property} {ms ms' : Members}
    (h : s.RendersMembers x [p] ms) (h' : s.RendersMembers x ps ms') :
    s.RendersMembers x (p :: ps) (ms ++ ms') := by
  cases h with
  | hidden hp h =>
    cases h
    exact .hidden hp h'
  | shown hp hw hj h =>
    cases h
    exact .shown hp hw hj h'

/-- The members are those of the properties that are shown, in their order. -/
theorem RendersMembers.forall₂ {ps : List Property} {ms : Members}
    (h : s.RendersMembers x ps ms) :
    List.Forall₂ (fun p member => member.1 = p.key ∧ ∃ w, Host.property x p.accessor = .ok w ∧
      s.RendersHeld (some p.annotations) p.type w member.2) (ps.filter (isShown x)) ms := by
  induction ps generalizing ms with
  | nil =>
    cases h
    exact .nil
  | cons p ps ih =>
    cases h with
    | hidden hp h =>
      rw [List.filter_cons_of_neg (by simp [hp])]
      exact ih h
    | shown hp hw hj h =>
      rw [List.filter_cons_of_pos hp]
      exact .cons ⟨rfl, _, hw, hj⟩ (ih h)

/-! ## Values -/

variable (s) in
/-- Whether functions write objects as they should, when they end. -/
def Serving (around : Surroundings) : Prop :=
  around.generic = s.writeUnhandled ∧
  ∀ k x, Writing.Fills .value (fun _ => s.RendersObject k x) (fun _ => True) (around.call k x)

/-- A value that may be null is written as its type says when it is so but for null. -/
theorem rendered_orNull (hv : s.formOf t = some v) (he : e.eval root ls = .ok w)
    (h : w.isNull = false ∨ v = .primitive →
      Stmt.Makes .value n (s.Renders a? t w) (fun _ => True) around root body ls) :
    Stmt.Makes .value n (s.Renders a? t w) (fun _ => True) around root
      (Stmt.orNull t e body) ls := by
  refine Stmt.makes_orNull he (fun ht hw => ?_) fun hw => h (hw.imp_right fun ht => ?_)
  · cases w with
    | null => exact .null ht
    | _ => cases hw
  · exact eq_primitive_of_isPrimitive (formOf_eq_some_iff.mp hv).2 ht

/-- **The code of a value writes what the type of the value says.** -/
theorem Code.renders (hs : s.EnumsApart) (h : s.Code a? v e t n body m) (hf : s.formOf t = some v)
    (he : e.eval root ls = .ok w) (hw : w.isNull = false ∨ v = .primitive)
    (haround : s.Serving around) :
    Stmt.Makes .value n (s.Renders a? t w) (fun _ => True) around root body ls := by
  induction h generalizing ls w with
  | primitive => exact Stmt.makes_scalar he (fun _ _ => trivial) fun _ h => .scalar (.inl rfl) h
  | boxed =>
    obtain ⟨hk, hform⟩ := kind_of_boxed (formOf_eq_some_iff.mp hf).2
    rw [hform]
    exact Stmt.makes_scalar he (fun _ _ => trivial) fun _ h => .scalar (.inr hk) h
  | string =>
    obtain ⟨name, rfl, hb, hname⟩ := class_of_string (formOf_eq_some_iff.mp hf).2
    rw [TypeRef.className?, Option.any_some]
    split_ifs with henum
    · refine Stmt.makes_scalar he (fun _ _ => trivial) fun _ h => ?_
      exact .enum (kind_plainClass hb (hs name henum).2) henum h
    · have hstr := hname.resolve_right henum
      refine Stmt.makes_scalar he (fun _ _ => trivial) fun _ h => ?_
      exact .string (kind_plainClass hb (strings_apart _ hstr)) hstr h
  | date hformat =>
    obtain ⟨name, rfl, hk, -, hd⟩ := class_of_date (formOf_eq_some_iff.mp hf).2
    exact Stmt.makes_date he (fun _ _ => trivial) fun _ h => .date hk hd hformat h
  | @optional e t u v n m body hu hv hc ih =>
    have hk := (kind_eq_optional_iff hs (formOf_eq_some_iff.mp hf).2).mpr rfl
    refine Stmt.makes_present he (Nat.le_refl n) (fun _ _ => trivial) (fun c hcon => ?_) fun hcon =>
      Stmt.makes_null (.empty hk hcon)
    exact (ih hv Expr.eval_var (.inl (isNull_eq_false_of_content hcon))).mono
      fun _ => .content hk hu hcon
  | @collection e t u v n m body hu hv hc ih =>
    have hk := kind_of_collection (formOf_eq_some_iff.mp hf).2
    refine Stmt.makes_array (Stmt.makes_elements (Q := s.Renders a? u) he (fun _ _ => trivial)
      fun items _ item _ ls₁ _ => ?_) ?_
    · refine rendered_orNull hv Expr.eval_var fun hitem => ih hv Expr.eval_var hitem
    · rintro js ⟨items, hels, hjs⟩
      exact .elements hk hu hels (rendersItems_of_forall₂ hjs)
  | @map e t u v n m body hu hv hc ih =>
    refine Stmt.makes_object (Stmt.makes_entries (Q := s.Renders a? u) he (fun _ _ => trivial)
      fun es _ entry _ ls₁ _ => ?_) ?_
    · refine rendered_orNull hv Expr.eval_var fun hitem => ih hv Expr.eval_var hitem
    · rintro ms ⟨es, hes, hms⟩
      exact .entries (kind_of_value? hu) hu hes (rendersEntries_of_forall₂ hms)
  | @object e name n =>
    obtain ⟨hk, hstr, hd, henum⟩ := class_of_object (formOf_eq_some_iff.mp hf).2
    rw [Stmt.Makes, Stmt.runAll_singleton, Stmt.run, he]
    refine (haround.2 name w).result ?_
    rintro _ _ ⟨c, ms, hc, -, hms, rfl⟩
    exact ⟨.refl, .instance hk hstr hd henum (hw.resolve_right (by decide)) hc hms⟩
  | unhandled => exact absurd hf formOf_ne_unhandled

/-! ## Properties -/

theorem NillableCode.renders (hs : s.EnumsApart) (h : s.NillableCode a? e t n body m)
    (he : e.eval root ls = .ok w) (haround : s.Serving around) :
    Stmt.Makes .value n (s.RendersHeld a? t w) (fun _ => True) around root body ls := by
  cases h with
  | @handled v n m body hf hc =>
    have hvalue := rendered_orNull hf he fun hw => hc.renders hs hf he hw haround
    exact hvalue.mono fun _ => .handled (by simp [hf])
  | unhandled hf _ =>
    exact Stmt.makes_unhandled haround.1 he (fun _ _ => trivial) fun _ => .deferred hf

theorem PresentCode.renders {key : String} (hs : s.EnumsApart)
    (h : s.PresentCode a? key e t n body m) (he : e.eval root ls = .ok w) (hw : w.isNull = false)
    (haround : s.Serving around) :
    Stmt.Makes .members n (fun ms => isAbsent t w = .ok true ∧ ms = [] ∨
      isAbsent t w = .ok false ∧ ∃ j, s.RendersHeld a? t w j ∧ ms = [(key, j)]) (fun _ => True)
      around root body ls := by
  cases h with
  | @optional u v n m content hf hu hv hc =>
    have hk := (kind_eq_optional_iff hs (formOf_eq_some_iff.mp hf).2).mpr rfl
    rw [isAbsent_optional hw hk]
    refine Stmt.makes_present he (Nat.le_refl n) (fun _ _ => trivial) (fun c hcon => ?_)
      fun hcon => ?_
    · rw [hcon]
      refine (Stmt.makes_key (hc.renders hs hv Expr.eval_var
        (.inl (isNull_eq_false_of_content hcon)) haround)).mono ?_
      rintro _ ⟨j, hj, rfl⟩
      exact .inr ⟨rfl, j, .handled (by simp [hf]) (.content hk hu hcon hj), rfl⟩
    · rw [hcon]
      exact Stmt.makes_none (.inl ⟨rfl, rfl⟩)
  | @handled v n m content hf hv hc =>
    have hk := fun hk => hv ((kind_eq_optional_iff hs (formOf_eq_some_iff.mp hf).2).mp hk)
    rw [isAbsent_present hw hk]
    refine (Stmt.makes_key (hc.renders hs hf he (.inl hw) haround)).mono ?_
    rintro _ ⟨j, hj, rfl⟩
    exact .inr ⟨rfl, j, .handled (by simp [hf]) hj, rfl⟩
  | unhandled hf hd =>
    rw [isAbsent_present hw (kind_ne_optional hs hf hd)]
    refine (Stmt.makes_key (Stmt.makes_unhandled (R := s.RendersHeld a? t w) haround.1 he
      (fun _ _ => trivial) fun _ => .deferred hf)).mono ?_
    rintro _ ⟨j, hj, rfl⟩
    exact .inr ⟨rfl, j, hj, rfl⟩

/-- **The code of a property writes its member, if it is shown.** -/
theorem PropertyCode.renders {p : Property} (hs : s.EnumsApart) (h : s.PropertyCode e p n body m)
    (he : e.eval root ls = .ok x) (haround : s.Serving around) :
    Stmt.Makes .members n (s.RendersMembers x [p]) (fun _ => True) around root body ls := by
  have hread := Accessor.eval_read he p.accessor
  cases hprop : Host.property x p.accessor with
  | error f => exact h.makes_of_error he hprop trivial
  | ok w =>
    rw [hprop] at hread
    have hshown : p.type.isPrimitive = true ∨ p.nillable = true ∨ isAbsent p.type w = .ok false →
        isShown x p = true := by
      rintro (h | h | h)
      · simp [isShown, h]
      · simp [isShown, h]
      · simp [isShown, hprop, bind, Except.bind, h]
    cases h with
    | @primitive v n m body hp hf hc =>
      have hv := eq_primitive_of_isPrimitive (formOf_eq_some_iff.mp hf).2 hp
      refine (Stmt.makes_key (hc.renders hs hf hread (.inr hv) haround)).mono ?_
      rintro _ ⟨j, hj, rfl⟩
      exact .shown (hshown (.inl hp)) hprop (.handled (by simp [hf]) hj) .nil
    | @nillable n m body hp hn hc =>
      refine Stmt.makes_bind hread (m := n + 1) ?_ (Nat.le_succ n)
      refine (Stmt.makes_key (hc.renders hs Expr.eval_var haround)).mono ?_
      rintro _ ⟨j, hj, rfl⟩
      exact .shown (hshown (.inr (.inl hn))) hprop hj .nil
    | @present n m body hp hn hc =>
      have hhidden : isAbsent p.type w = .ok true → isShown x p = false := fun h => by
        simp [isShown, hp, hn, hprop, bind, Except.bind, h]
      refine Stmt.makes_bind hread (m := n + 1) ?_ (Nat.le_succ n)
      refine Stmt.makes_ifNotNull Expr.eval_var (fun hw => ?_) fun hw => ?_
      · refine (hc.renders hs Expr.eval_var hw haround).mono ?_
        rintro _ (⟨ha, rfl⟩ | ⟨ha, j, hj, rfl⟩)
        · exact .hidden (hhidden ha) .nil
        · exact .shown (hshown (.inr (.inr ha))) hprop hj .nil
      · exact Stmt.makes_none (.hidden (hhidden (by rw [isAbsent, if_pos hw])) .nil)

/-- The code of some properties of a value, which is read through the locals below a number, writes
the members of those that are shown. -/
theorem PropertiesCode.renders {ps : List Property} {k : Nat} {ls₁ : Locals} (hs : s.EnumsApart)
    (h : s.PropertiesCode e ps n body m) (hk : k ≤ n)
    (he : ∀ ls', Agree k ls ls' → e.eval root ls' = .ok x) (haround : s.Serving around)
    (hls : Agree k ls ls₁) :
    Writing.Fills .members (fun ls' ms => Agree k ls ls' ∧ s.RendersMembers x ps ms) (fun _ => True)
      (Stmt.runAll around root body ls₁) := by
  induction h generalizing ls₁ with
  | nil => exact .pure Slot.parts_members ⟨hls, .nil⟩
  | cons hc _ ih =>
    rw [Stmt.runAll_append]
    refine (hc.renders hs (he _ hls) haround).seq Slot.parts_members fun ls₂ ms ⟨h₂, hms⟩ => ?_
    refine Writing.Fills.mono (ih (Nat.le_trans hk hc.le) (hls.trans (h₂.anti hk))) ?_ fun _ h => h
    exact fun ls' ms' h => ⟨h.1, hms.append h.2⟩

/-! ## Functions -/

/-- **The function of a class writes an object with the members of the instance.** -/
theorem FunctionCode.renders {f : ObjectFunction} (hs : s.EnumsApart) (h : s.FunctionCode n f m)
    (haround : s.Serving around) :
    Writing.Fills .value (fun _ => s.RendersObject f.name x) (fun _ => True)
      (Stmt.runAll around x f.body []) :=
  h.makes (fun _ _ _ => trivial) fun _ _ k _ _ _ _ hw he _ =>
    hw.renders hs (Nat.le_refl k) he haround .refl

variable {u : SerializerUnit}

/-- **A function that is called writes an object with a member for each property that is shown.** -/
theorem rendersObject_callWithin (hs : s.EnumsApart) (hu : s.ProgramCode u.root u.program)
    (depth : Nat) : s.Serving ⟨s.callWithin u depth, s.writeUnhandled⟩ := by
  induction depth with
  | zero => exact ⟨rfl, fun _ _ => .fail trivial⟩
  | succ depth ih =>
    refine ⟨rfl, fun k x => ?_⟩
    show Writing.Fills .value _ _ (s.callWithin u (depth + 1) k x)
    rw [callWithin]
    cases hf : u.program.function? k with
    | none => exact .fail trivial
    | some f =>
      have hname : f.name = k := by simpa using List.find?_some hf
      obtain ⟨n, m, hcode⟩ := hu.function (List.mem_of_find?_eq_some hf)
      rw [← hname]
      exact (hcode.renders hs ih).result fun _ _ h => h

end Schema

end JsonBinding
