import JsonBinding.Program.Run
import JsonBinding.Proofs.Program.Kinds
import JsonBinding.Proofs.Program.Leaves
import JsonBinding.Proofs.Reflection

/-!
# Programs write what the generic writer writes

The code of a value and the generic writer write it alike.

* `Locals.Agree`: a block changes no local below its own.
* `Schema.Calls`: functions that write small values like the generic writer.
* **`Code.faithful`**, **`PropertyCode.faithful`**, **`FunctionCode.faithful`**: the code of a
  value, of a property and of a class.
-/

namespace JsonBinding

open Writing

attribute [local simp] List.filterMap_cons

/-! ## Locals -/

/-- Whether some locals hold below a number what others hold. -/
def Locals.Agree (n : Nat) (ls ls' : Locals) : Prop := ∀ i < n, ls'.lookup i = ls.lookup i

namespace Locals.Agree

variable {n m : Nat} {ls ls' ls'' : Locals}

theorem refl : Agree n ls ls := fun _ _ => rfl

theorem trans (h : Agree n ls ls') (h' : Agree n ls' ls'') : Agree n ls ls'' :=
  fun i hi => (h' i hi).trans (h i hi)

theorem anti (hnm : n ≤ m) (h : Agree m ls ls') : Agree n ls ls' :=
  fun i hi => h i (Nat.lt_of_lt_of_le hi hnm)

theorem inner {k : Nat} {b : Bound} (h : Agree m ((k, b) :: ls) ls') (hk : n ≤ k) (hm : n ≤ m) :
    Agree n ls ls' := by
  intro i hi
  rw [h i (Nat.lt_of_lt_of_le hi hm), List.lookup_cons, beq_eq_false_iff_ne.mpr (by omega)]

end Locals.Agree

open Locals (Agree)

/-! ## Runs -/

namespace Stmt

variable {around : Surroundings} {root w : Json} {ls : Locals} {e : Expr} {rest : List Stmt}

theorem runAll_cons (st : Stmt) : runAll around root (st :: rest) ls =
    (run around root st ls >>= fun ls => runAll around root rest ls) := rfl

theorem runAll_singleton (st : Stmt) : runAll around root [st] ls = run around root st ls :=
  bind_pure _

theorem runAll_append (xs ys : List Stmt) : runAll around root (xs ++ ys) ls =
    (runAll around root xs ls >>= fun ls => runAll around root ys ls) := by
  induction xs generalizing ls with
  | nil => rfl
  | cons x xs ih =>
    rw [List.cons_append, runAll_cons, runAll_cons, bind_assoc]
    congr 1
    funext ls
    exact ih

/-- A statement that writes an event and changes no local goes before others. -/
theorem runAll_emit {st : Stmt} {ev : Json.Event}
    (h : run around root st ls = (Writing.emit ev >>= fun _ => pure ls)) :
    runAll around root (st :: rest) ls =
      (Writing.emit ev >>= fun _ => runAll around root rest ls) := by
  rw [runAll_cons, h, bind_assoc]
  rfl

end Stmt

namespace Accessor

variable {root x : Json} {ls : Locals} {e : Expr}

theorem eval_read (he : e.eval root ls = .ok x) (a : Accessor) :
    (a.read e).eval root ls = Host.property x a := by
  cases a with
  | getter method => rw [Accessor.read, Expr.eval, he]; rfl
  | field name => rw [Accessor.read, Expr.eval, he]; rfl

end Accessor

theorem Expr.eval_var {root x : Json} {ls : Locals} {n : Nat} :
    (Expr.var n).eval root ((n, .value x) :: ls) = .ok x := by
  rw [Expr.eval, List.lookup_cons_self]

/-! ## Values -/

namespace Schema

variable {s : Schema} {around : Surroundings} {root w : Json} {ls : Locals} {e : Expr}
  {t : TypeRef} {a? : Option AnnotationSet} {v : Variant} {n m : Nat} {body : List Stmt}

variable (s) in
/-- Whether the functions of some classes write values below some size like the generic writer. -/
def Calls (around : Surroundings) (names : List ClassName) (size : Nat) : Prop :=
  ∀ k ∈ names, ∀ x : Json, x.isNull = false → x.size < size → ∀ b?,
    Alike (fun _ _ => True) (around.call k x) (s.reflect x (.cls k) b?)

theorem Calls.mono {names names' : List ClassName} {k k' : Nat} (hn : names' ⊆ names) (hk : k' ≤ k)
    (h : s.Calls around names k) : s.Calls around names' k' :=
  fun name hname x hx hs => h name (hn hname) x hx (Nat.lt_of_lt_of_le hs hk)

theorem isNull_eq_false_of_content {c : Json} (h : Host.content w = .ok (some c)) :
    c.isNull = false := by
  unfold Host.content at h
  split at h
  · cases h
  · rename_i hc _
    cases h
    cases c with
    | null => exact absurd rfl hc
    | _ => rfl
  · cases h

theorem run_orNull (he : e.eval root ls = .ok w) :
    Stmt.runAll around root (Stmt.orNull t e body) ls =
    if t.isPrimitive = false ∧ w.isNull = true then Writing.emit .null >>= fun _ => pure ls
    else Stmt.runAll around root body ls := by
  rw [Stmt.orNull]
  cases hp : t.isPrimitive with
  | true => simp
  | false =>
    simp only [Bool.false_eq_true, if_false, true_and]
    rw [Stmt.runAll_singleton, Stmt.run, he]
    cases hw : w.isNull with
    | true => simp only [ofExcept_ok_bind, hw, if_true]; rw [Stmt.runAll_singleton, Stmt.run]
    | false => simp only [ofExcept_ok_bind, hw, Bool.false_eq_true, if_false]

theorem faithful_scalar {form form' : ScalarForm} (he : e.eval root ls = .ok w)
    (hform : (Host.scalar w form).toOption = (Host.scalar w form').toOption) :
    Alike (fun ls' _ => Agree n ls ls') (Stmt.runAll around root [.writeScalar e form] ls)
      (Writing.emitOk (Host.scalar w form')) := by
  rw [Stmt.runAll_singleton, Stmt.run, he]
  exact (Alike.emitOk hform).keep .refl

theorem scalar_enumConstant :
    (Host.scalar w .enumConstant).toOption = (Host.scalar w .text).toOption := by
  cases w <;> rfl

theorem scalar_null (form : ScalarForm) : ∃ f, Host.scalar .null form = .error f := by
  cases form <;> exact ⟨_, rfl⟩

/-- A value that may be null is written like the generic writer when it is so but for null. -/
theorem faithful_orNull (he : e.eval root ls = .ok w)
    (h : w.isNull = false ∨ t.isPrimitive = true →
      Alike (fun ls' _ => Agree n ls ls') (Stmt.runAll around root body ls) (s.reflect w t a?)) :
    Alike (fun ls' _ => Agree n ls ls') (Stmt.runAll around root (Stmt.orNull t e body) ls)
      (s.reflect w t a?) := by
  rw [run_orNull he]
  split_ifs with hw
  · rw [reflect_null hw.2, hw.1]
    exact (Alike.emit .null).keep .refl
  · refine h ?_
    cases hp : t.isPrimitive <;> cases hn : w.isNull <;> simp_all

/-! ### The forms of a value -/

variable (s) in
/-- Whether statements write every value of a form that an expression yields like the generic writer,
and change no local below their own. -/
def Faithful (around : Surroundings) (root : Json) (a? : Option AnnotationSet) (v : Variant)
    (e : Expr) (t : TypeRef) (n : Nat) (body : List Stmt) : Prop :=
  ∀ w ls, s.formOf t = some v → e.eval root ls = .ok w → w.isNull = false ∨ v = .primitive →
    s.Calls around (Stmt.callees body) (w.size + 1) →
    Alike (fun ls' _ => Agree n ls ls') (Stmt.runAll around root body ls) (s.reflect w t a?)

theorem faithful_primitive {p : Primitive} : s.Faithful around root a? .primitive e (.prim p) n
    [.writeScalar e (TypeRef.prim p).scalarForm] := by
  intro w ls _ he _ _
  cases hn : w.isNull with
  | false =>
    rw [reflect_scalar hn (.inl rfl)]
    exact faithful_scalar he rfl
  | true =>
    cases w with
    | null =>
      obtain ⟨f, hf⟩ := scalar_null (TypeRef.prim p).scalarForm
      rw [reflect_null rfl, Stmt.runAll_singleton, Stmt.run, he]
      simp only [ofExcept_ok_bind, Writing.emitOk, hf]
      exact .fail _ _
    | _ => cases hn

theorem faithful_boxed : s.Faithful around root a? .boxed e t n [.writeScalar e t.boxedForm] := by
  intro w ls hf he hw _
  obtain ⟨hk, hform⟩ := kind_of_boxed (formOf_eq_some_iff.mp hf).2
  rw [reflect_scalar (hw.resolve_right (by decide)) (.inr hk), hform]
  exact faithful_scalar he rfl

/-- The generic writer asks for dates and optionals before enums. -/
theorem faithful_string (hs : s.EnumsApart) : s.Faithful around root a? .string e t n
    [.writeScalar e (if t.className?.any s.isEnum then .enumConstant else .text)] := by
  intro w ls hf he hw _
  have hn := hw.resolve_right (by decide)
  obtain ⟨name, rfl, hb, hname⟩ := class_of_string (formOf_eq_some_iff.mp hf).2
  by_cases hstr : name.text ∈ Platform.strings
  · rw [reflect_string hn (kind_plainClass hb (strings_apart _ hstr)) hstr]
    refine faithful_scalar he ?_
    split
    · exact scalar_enumConstant
    · rfl
  · have henum := hname.resolve_left hstr
    obtain ⟨hd, ho⟩ := hs name henum
    rw [reflect_enum hn (kind_plainClass hb ho) hstr hd henum]
    refine faithful_scalar he ?_
    rw [TypeRef.className?, Option.any_some, henum, if_pos rfl]

theorem faithful_date {f : DateFormat} (hformat : s.dateFormat a? = .ok f) :
    s.Faithful around root a? .date e t n [.writeDate e f] := by
  intro w ls hf he hw _
  have hn := hw.resolve_right (by decide)
  obtain ⟨name, rfl, hk, hstr, hd⟩ := class_of_date (formOf_eq_some_iff.mp hf).2
  rw [reflect_date hn hk hstr hd, hformat, Stmt.runAll_singleton, Stmt.run, he]
  exact (Alike.emitOk rfl).keep .refl

theorem faithful_object {name : ClassName} :
    s.Faithful around root a? .object e (.cls name) n [.callObject name e] := by
  intro w ls _ he hw hcall
  rw [Stmt.runAll_singleton, Stmt.run, he]
  refine (hcall name ?_ w (hw.resolve_right (by decide)) (Nat.lt_succ_self _) a?).keep .refl
  simp

section Parts

variable {u : TypeRef}

theorem faithful_optional (hs : s.EnumsApart) (hu : t.element? = some u) (hv : s.formOf u = some v)
    (ih : s.Faithful around root a? v (.var n) u (n + 1) body) :
    s.Faithful around root a? .optional e t n [.ifPresent e n body [.writeNull]] := by
  intro w ls hf he hw hcall
  have hn := hw.resolve_right (by decide)
  have hk := (kind_eq_optional_iff hs (formOf_eq_some_iff.mp hf).2).mpr rfl
  rw [reflect_optional hn hk hu, Stmt.runAll_singleton, Stmt.run, he, ofExcept_ok_bind]
  rcases hcon : Host.content w with f | _ | c
  · exact .fail f f
  · show Alike _ (Stmt.runAll around root [.writeNull] ls) (.emit .null)
    rw [Stmt.runAll_singleton]
    exact (Alike.emit .null).keep .refl
  · have hsize := Host.size_of_content hcon
    refine (ih c _ hv Expr.eval_var (.inl (isNull_eq_false_of_content hcon))
      (hcall.mono ?_ (by omega))).mono fun ls' _ h => ?_
    · simp
    · exact h.inner (Nat.le_refl n) (Nat.le_succ n)

/-- An element or the value of an entry, which may be null. -/
theorem faithful_item (hv : s.formOf u = some v)
    (ih : s.Faithful around root a? v (.var n) u (n + 1) body)
    (hcall : s.Calls around (Stmt.callees body) (w.size + 1)) :
    Alike (fun ls' _ => Agree (n + 1) ((n, .value w) :: ls) ls')
      (Stmt.runAll around root (Stmt.orNull u (.var n) body) ((n, .value w) :: ls))
      (s.reflect w u a?) := by
  refine faithful_orNull Expr.eval_var fun hw => ih w _ hv Expr.eval_var ?_ hcall
  exact hw.imp id fun hp => eq_primitive_of_isPrimitive (formOf_eq_some_iff.mp hv).2 hp

theorem faithful_collection (hu : t.element? = some u) (hv : s.formOf u = some v)
    (ih : s.Faithful around root a? v (.var n) u (n + 1) body) :
    s.Faithful around root a? .collection e t n
      [.beginArray, .forEachElement e n (Stmt.orNull u (.var n) body), .endArray] := by
  intro w ls hf he hw hcall
  have hn := hw.resolve_right (by decide)
  have hk := kind_of_collection (formOf_eq_some_iff.mp hf).2
  rw [reflect_collection hn hk hu, Stmt.runAll_emit rfl]
  refine (Alike.emit .startArray).bind fun _ _ _ => ?_
  rw [Stmt.runAll_cons, Stmt.run, he, ofExcept_ok_bind, Writing.bind_assoc]
  rcases hels : Host.elements w with f | items
  · exact .fail f f
  · rw [ofExcept_ok_bind, ofExcept_ok_bind]
    refine (Alike.each (P := Agree n ls) (fun ls₁ item hi hls => ?_) .refl).bind fun ls₂ _ h => ?_
    · have hsize := Host.size_of_elements hels hi
      refine (faithful_item hv ih (hcall.mono ?_ (by omega))).mono fun ls' _ h => ?_
      · simp
      · exact hls.trans (h.inner (Nat.le_refl n) (Nat.le_succ n))
    · rw [Stmt.runAll_singleton]
      exact (Alike.emit .endArray).keep h

theorem faithful_map (hu : t.value? = some u) (hv : s.formOf u = some v)
    (ih : s.Faithful around root a? v (.var (n + 1)) u (n + 2) body) :
    s.Faithful around root a? .map e t n
      [.beginObject,
        .forEachEntry e n (n + 1)
          (.writeDynamicKey (.var n) :: Stmt.orNull u (.var (n + 1)) body),
        .endObject] := by
  intro w ls _ he hw hcall
  have hn := hw.resolve_right (by decide)
  rw [reflect_map hn (kind_of_value? hu) hu, Stmt.runAll_emit rfl]
  refine (Alike.emit .startObject).bind fun _ _ _ => ?_
  rw [Stmt.runAll_cons, Stmt.run, he, ofExcept_ok_bind, Writing.bind_assoc]
  rcases hent : Host.entries w with f | members
  · exact .fail f f
  · rw [ofExcept_ok_bind, ofExcept_ok_bind]
    refine (Alike.each (P := Agree n ls) (fun ls₁ entry hi hls => ?_) .refl).bind
      fun ls₂ _ h => ?_
    · have hsize := Host.size_of_entries hent hi
      rw [Stmt.runAll_emit Stmt.run_entryKey]
      refine (Alike.emit (.key entry.1)).bind fun _ _ _ => ?_
      refine (faithful_item hv ih (hcall.mono ?_ (by omega))).mono fun ls' _ h => ?_
      · simp
      · have hvalue : Agree (n + 1) ((n, .key entry.1) :: ls₁) ls' :=
          h.inner (Nat.le_refl _) (Nat.le_succ _)
        exact hls.trans (hvalue.inner (Nat.le_refl n) (Nat.le_succ n))
    · rw [Stmt.runAll_singleton]
      exact (Alike.emit .endObject).keep h

end Parts

/-- **The code of a value writes it like the generic writer.** -/
theorem Code.faithful (hs : s.EnumsApart) (h : s.Code a? v e t n body m) (hf : s.formOf t = some v)
    (he : e.eval root ls = .ok w) (hw : w.isNull = false ∨ v = .primitive)
    (hcall : s.Calls around (Stmt.callees body) (w.size + 1)) :
    Alike (fun ls' _ => Agree n ls ls') (Stmt.runAll around root body ls) (s.reflect w t a?) := by
  have hall : s.Faithful around root a? v e t n body := by
    clear hf he hw hcall
    induction h with
    | primitive _ => exact faithful_primitive
    | boxed => exact faithful_boxed
    | string => exact faithful_string hs
    | date hformat => exact faithful_date hformat
    | optional hu hv _ ih => exact faithful_optional hs hu hv ih
    | collection hu hv _ ih => exact faithful_collection hu hv ih
    | map hu hv _ ih => exact faithful_map hu hv ih
    | object => exact faithful_object
    | unhandled => exact fun _ _ hf => absurd hf formOf_ne_unhandled
  exact hall w ls hf he hw hcall

/-! ## Properties -/

theorem isAbsent_optional (hw : w.isNull = false) (hk : t.kind = .optional) :
    isAbsent t w = (Host.content w).map (·.isNone) := by
  rw [isAbsent, if_neg (by simp [hw]), if_pos hk]

theorem isAbsent_present (hw : w.isNull = false) (hk : t.kind ≠ .optional) :
    isAbsent t w = .ok false := by
  rw [isAbsent, if_neg (by simp [hw]), if_neg hk]

theorem reflect_absent (h : isAbsent t w = .ok true) (hp : t.isPrimitive = false) :
    s.reflect w t a? = .emit .null := by
  cases hw : w.isNull with
  | true => rw [reflect_null hw, hp]; rfl
  | false =>
    by_cases hk : t.kind = .optional
    · rw [isAbsent_optional hw hk] at h
      rw [reflect.eq_def, if_neg (by simp [hw]), hk]
      rcases hcon : Host.content w with f | _ | c
      · rw [hcon] at h
        cases h
      · rfl
      · rw [hcon] at h
        cases h
    · rw [isAbsent_present hw hk] at h
      cases h

theorem reflect_unknown {f : Fault} (h : isAbsent t w = .error f) :
    s.reflect w t a? = .fail f := by
  cases hw : w.isNull with
  | true =>
    rw [isAbsent, if_pos hw] at h
    cases h
  | false =>
    by_cases hk : t.kind = .optional
    · rw [isAbsent_optional hw hk] at h
      rw [reflect.eq_def, if_neg (by simp [hw]), hk]
      rcases hcon : Host.content w with f | _ | c
      · rw [hcon] at h
        cases h
        rfl
      · rw [hcon] at h
        cases h
      · rw [hcon] at h
        cases h
    · rw [isAbsent_present hw hk] at h
      cases h

/-- The code of a value that may be null writes it like the generic writer. What is left to the
generic writer goes there without its annotations, which must not matter. -/
theorem NillableCode.faithful (hs : s.EnumsApart) (h : s.NillableCode a? e t n body m)
    (he : e.eval root ls = .ok w) (hg : around.generic = s.writeUnhandled)
    (ha : s.formOf t = none → s.isDeferrable t = true → s.dateFormat none = s.dateFormat a?)
    (hcall : s.Calls around (Stmt.callees body) (w.size + 1)) :
    Alike (fun ls' _ => Agree n ls ls') (Stmt.runAll around root body ls) (s.reflect w t a?) := by
  cases h with
  | handled hf hc =>
    rw [Stmt.callees_orNull] at hcall
    refine faithful_orNull he fun hw => hc.faithful hs hf he (hw.imp id fun hp => ?_) hcall
    exact eq_primitive_of_isPrimitive (formOf_eq_some_iff.mp hf).2 hp
  | unhandled hf hd =>
    rw [Stmt.runAll_singleton, Stmt.run, he, hg, ← reflect_congr (ha hf hd)]
    exact steady_reflect.keep .refl

theorem PresentCode.faithful {key : String} (hs : s.EnumsApart)
    (h : s.PresentCode a? key e t n body m) (he : e.eval root ls = .ok w) (hw : w.isNull = false)
    (hg : around.generic = s.writeUnhandled)
    (ha : s.formOf t = none → s.isDeferrable t = true → s.dateFormat none = s.dateFormat a?)
    (hcall : s.Calls around (Stmt.callees body) (w.size + 1)) :
    Alike (fun ls' _ => Agree n ls ls') (Stmt.runAll around root body ls) (do
      let absent ← Writing.ofExcept (isAbsent t w)
      if absent then pure ()
      else
        Writing.emit (.key key)
        s.reflect w t a?) := by
  cases h with
  | @optional u v n m content hf hu hv hc =>
    have hk := (kind_eq_optional_iff hs (formOf_eq_some_iff.mp hf).2).mpr rfl
    rw [Stmt.runAll_singleton, Stmt.run, he, ofExcept_ok_bind, isAbsent_optional hw hk,
      reflect_optional hw hk hu]
    rcases hcon : Host.content w with f | _ | c
    · exact .fail f f
    · exact .pure .refl
    · show Alike _ (Stmt.runAll around root (.writeKey key :: content) ((n, .value c) :: ls))
        (Writing.emit (.key key) >>= fun _ => s.reflect c u a?)
      rw [Stmt.runAll_emit rfl]
      refine (Alike.emit (.key key)).bind fun _ _ _ => ?_
      have hsize := Host.size_of_content hcon
      refine (hc.faithful hs hv Expr.eval_var (.inl (isNull_eq_false_of_content hcon))
        (hcall.mono ?_ (by omega))).mono fun ls' _ h => h.inner (Nat.le_refl n) (Nat.le_succ n)
      simp
  | @handled v n m content hf hv hc =>
    have hk := fun hk => hv ((kind_eq_optional_iff hs (formOf_eq_some_iff.mp hf).2).mp hk)
    rw [isAbsent_present hw hk, Stmt.runAll_emit rfl]
    refine (Alike.emit (.key key)).bind fun _ _ _ => ?_
    refine hc.faithful hs hf he (.inl hw) (hcall.mono ?_ (Nat.le_refl _))
    simp
  | unhandled hf hd =>
    rw [isAbsent_present hw (kind_ne_optional hs hf hd), Stmt.runAll_emit rfl]
    refine (Alike.emit (.key key)).bind fun _ _ _ => ?_
    rw [Stmt.runAll_singleton, Stmt.run, he, hg, ← reflect_congr (ha hf hd)]
    exact steady_reflect.keep .refl

theorem Code.run_error {f : Fault} (h : s.Code a? .primitive e t n body m)
    (he : e.eval root ls = .error f) : Stmt.runAll around root body ls = .fail f := by
  cases h
  rw [Stmt.runAll_singleton, Stmt.run, he]
  rfl

section Property

variable {p : Property} {x : Json}

theorem isAbsent_primitive (hv : s.variant? t = some .primitive) : ∃ b, isAbsent t w = .ok b := by
  rw [isAbsent, if_neg (c := t.kind = .optional) (by simp [kind_of_primitive hv])]
  split_ifs
  · exact ⟨true, rfl⟩
  · exact ⟨false, rfl⟩

theorem faithful_primitiveProperty (hs : s.EnumsApart) (hp : p.type.isPrimitive = true)
    (hf : s.formOf p.type = some v)
    (hc : s.Code (some p.annotations) v (p.accessor.read e) p.type n body m)
    (he : e.eval root ls = .ok x)
    (hcall : s.Calls around (Stmt.callees (.writeKey p.key :: body)) x.size) :
    Alike (fun ls' _ => Agree n ls ls') (Stmt.runAll around root (.writeKey p.key :: body) ls)
      (s.reflectProperty x p) := by
  have hread := Accessor.eval_read he p.accessor
  have hv := (formOf_eq_some_iff.mp hf).2
  cases eq_primitive_of_isPrimitive hv hp
  rw [reflectProperty, Stmt.runAll_emit rfl]
  rcases hprop : Host.property x p.accessor with f | w
  · rw [hc.run_error (hread.trans hprop)]
    exact .emit_fail _ f f
  · obtain ⟨b, hb⟩ := isAbsent_primitive (w := w) hv
    simp only [ofExcept_ok_bind, hb, hp, Bool.not_true, Bool.and_false, Bool.false_eq_true,
      if_false]
    have hsize := Host.size_of_property hprop
    refine (Alike.emit (.key p.key)).bind fun _ _ _ => ?_
    refine hc.faithful hs hf (hread.trans hprop) (.inr rfl) (hcall.mono ?_ (by omega))
    simp

/-- The key of a nillable property is written whether the property is absent or not. -/
theorem faithful_nillableProperty (hs : s.EnumsApart) (hp : p.type.isPrimitive = false)
    (hn : p.nillable = true)
    (hc : s.NillableCode (some p.annotations) (.var n) p.type (n + 1) body m)
    (he : e.eval root ls = .ok x) (hg : around.generic = s.writeUnhandled)
    (ha : s.formOf p.type = none → s.isDeferrable p.type = true →
      s.dateFormat none = s.dateFormat (some p.annotations))
    (hcall : s.Calls around
      (Stmt.callees (.bind n (p.accessor.read e) :: .writeKey p.key :: body)) x.size) :
    Alike (fun ls' _ => Agree n ls ls')
      (Stmt.runAll around root (.bind n (p.accessor.read e) :: .writeKey p.key :: body) ls)
      (s.reflectProperty x p) := by
  rw [reflectProperty, Stmt.runAll_cons, Stmt.run, Accessor.eval_read he]
  rcases hprop : Host.property x p.accessor with f | w
  · exact .fail f f
  · have hsize := Host.size_of_property hprop
    have hboth : Alike (fun ls' _ => Agree n ls ls')
        (Stmt.runAll around root (.writeKey p.key :: body) ((n, .value w) :: ls))
        (Writing.emit (.key p.key) >>= fun _ => s.reflect w p.type (some p.annotations)) := by
      rw [Stmt.runAll_emit rfl]
      refine (Alike.emit (.key p.key)).bind fun _ _ _ => ?_
      refine (hc.faithful hs Expr.eval_var hg ha (hcall.mono ?_ (by omega))).mono
        fun ls' _ h => h.inner (Nat.le_refl n) (Nat.le_succ n)
      simp
    rw [ofExcept_ok_bind, ofExcept_ok_bind, Writing.pure_bind]
    rcases hb : isAbsent p.type w with f | _ | _
    · rw [reflect_unknown hb] at hboth
      exact hboth.fail_of_emit f
    · exact hboth
    · rw [reflect_absent hb hp] at hboth
      simpa [hp, hn] using hboth

theorem faithful_presentProperty (hs : s.EnumsApart) (hp : p.type.isPrimitive = false)
    (hn : p.nillable = false)
    (hc : s.PresentCode (some p.annotations) p.key (.var n) p.type (n + 1) body m)
    (he : e.eval root ls = .ok x) (hg : around.generic = s.writeUnhandled)
    (ha : s.formOf p.type = none → s.isDeferrable p.type = true →
      s.dateFormat none = s.dateFormat (some p.annotations))
    (hcall : s.Calls around
      (Stmt.callees [.bind n (p.accessor.read e), .ifNotNull (.var n) body []]) x.size) :
    Alike (fun ls' _ => Agree n ls ls')
      (Stmt.runAll around root [.bind n (p.accessor.read e), .ifNotNull (.var n) body []] ls)
      (s.reflectProperty x p) := by
  rw [reflectProperty, Stmt.runAll_cons, Stmt.run, Accessor.eval_read he]
  rcases hprop : Host.property x p.accessor with f | w
  · exact .fail f f
  · have hsize := Host.size_of_property hprop
    rw [ofExcept_ok_bind, ofExcept_ok_bind, Writing.pure_bind, Stmt.runAll_singleton, Stmt.run,
      Expr.eval_var, ofExcept_ok_bind]
    cases hw : w.isNull with
    | true =>
      rw [isAbsent, if_pos hw, ofExcept_ok_bind]
      simp only [if_true, hp, hn, Bool.not_false, Bool.and_true, Bool.false_eq_true, if_false]
      exact .pure (Agree.inner .refl (Nat.le_refl n) (Nat.le_succ n))
    | false =>
      have heval : (Expr.var n).eval root ((n, .value w) :: ls) = .ok w := Expr.eval_var
      have hcall : s.Calls around (Stmt.callees body) (w.size + 1) := by
        refine hcall.mono ?_ (by omega)
        simp
      have hpresent := (hc.faithful hs heval hw hg ha hcall).mono fun ls' _ h =>
        (h.inner (Nat.le_refl n) (Nat.le_succ n) : Agree n ls ls')
      simpa [hp, hn] using hpresent

/-- **The code of a property writes it like the generic writer.** -/
theorem PropertyCode.faithful (hs : s.EnumsApart)
    (h : s.PropertyCode e p n body m) (he : e.eval root ls = .ok x)
    (hg : around.generic = s.writeUnhandled)
    (ha : s.formOf p.type = none → s.isDeferrable p.type = true →
      s.dateFormat none = s.dateFormat (some p.annotations))
    (hcall : s.Calls around (Stmt.callees body) x.size) :
    Alike (fun ls' _ => Agree n ls ls') (Stmt.runAll around root body ls)
      (s.reflectProperty x p) := by
  cases h with
  | primitive hp hf hc => exact faithful_primitiveProperty hs hp hf hc he hcall
  | nillable hp hn hc => exact faithful_nillableProperty hs hp hn hc he hg ha hcall
  | present hp hn hc => exact faithful_presentProperty hs hp hn hc he hg ha hcall

end Property

/-! ## Functions -/

theorem Code.le (h : s.Code a? v e t n body m) : n ≤ m := by
  induction h with
  | optional _ _ _ ih | collection _ _ _ ih => exact Nat.le_of_succ_le ih
  | map _ _ _ ih => exact Nat.le_of_add_right_le ih
  | _ => exact Nat.le_refl _

theorem NillableCode.le (h : s.NillableCode a? e t n body m) : n ≤ m := by
  cases h with
  | handled _ hc => exact hc.le
  | unhandled => exact Nat.le_refl n

theorem PresentCode.le {key : String} (h : s.PresentCode a? key e t n body m) : n ≤ m := by
  cases h with
  | optional _ _ _ hc => exact Nat.le_of_succ_le hc.le
  | handled _ _ hc => exact hc.le
  | unhandled => exact Nat.le_refl n

theorem PropertyCode.le {p : Property} (h : s.PropertyCode e p n body m) : n ≤ m := by
  cases h with
  | primitive _ _ hc => exact hc.le
  | nillable _ _ hc => exact Nat.le_of_succ_le hc.le
  | present _ _ hc => exact Nat.le_of_succ_le hc.le

/-- The code of some properties of a value, which is read through the locals below a number, writes
them like the generic writer. -/
theorem PropertiesCode.faithful {ps : List Property} {x : Json} {k : Nat} {ls₁ : Locals}
    (hs : s.EnumsApart) (h : s.PropertiesCode e ps n body m) (hk : k ≤ n)
    (he : ∀ ls', Agree k ls ls' → e.eval root ls' = .ok x)
    (hg : around.generic = s.writeUnhandled)
    (ha : ∀ p ∈ ps, s.formOf p.type = none → s.isDeferrable p.type = true →
      s.dateFormat none = s.dateFormat (some p.annotations))
    (hcall : s.Calls around (Stmt.callees body) x.size) (hls : Agree k ls ls₁) :
    Alike (fun ls' _ => Agree k ls ls') (Stmt.runAll around root body ls₁)
      (Writing.each ps fun p _ => s.reflectProperty x p) := by
  induction h generalizing ls₁ with
  | nil => exact .pure hls
  | cons hc _ ih =>
    rw [Stmt.callees_append] at hcall
    rw [Stmt.runAll_append, Writing.each]
    refine (hc.faithful hs (he _ hls) hg (ha _ List.mem_cons_self)
      (hcall.mono (List.subset_append_left _ _) (Nat.le_refl _))).bind fun ls₂ _ h₂ => ?_
    exact ih (Nat.le_trans hk hc.le) (fun p hp => ha p (List.mem_cons_of_mem _ hp))
      (hcall.mono (List.subset_append_right _ _) (Nat.le_refl _)) (hls.trans (h₂.anti hk))

theorem PropertiesCode.faithful_members {i : Inspection} {x : Json} (hs : s.EnumsApart)
    (h : s.PropertiesCode e (s.properties i) n body m)
    (he : ∀ ls', Agree n ls ls' → e.eval root ls' = .ok x)
    (hg : around.generic = s.writeUnhandled)
    (ha : ∀ p ∈ s.properties i, s.formOf p.type = none → s.isDeferrable p.type = true →
      s.dateFormat none = s.dateFormat (some p.annotations))
    (hcall : s.Calls around (Stmt.callees body) x.size) :
    Alike (fun _ _ => True)
      (Stmt.runAll around root (.beginObject :: body ++ [.endObject]) ls)
      (s.reflectMembers x i) := by
  rw [List.cons_append, Stmt.runAll_emit rfl, Stmt.runAll_append, reflectMembers]
  refine (Alike.emit .startObject).bind fun _ _ _ => ?_
  refine (h.faithful hs (Nat.le_refl n) he hg ha hcall .refl).bind fun ls' _ _ => ?_
  rw [Stmt.runAll_singleton]
  exact (Alike.emit .endObject).keep trivial

/-- Annotations without a date format give the same one as no annotations. -/
theorem dateFormat_of_get? {a : AnnotationSet} (h : a.get? .dateFormat = none) :
    s.dateFormat none = s.dateFormat (some a) := by
  show _ = a.dateFormat s.settings.dateFormat
  rw [AnnotationSet.dateFormat, h]
  rfl

theorem reflect_object {name : ClassName} {c : ClassInfo} {x : Json}
    (hf : s.formOf (.cls name) = some .object) (hx : x.isNull = false)
    (hc : s.index.class? name = some c) (hi : (s.index.inspect c).impossibility? = none) :
    s.reflect x (.cls name) a? = (do
      Writing.inspect name
      match (s.index.inspect c).concrete? with
      | none => s.reflectMembers x (s.index.inspect c)
      | some concrete =>
        discard (Writing.ofExcept (Host.cast x concrete))
        s.reflectMembers x (s.index.inspect c)) := by
  obtain ⟨hk, hstr, hd, he⟩ := class_of_object (formOf_eq_some_iff.mp hf).2
  refine reflect_instance hx hk hstr hd hc (fun hk => ?_) ?_
  · rw [isEnum, hc, Option.any_some, decide_eq_true hk] at he
    cases he
  · rw [Inspection.isPossible, hi]
    rfl

/-- **The function of a class writes an instance like the generic writer**, when the functions that
it runs do so for the parts of the instance. -/
theorem FunctionCode.faithful {f : ObjectFunction} {x : Json} (hs : s.EnumsApart)
    (h : s.FunctionCode n f m) (hf : s.formOf (.cls f.name) = some .object) (hx : x.isNull = false)
    (hg : around.generic = s.writeUnhandled)
    (ha : ∀ p, s.Defers (.cls f.name) p → p.annotations.get? .dateFormat = none)
    (hcall : s.Calls around (Stmt.callees f.body) x.size) :
    Alike (fun _ _ => True) (Stmt.runAll around x f.body []) (s.reflect x (.cls f.name) a?) := by
  have hformat : ∀ c, s.index.class? f.name = some c → ∀ p ∈ s.properties (s.index.inspect c),
      s.formOf p.type = none → s.isDeferrable p.type = true →
        s.dateFormat none = s.dateFormat (some p.annotations) :=
    fun c hc p hp hn hd => dateFormat_of_get? (ha p ((defers_iff hf hc).mpr ⟨hp, hd, hn⟩))
  cases h with
  | @own name c n m written hc hi hnone hw =>
    rw [reflect_object hf hx hc hi, hnone]
    refine .inspect_right name ?_
    refine hw.faithful_members hs (fun _ _ => rfl) hg (hformat c hc) (hcall.mono ?_ (Nat.le_refl _))
    simp
  | @narrowed name concrete c n m written hc hi hsome hw =>
    rw [reflect_object hf hx hc hi, hsome]
    refine .inspect_right name ?_
    rw [List.cons_append, List.cons_append, Stmt.runAll_cons, Stmt.run]
    have heval : (Expr.cast .root concrete).eval x [] = Host.cast x concrete := rfl
    rw [heval]
    show Alike _ _ (discard (Writing.ofExcept (Host.cast x concrete)) >>= fun _ =>
      s.reflectMembers x (s.index.inspect c))
    rcases hcast : Host.cast x concrete with e | y
    · exact .fail e e
    · rw [Host.cast_eq_ok hcast]
      have hlocal : ∀ ls', Agree (n + 1) [(n, .value x)] ls' → (Expr.var n).eval x ls' = .ok x := by
        intro ls' h
        rw [Expr.eval, h n (Nat.lt_succ_self n), List.lookup_cons_self]
      refine hw.faithful_members hs hlocal hg (hformat c hc) (hcall.mono ?_ (Nat.le_refl _))
      simp

/-! ## Programs -/

section Programs

variable {u : SerializerUnit}

theorem function?_of_mem {k : ClassName} (hk : k ∈ u.program.functions.map (·.name)) :
    ∃ f, u.program.function? k = some f ∧ f ∈ u.program.functions := by
  obtain ⟨f, hf⟩ : ∃ f, u.program.function? k = some f := by
    obtain ⟨f, hf, rfl⟩ := List.mem_map.mp hk
    rw [← Option.isSome_iff_exists, Program.function?, List.find?_isSome]
    exact ⟨f, hf, by simp⟩
  exact ⟨f, hf, List.mem_of_find?_eq_some hf⟩

/-- A unit with a function may nest its calls deeper than a value. -/
theorem callLimit_deep {k : ClassName} (hk : k ∈ u.program.functions.map (·.name)) (x : Json) :
    x.size + 1 ≤ u.callLimit x := by
  obtain ⟨f, hf, -⟩ := List.mem_map.mp hk
  have hpos := List.length_pos_of_mem hf
  have := Nat.le_mul_of_pos_left (x.size + 2) hpos
  rw [SerializerUnit.callLimit]
  omega

/-- The functions of a unit, called deep enough, write values like the generic writer. -/
theorem calls_callWithin (hs : s.EnumsApart) (hu : s.ProgramCode u.root u.program)
    (ha : ∀ f ∈ u.program.functions, ∀ p, s.Defers (.cls f.name) p →
      p.annotations.get? .dateFormat = none) (depth : Nat) :
    s.Calls ⟨s.callWithin u depth, s.writeUnhandled⟩ (u.program.functions.map (·.name)) depth := by
  induction depth with
  | zero => exact fun _ _ _ _ h => absurd h (Nat.not_lt_zero _)
  | succ depth ih =>
    intro k hk x hx hsize b?
    obtain ⟨f, hf, hmem⟩ := function?_of_mem hk
    have hname : f.name = k := by simpa using List.find?_some hf
    obtain ⟨n, m, hcode⟩ := hu.function hmem
    show Alike _ (s.callWithin u (depth + 1) k x) _
    rw [callWithin, hf, ← hname]
    simp only [discard_eq]
    refine (hcode.faithful hs (hu.needed f hmem).2 hx rfl (ha f hmem) ?_).keep trivial
    exact ih.mono (hu.closed f hmem) (Nat.le_of_lt_succ hsize)

/-- **A unit writes a value like the generic writer.** -/
theorem faithful_run (hs : s.EnumsApart) (hu : s.ProgramCode u.root u.program)
    (ha : ∀ f ∈ u.program.functions, ∀ p, s.Defers (.cls f.name) p →
      p.annotations.get? .dateFormat = none) {x : Json} (hx : x.isNull = false) :
    Alike (fun _ _ => True) (s.run u x) (s.reflect x u.root none) := by
  obtain ⟨v, n, m, hf, hc, -⟩ := hu.code
  rw [run, if_neg (by simp [hx]), discard_eq]
  refine (hc.faithful hs hf rfl (.inl hx) fun k hk => ?_).keep trivial
  exact (calls_callWithin hs hu ha _).mono hu.entry (callLimit_deep (hu.entry hk) x) k hk

end Programs

end Schema

end JsonBinding
