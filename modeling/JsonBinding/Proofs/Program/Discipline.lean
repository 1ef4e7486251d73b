import JsonBinding.Proofs.Program.Blocks

/-!
# Programs keep to the writer

The code of a value writes one value and the code of a property nothing or one member, whatever the
host value is. A run stops only at a fault of the host value.

* `Stmt.Fills`: a block that fills a slot and changes no local below its own.
* `Schema.Serves`: functions that write one value each for small host values.
* **`Code.fills`**, **`PropertyCode.fills`**, **`FunctionCode.fills`**: the code of a value, of a
  property and of a class.
* **`fills_run`**: a run of a unit writes one value.
-/

namespace JsonBinding

open Writing
open Locals (Agree)

attribute [local simp] List.filterMap_cons

namespace Stmt

variable {β : Type} {k : Slot β} {around : Surroundings} {root w : Json} {ls : Locals} {e : Expr}
  {n : Nat} {body : List Stmt}

/-- Whether a block fills a slot, from some locals of which it keeps those below a number, or stops
at a fault of the host value. -/
def Fills (k : Slot β) (n : Nat) (around : Surroundings) (root : Json) (body : List Stmt)
    (ls : Locals) : Prop :=
  Writing.Fills k (fun ls' _ => Agree n ls ls') Fault.FromHost (runAll around root body ls)

theorem Makes.fills {R : β → Prop} (h : Makes k n R Fault.FromHost around root body ls) :
    Fills k n around root body ls := Writing.Fills.mono h (fun _ _ h => h.1) fun _ h => h

theorem Fills.makes (h : Fills k n around root body ls) :
    Makes k n (fun _ => True) Fault.FromHost around root body ls :=
  Writing.Fills.mono h (fun _ _ h => ⟨h, trivial⟩) fun _ h => h

theorem fills_scalar {form : ScalarForm} (he : e.eval root ls = .ok w) :
    Fills .value n around root [.writeScalar e form] ls :=
  (makes_scalar (R := fun _ => True) he (fun _ => .scalar) fun _ _ => trivial).fills

theorem fills_date {format : DateFormat} (he : e.eval root ls = .ok w) :
    Fills .value n around root [.writeDate e format] ls :=
  (makes_date (R := fun _ => True) he (fun _ => .date) fun _ _ => trivial).fills

theorem fills_null : Fills .value n around root [.writeNull] ls :=
  (makes_null (R := fun _ => True) trivial).fills

theorem fills_orNull {t : TypeRef} (he : e.eval root ls = .ok w)
    (h : Fills .value n around root body ls) : Fills .value n around root (orNull t e body) ls :=
  (makes_orNull he (fun _ _ => trivial) fun _ => h.makes).fills

theorem fills_none : Fills .members n around root [] ls :=
  (makes_none (R := fun _ => True) trivial).fills

theorem fills_key {key : String} (h : Fills .value n around root body ls) :
    Fills .members n around root (.writeKey key :: body) ls :=
  (makes_key h.makes).fills

end Stmt

namespace Schema

variable {s : Schema} {around : Surroundings} {root w x : Json} {ls : Locals} {e : Expr}
  {t : TypeRef} {a? : Option AnnotationSet} {v : Variant} {n m : Nat} {body : List Stmt}

/-- Whether the functions of some classes write one value each for host values below some size. -/
def Serves (around : Surroundings) (names : List ClassName) (size : Nat) : Prop :=
  ∀ k ∈ names, ∀ x : Json, x.size < size →
    Writing.Fills .value (fun _ _ => True) Fault.FromHost (around.call k x)

theorem Serves.mono {names names' : List ClassName} {k k' : Nat} (hn : names' ⊆ names)
    (hk : k' ≤ k) (h : Serves around names k) : Serves around names' k' :=
  fun name hname x hx => h name (hn hname) x (Nat.lt_of_lt_of_le hx hk)

theorem fills_unhandled (hg : around.generic = s.writeUnhandled) (he : e.eval root ls = .ok w) :
    Stmt.Fills .value n around root [.writeUnhandled e t] ls :=
  (Stmt.makes_unhandled (R := fun _ => True) hg he (fun _ => document_error)
    fun _ _ => trivial).fills

/-- **The code of a value writes one value.** -/
theorem Code.fills (h : s.Code a? v e t n body m) (he : e.eval root ls = .ok w)
    (hg : around.generic = s.writeUnhandled)
    (hcall : Serves around (Stmt.callees body) (w.size + 1)) :
    Stmt.Fills .value n around root body ls := by
  induction h generalizing ls w with
  | primitive | boxed | string => exact Stmt.fills_scalar he
  | date => exact Stmt.fills_date he
  | unhandled => exact fills_unhandled hg he
  | @optional e t u v n m body hu hv hc ih =>
    refine (Stmt.makes_present he (Nat.le_refl n) (fun _ => .content) (fun c hcon => ?_)
      fun _ => Stmt.fills_null.makes).fills
    have hsize := Host.size_of_content hcon
    exact (ih Expr.eval_var (hcall.mono (by simp) (by omega))).makes
  | @collection e t u v n m body hu hv hc ih =>
    refine (Stmt.makes_array (R := fun _ => True) (Stmt.makes_elements (Q := fun _ _ => True) he
      (fun _ => .elements) fun items hels item hi ls₁ _ => ?_) fun _ _ => trivial).fills
    have hsize := Host.size_of_elements hels hi
    exact (Stmt.fills_orNull Expr.eval_var
      (ih Expr.eval_var (hcall.mono (by simp) (by omega)))).makes
  | @map e t u v n m body hu hv hc ih =>
    refine (Stmt.makes_object (R := fun _ => True) (Stmt.makes_entries (Q := fun _ _ => True) he
      (fun _ => .entries) fun es hes entry hi ls₁ _ => ?_) fun _ _ => trivial).fills
    have hsize := Host.size_of_entries hes hi
    exact (Stmt.fills_orNull Expr.eval_var
      (ih Expr.eval_var (hcall.mono (by simp) (by omega)))).makes
  | @object e name n =>
    rw [Stmt.Fills, Stmt.runAll_singleton, Stmt.run, he]
    exact (hcall name (by simp) w (Nat.lt_succ_self _)).result fun _ _ _ => .refl

/-! ## Properties -/

theorem NillableCode.fills (h : s.NillableCode a? e t n body m) (he : e.eval root ls = .ok w)
    (hg : around.generic = s.writeUnhandled)
    (hcall : Serves around (Stmt.callees body) (w.size + 1)) :
    Stmt.Fills .value n around root body ls := by
  cases h with
  | handled hf hc =>
    rw [Stmt.callees_orNull] at hcall
    exact Stmt.fills_orNull he (hc.fills he hg hcall)
  | unhandled => exact fills_unhandled hg he

/-- The code of a present value writes one member, or none for an optional without content. -/
theorem PresentCode.fills {key : String} (h : s.PresentCode a? key e t n body m)
    (he : e.eval root ls = .ok w) (hg : around.generic = s.writeUnhandled)
    (hcall : Serves around (Stmt.callees body) (w.size + 1)) :
    Stmt.Fills .members n around root body ls := by
  cases h with
  | @optional u v n m content hf hu hv hc =>
    refine (Stmt.makes_present he (Nat.le_refl n) (fun _ => .content) (fun c hcon => ?_)
      fun _ => Stmt.fills_none.makes).fills
    have hsize := Host.size_of_content hcon
    exact (Stmt.fills_key (hc.fills Expr.eval_var hg (hcall.mono (by simp) (by omega)))).makes
  | handled hf hv hc => exact Stmt.fills_key (hc.fills he hg (hcall.mono (by simp) (Nat.le_refl _)))
  | unhandled => exact Stmt.fills_key (fills_unhandled hg he)

/-- **The code of a property writes one member or none.** -/
theorem PropertyCode.fills {p : Property} (h : s.PropertyCode e p n body m)
    (he : e.eval root ls = .ok x) (hg : around.generic = s.writeUnhandled)
    (hcall : Serves around (Stmt.callees body) x.size) :
    Stmt.Fills .members n around root body ls := by
  have hread := Accessor.eval_read he p.accessor
  cases hprop : Host.property x p.accessor with
  | error f =>
    exact (h.makes_of_error (R := fun _ => True) he hprop (.property hprop)).fills
  | ok w =>
    rw [hprop] at hread
    have hsize := Host.size_of_property hprop
    cases h with
    | primitive hp hf hc =>
      exact Stmt.fills_key (hc.fills hread hg (hcall.mono (by simp) (by omega)))
    | @nillable n m body hp hn hc =>
      have hvalue : Stmt.Fills .value (n + 1) around root body ((n, .value w) :: ls) :=
        hc.fills Expr.eval_var hg (hcall.mono (by simp) (by omega))
      exact (Stmt.makes_bind hread (Stmt.fills_key hvalue).makes (Nat.le_succ n)).fills
    | @present n m body hp hn hc =>
      have hmember : Stmt.Fills .members (n + 1) around root body ((n, .value w) :: ls) :=
        hc.fills Expr.eval_var hg (hcall.mono (by simp) (by omega))
      exact (Stmt.makes_bind hread (Stmt.makes_ifNotNull Expr.eval_var (fun _ => hmember.makes)
        fun _ => Stmt.fills_none.makes) (Nat.le_succ n)).fills

/-- The code of some properties of a value, which is read through the locals below a number, writes
members. -/
theorem PropertiesCode.fills {ps : List Property} {k : Nat} {ls₁ : Locals}
    (h : s.PropertiesCode e ps n body m) (hk : k ≤ n)
    (he : ∀ ls', Agree k ls ls' → e.eval root ls' = .ok x)
    (hg : around.generic = s.writeUnhandled)
    (hcall : Serves around (Stmt.callees body) x.size) (hls : Agree k ls ls₁) :
    Writing.Fills .members (fun ls' _ => Agree k ls ls') Fault.FromHost
      (Stmt.runAll around root body ls₁) := by
  induction h generalizing ls₁ with
  | nil => exact .pure Slot.parts_members hls
  | cons hc _ ih =>
    rw [Stmt.callees_append] at hcall
    rw [Stmt.runAll_append]
    refine (hc.fills (he _ hls) hg
      (hcall.mono (List.subset_append_left _ _) (Nat.le_refl _))).seq Slot.parts_members
      fun ls₂ _ h₂ => ?_
    exact ih (Nat.le_trans hk hc.le) (hcall.mono (List.subset_append_right _ _) (Nat.le_refl _))
      (hls.trans (h₂.anti hk))

/-! ## Functions -/

/-- **The function of a class writes one value**, when the functions that it runs do so for the
parts of the instance. -/
theorem FunctionCode.fills {f : ObjectFunction} (h : s.FunctionCode n f m)
    (hg : around.generic = s.writeUnhandled)
    (hcall : Serves around (Stmt.callees f.body) x.size) :
    Writing.Fills .value (fun _ _ => True) Fault.FromHost (Stmt.runAll around x f.body []) := by
  refine Writing.Fills.mono (h.makes (R := fun _ _ => True) (fun _ _ => .cast)
    fun c e k k' written ls _ hw he hsub => ?_) (fun _ _ _ => trivial) fun _ h => h
  have hmembers : Stmt.Fills .members k around x written ls :=
    hw.fills (Nat.le_refl k) he hg (hcall.mono hsub (Nat.le_refl _)) .refl
  exact hmembers.makes

variable {u : SerializerUnit}

/-- The functions of a unit, called deep enough, write one value each. -/
theorem serves_callWithin (hu : s.ProgramCode u.root u.program) (depth : Nat) :
    Serves ⟨s.callWithin u depth, s.writeUnhandled⟩ (u.program.functions.map (·.name)) depth := by
  induction depth with
  | zero => exact fun _ _ _ h => absurd h (Nat.not_lt_zero _)
  | succ depth ih =>
    intro k hk x hsize
    obtain ⟨f, hf, hmem⟩ := function?_of_mem hk
    obtain ⟨n, m, hcode⟩ := hu.function hmem
    show Writing.Fills .value _ _ (s.callWithin u (depth + 1) k x)
    rw [callWithin, hf]
    refine (hcode.fills (x := x) rfl ?_).result fun _ _ h => h
    exact ih.mono (hu.closed f hmem) (Nat.le_of_lt_succ hsize)

/-- **A run of a unit writes one value**, or stops at a fault of the host value. -/
theorem fills_run (hu : s.ProgramCode u.root u.program) (hx : x.isNull = false) :
    Writing.Fills .value (fun _ _ => True) Fault.FromHost (s.run u x) := by
  obtain ⟨v, n, m, -, hc, -⟩ := hu.code
  rw [run, if_neg (by simp [hx]), discard_eq]
  refine (hc.fills (w := x) rfl rfl fun k hk => ?_).result fun _ _ _ => trivial
  exact (serves_callWithin hu _).mono hu.entry (callLimit_deep (hu.entry hk) x) k hk

end Schema

end JsonBinding
