import JsonBinding.Proofs.Program.Faithful
import JsonBinding.Proofs.Reflection.Document

/-!
# What blocks write

* `Stmt.Makes`: a block that fills a slot with something of a kind, changes no local below its own,
  and stops at faults of a kind only.
* `makes_scalar`, `makes_date`, `makes_null`, `makes_orNull`, `makes_present`, `makes_key`,
  `makes_array`, `makes_object`: blocks by the statement that they begin with.
* **`makes_elements`**, **`makes_entries`**: loops, each round of which writes one part.
* `PropertyCode.makes_of_error`, `FunctionCode.makes`: properties that cannot be read, and functions
  by what the code of their properties writes.
-/

namespace JsonBinding.Stmt

open Writing
open Locals (Agree)

section Makes

variable {β : Type} (k : Slot β) (n : Nat) (R : β → Prop) (E : Fault → Prop)
  (around : Surroundings) (root : Json)

/-- Whether a block fills a slot with something of a kind, from some locals of which it keeps those
below a number, or stops at a fault of a kind. -/
def Makes (body : List Stmt) (ls : Locals) : Prop :=
  Writing.Fills k (fun ls' b => Agree n ls ls' ∧ R b) E (runAll around root body ls)

end Makes

variable {β : Type} {k : Slot β} {n : Nat} {R S : β → Prop} {E : Fault → Prop}
  {around : Surroundings} {root w : Json} {e : Expr} {body : List Stmt} {ls : Locals}

theorem Makes.mono (h : Makes k n R E around root body ls) (hR : ∀ b, R b → S b) :
    Makes k n S E around root body ls :=
  Writing.Fills.mono h (fun _ b h => ⟨h.1, hR b h.2⟩) fun _ h => h

/-- A block behind the binding of a local. -/
theorem Makes.inner {i m : Nat} {b : Bound} (h : Makes k m R E around root body ((i, b) :: ls))
    (hi : n ≤ i) (hm : n ≤ m) :
    Writing.Fills k (fun ls' c => Agree n ls ls' ∧ R c) E
      (runAll around root body ((i, b) :: ls)) :=
  Writing.Fills.mono h (fun _ _ h => ⟨h.1.inner hi hm, h.2⟩) fun _ h => h

theorem makes_bind {rest : List Stmt} {m : Nat} (he : e.eval root ls = .ok w)
    (h : Makes k m R E around root rest ((n, .value w) :: ls)) (hm : n ≤ m) :
    Makes k n R E around root (.bind n e :: rest) ls := by
  rw [Makes, runAll_cons, run, he]
  exact h.inner (Nat.le_refl n) hm

theorem makes_ifNotNull {yes no : List Stmt} (he : e.eval root ls = .ok w)
    (hyes : w.isNull = false → Makes k n R E around root yes ls)
    (hno : w.isNull = true → Makes k n R E around root no ls) :
    Makes k n R E around root [.ifNotNull e yes no] ls := by
  rw [Makes, runAll_singleton, run, he, ofExcept_ok_bind]
  cases hw : w.isNull with
  | true => exact hno hw
  | false => exact hyes hw

theorem makes_present {i : Nat} {yes no : List Stmt} (he : e.eval root ls = .ok w) (hi : n ≤ i)
    (hE : ∀ f, Host.content w = .error f → E f)
    (hyes : ∀ c, Host.content w = .ok (some c) →
      Makes k (i + 1) R E around root yes ((i, .value c) :: ls))
    (hno : Host.content w = .ok none → Makes k n R E around root no ls) :
    Makes k n R E around root [.ifPresent e i yes no] ls := by
  rw [Makes, runAll_singleton, run, he, ofExcept_ok_bind]
  refine .ofExcept hE fun c? hc => ?_
  cases c? with
  | none => exact hno hc
  | some c => exact (hyes c hc).inner hi (Nat.le_succ_of_le hi)

/-! ## Values -/

section Values

variable {R : Json → Prop}

theorem makes_emitOk {y : Except Fault Json.Event}
    (he : ∀ ev, y = .ok ev → ev.value.events = [ev]) (hE : ∀ f, y = .error f → E f)
    (hR : ∀ ev, y = .ok ev → R ev.value) :
    Writing.Fills .value (fun ls' b => Agree n ls ls' ∧ R b) E
      (Writing.emitOk y >>= fun _ => pure ls) := by
  cases y with
  | error f => exact .fail (hE f rfl)
  | ok ev =>
    exact (Writing.Fills.emit (R := fun _ => R) (he ev rfl) (hR ev rfl)).result
      fun _ _ h => ⟨.refl, h⟩

theorem makes_scalar {form : ScalarForm} (he : e.eval root ls = .ok w)
    (hE : ∀ f, Host.scalar w form = .error f → E f)
    (hR : ∀ ev, Host.scalar w form = .ok ev → R ev.value) :
    Makes .value n R E around root [.writeScalar e form] ls := by
  rw [Makes, runAll_singleton, run, he]
  exact makes_emitOk (fun _ => Schema.scalar_event) hE hR

theorem makes_date {format : DateFormat} (he : e.eval root ls = .ok w)
    (hE : ∀ f, Host.date w format = .error f → E f)
    (hR : ∀ ev, Host.date w format = .ok ev → R ev.value) :
    Makes .value n R E around root [.writeDate e format] ls := by
  rw [Makes, runAll_singleton, run, he]
  exact makes_emitOk (fun _ => Schema.date_event) hE hR

theorem makes_emit_null (h : R .null) :
    Writing.Fills .value (fun ls' b => Agree n ls ls' ∧ R b) E
      (Writing.emit .null >>= fun _ => pure ls) :=
  (Writing.Fills.emit (v := .null) (R := fun _ => R) rfl h).result fun _ _ h => ⟨.refl, h⟩

theorem makes_null (h : R .null) : Makes .value n R E around root [.writeNull] ls := by
  rw [Makes, runAll_singleton]
  exact makes_emit_null h

theorem makes_orNull {t : TypeRef} (he : e.eval root ls = .ok w)
    (hnull : t.isPrimitive = false → w.isNull = true → R .null)
    (h : w.isNull = false ∨ t.isPrimitive = true → Makes .value n R E around root body ls) :
    Makes .value n R E around root (orNull t e body) ls := by
  rw [Makes, Schema.run_orNull he]
  split_ifs with hw
  · exact makes_emit_null (hnull hw.1 hw.2)
  · refine h ?_
    cases hp : t.isPrimitive <;> cases hn : w.isNull <;> simp_all

theorem makes_unhandled {s : Schema} {t : TypeRef} (hg : around.generic = s.writeUnhandled)
    (he : e.eval root ls = .ok w) (hE : ∀ f, s.document w (some t) none = .error f → E f)
    (hR : ∀ j, s.document w (some t) none = .ok j → R j) :
    Makes .value n R E around root [.writeUnhandled e t] ls := by
  have h : Writes .value (s.reflect w t none) (s.document w (some t) none) :=
    Schema.writes_reflectAt w (some t) none
  rw [Makes, runAll_singleton, run, he, hg]
  exact (Writing.Fills.mono h (fun _ j => hR j) hE).result fun _ _ h => ⟨.refl, h⟩

end Values

/-! ## Containers -/

theorem makes_none {R : Members → Prop} (h : R []) : Makes .members n R E around root [] ls :=
  Writing.Fills.pure Slot.parts_members ⟨.refl, h⟩

section Containers

variable {R : Json → Prop}

theorem makes_key {key : String} (h : Makes .value n R E around root body ls) :
    Makes .members n (fun ms => ∃ j, R j ∧ ms = [(key, j)]) E around root
      (.writeKey key :: body) ls := by
  rw [Makes, runAll_emit rfl]
  refine Writing.Fills.mono (h.member key) ?_ fun _ h => h
  rintro _ _ ⟨j, ⟨hls, hj⟩, hms⟩
  exact ⟨hls, j, hj, hms⟩

theorem makes_enclosed {β : Type} {k : Slot (List β)} {Q : List β → Prop} {start last : Json.Event}
    {whole : List β → Json} (hk : k.Parts start last whole) {first final : Stmt}
    (hfirst : ∀ ls, run around root first ls = (Writing.emit start >>= fun _ => pure ls))
    (hfinal : ∀ ls, run around root final ls = (Writing.emit last >>= fun _ => pure ls))
    (h : Makes k n Q E around root body ls) (hR : ∀ b, Q b → R (whole b)) :
    Makes .value n R E around root (first :: (body ++ [final])) ls := by
  rw [Makes, runAll_emit (hfirst ls), runAll_append]
  have hlast : (fun ls => runAll around root [final] ls) =
      fun ls => Writing.emit last >>= fun _ => pure ls := by
    funext ls
    rw [runAll_singleton, hfinal]
  rw [hlast]
  exact Writing.Fills.enclose hk h fun _ b h => ⟨h.1, hR b h.2⟩

theorem makes_array {Q : List Json → Prop} (h : Makes .items n Q E around root body ls)
    (hR : ∀ js, Q js → R (.arr js)) :
    Makes .value n R E around root (.beginArray :: (body ++ [.endArray])) ls :=
  makes_enclosed Slot.parts_items (fun _ => rfl) (fun _ => rfl) h hR

theorem makes_object {Q : Members → Prop} (h : Makes .members n Q E around root body ls)
    (hR : ∀ ms, Q ms → R (.obj ms)) :
    Makes .value n R E around root (.beginObject :: (body ++ [.endObject])) ls :=
  makes_enclosed Slot.parts_members (fun _ => rfl) (fun _ => rfl) h hR

variable {Q : Json → Json → Prop}

/-- **A loop over elements writes one item for each.** -/
theorem makes_elements (he : e.eval root ls = .ok w)
    (hE : ∀ f, Host.elements w = .error f → E f)
    (h : ∀ items, Host.elements w = .ok items → ∀ item ∈ items, ∀ ls₁, Agree n ls ls₁ →
      Makes .value (n + 1) (Q item) E around root body ((n, .value item) :: ls₁)) :
    Makes .items n (fun js => ∃ items, Host.elements w = .ok items ∧ List.Forall₂ Q items js) E
      around root [.forEachElement e n body] ls := by
  rw [Makes, runAll_singleton, run, he, ofExcept_ok_bind]
  refine .ofExcept hE fun items hi => ?_
  refine Writing.Fills.mono (Writing.Fills.foldlM Slot.parts_items (P := Agree n ls) (Q := Q)
    (fun ls₁ item hitem hls => ?_) .refl) (fun _ _ h => ⟨h.1, items, hi, h.2⟩) fun _ h => h
  have hround := (h items hi item hitem ls₁ hls).inner (Nat.le_refl n) (Nat.le_succ n)
  refine Writing.Fills.mono hround.item ?_ fun _ h => h
  rintro _ _ ⟨j, ⟨hls', hj⟩, hjs⟩
  exact ⟨hls.trans hls', j, hj, hjs⟩

/-- **A loop over entries writes one member for each**, with its key. -/
theorem makes_entries (he : e.eval root ls = .ok w) (hE : ∀ f, Host.entries w = .error f → E f)
    (h : ∀ es, Host.entries w = .ok es → ∀ m ∈ es, ∀ ls₁, Agree n ls ls₁ →
      Makes .value (n + 2) (Q m.2) E around root body
        ((n + 1, .value m.2) :: (n, .key m.1) :: ls₁)) :
    Makes .members n
      (fun ms => ∃ es, Host.entries w = .ok es ∧
        List.Forall₂ (fun m m' => m'.1 = m.1 ∧ Q m.2 m'.2) es ms) E
      around root [.forEachEntry e n (n + 1) (.writeDynamicKey (.var n) :: body)] ls := by
  rw [Makes, runAll_singleton, run, he, ofExcept_ok_bind]
  refine .ofExcept hE fun es hes => ?_
  refine Writing.Fills.mono (Writing.Fills.foldlM Slot.parts_members (P := Agree n ls)
    (Q := fun m m' => m'.1 = m.1 ∧ Q m.2 m'.2) (fun ls₁ m hm hls => ?_) .refl)
    (fun _ _ h => ⟨h.1, es, hes, h.2⟩) fun _ h => h
  have hround := h es hes m hm ls₁ hls
  rw [runAll_emit run_entryKey]
  refine Writing.Fills.mono (Writing.Fills.member m.1 hround) ?_ fun _ h => h
  rintro ls' _ ⟨j, ⟨hls', hj⟩, hms⟩
  have hkey : Agree (n + 1) ((n, .key m.1) :: ls₁) ls' :=
    hls'.inner (Nat.le_refl _) (Nat.le_succ _)
  exact ⟨hls.trans (hkey.inner (Nat.le_refl n) (Nat.le_succ n)), (m.1, j), ⟨rfl, hj⟩, hms⟩

end Containers

end JsonBinding.Stmt

namespace JsonBinding.Schema

open Writing
open Locals (Agree)

attribute [local simp] List.filterMap_cons

variable {s : Schema} {around : Surroundings} {root x : Json} {ls : Locals} {e : Expr} {n m : Nat}
  {body : List Stmt} {E : Fault → Prop}

/-! ## Properties and functions -/

/-- The code of a property that cannot be read stops at the fault of reading it. -/
theorem PropertyCode.makes_of_error {p : Property} {R : Members → Prop} {f : Fault}
    (h : s.PropertyCode e p n body m) (he : e.eval root ls = .ok x)
    (hprop : Host.property x p.accessor = .error f) (hf : E f) :
    Stmt.Makes .members n R E around root body ls := by
  have hread := (Accessor.eval_read he p.accessor).trans hprop
  cases h with
  | @primitive v n m body hp hform hc =>
    cases eq_primitive_of_isPrimitive (formOf_eq_some_iff.mp hform).2 hp
    have hfail : Stmt.Makes .value n (fun _ => False) E around root body ls := by
      rw [Stmt.Makes, hc.run_error hread]
      exact .fail hf
    refine (Stmt.makes_key hfail).mono ?_
    rintro _ ⟨_, h, _⟩
    exact h.elim
  | nillable | present =>
    rw [Stmt.Makes, Stmt.runAll_cons, Stmt.run, hread]
    exact .fail hf

/-- The function of a class writes an object of the members that the code of its properties writes,
once the instance is narrowed if it has to be. -/
theorem FunctionCode.makes {f : ObjectFunction} {R : ClassInfo → Members → Prop}
    (h : s.FunctionCode n f m) (hE : ∀ k e, Host.cast x k = .error e → E e)
    (hmembers : ∀ c e k k' written ls, s.index.class? f.name = some c →
      s.PropertiesCode e (s.properties (s.index.inspect c)) k written k' →
      (∀ ls', Agree k ls ls' → e.eval x ls' = .ok x) →
      Stmt.callees written ⊆ Stmt.callees f.body →
      Stmt.Makes .members k (R c) E around x written ls) :
    Writing.Fills .value (fun _ j => ∃ c ms, s.index.class? f.name = some c ∧
      (∀ concrete, (s.index.inspect c).concrete? = some concrete → Host.cast x concrete = .ok x) ∧
      R c ms ∧ j = .obj ms) E (Stmt.runAll around x f.body []) := by
  cases h with
  | @own name c n m written hc hi hnone hw =>
    have hwritten := hmembers c _ _ _ _ [] hc hw (fun _ _ => rfl) (by simp)
    refine Writing.Fills.mono (Stmt.makes_object hwritten fun ms hms => ⟨c, ms, hc, ?_, hms, rfl⟩)
      (fun _ _ h => h.2) fun _ h => h
    rw [hnone]
    rintro _ ⟨⟩
  | @narrowed name concrete c n m written hc hi hsome hw =>
    rw [List.cons_append, List.cons_append, Stmt.runAll_cons, Stmt.run]
    have heval : (Expr.cast .root concrete).eval x [] = Host.cast x concrete := rfl
    rw [heval]
    cases hcast : Host.cast x concrete with
    | error e => exact .fail (hE concrete e hcast)
    | ok y =>
      rw [Host.cast_eq_ok hcast]
      have hlocal : ∀ ls', Agree (n + 1) [(n, .value x)] ls' → (Expr.var n).eval x ls' = .ok x := by
        intro ls' h
        rw [Expr.eval, h n (Nat.lt_succ_self n), List.lookup_cons_self]
      have hwritten := hmembers c _ _ _ _ _ hc hw hlocal (by simp)
      refine Writing.Fills.mono (Stmt.makes_object hwritten fun ms hms =>
        ⟨c, ms, hc, ?_, hms, rfl⟩) (fun _ _ h => h.2) fun _ h => h
      rw [hsome]
      rintro _ ⟨⟩
      rw [hcast, Host.cast_eq_ok hcast]

end JsonBinding.Schema
