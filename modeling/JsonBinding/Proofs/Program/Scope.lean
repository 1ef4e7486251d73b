import JsonBinding.Program.Run
import JsonBinding.Proofs.Program.Code
import JsonBinding.Proofs.Reflection.Document

/-!
# Scopes

A local may be used from where it is bound to the end of the block, or inside of the block that is
run for it, and a local that holds the key of an entry only as a key (`Stmt.inScope`). A run keeps
locals behind the blocks that bind them, so that it would not notice all that a compiler of the
source text refuses.

* `Expr.within`, `Stmt.inScope`, `Stmt.allInScope`: expressions and statements that keep to the
  scopes of their locals.
* `Fault.OfScope`: the faults of a missing local, key or function; `Writing.Keeps`: computations
  without one.
* `Locals.Hold`: locals that hold values and keys.
* **`keeps_runAll`**: a block in scope has no fault of scope; **`keeps_run`** for a unit.
-/

namespace JsonBinding

attribute [local simp] List.filterMap_cons

namespace Expr

/-- Whether the locals that an expression reads are among some. -/
def within (values : List Nat) : Expr → Bool
  | .root => true
  | .var n => decide (n ∈ values)
  | .getter target _ | .field target _ | .cast target _ => within values target

end Expr

namespace Stmt

/-- The locals that hold values behind a statement of a block. -/
def opens (values : List Nat) : Stmt → List Nat
  | .bind n _ => n :: values
  | _ => values

mutual

/-- Whether a statement keeps to the scopes of its locals, where some locals hold values and others
keys. A local is not bound again inside of its scope. -/
def inScope (values keys : List Nat) : Stmt → Bool
  | .beginObject | .endObject | .beginArray | .endArray | .writeKey _ | .writeNull => true
  | .writeDynamicKey e =>
    match e with
    | .var n => decide (n ∈ keys)
    | _ => false
  | .writeScalar e _ | .writeDate e _ | .callObject _ e | .writeUnhandled e _ => e.within values
  | .bind n e => e.within values && decide (n ∉ values ++ keys)
  | .ifNotNull e yes no =>
    e.within values && (allInScope values keys yes && allInScope values keys no)
  | .ifPresent e n yes no =>
    e.within values && decide (n ∉ values ++ keys) &&
      (allInScope (n :: values) keys yes && allInScope values keys no)
  | .forEachElement e n body =>
    e.within values && decide (n ∉ values ++ keys) && allInScope (n :: values) keys body
  | .forEachEntry e k n body =>
    e.within values && decide (k ∉ values ++ keys) && decide (n ∉ values ++ k :: keys) &&
      allInScope (n :: values) (k :: keys) body

/-- Whether the statements of a block keep to the scopes of their locals. -/
def allInScope (values keys : List Nat) : List Stmt → Bool
  | [] => true
  | st :: rest => inScope values keys st && allInScope (st.opens values) keys rest

end

end Stmt

/-! ## Faults of scope -/

/-- The faults that tell of a local that holds no value, of one that holds no key, of something else
for a key, and of a function that is not there. -/
inductive Fault.OfScope : Fault → Prop
  | unbound {var : String} : OfScope (.unbound var)
  | noKey {var : String} : OfScope (.noKey var)
  | key {v : Json} : OfScope (.shape "a key" v)
  | undefinedCall {unit name : String} : OfScope (.undefinedCall unit name)

theorem Fault.not_ofScope_shape {e : String} {v : Json} (h : e.toList ≠ "a key".toList) :
    ¬ (Fault.shape e v).OfScope := by
  intro hs
  cases hs
  exact h rfl

theorem Fault.FromHost.not_ofScope {f : Fault} (h : f.FromHost) : ¬ f.OfScope := by
  rcases h.cases with ⟨e, v, rfl, he | ⟨t, rfl⟩⟩ | ⟨_, _, rfl⟩ | ⟨_, rfl⟩ | ⟨_, _, rfl⟩ | ⟨_, rfl⟩
  · refine not_ofScope_shape fun h => ?_
    rw [String.toList_inj] at h
    exact absurd (h ▸ he) (by decide)
  · refine not_ofScope_shape ?_
    change ("a `" ++ t.text ++ "` value").toList ≠ _
    simp [String.toList_append]
  all_goals exact fun h => nomatch h

namespace Writing

variable {α β γ : Type} {P : α → Prop} {Q : β → Prop} {x : Writing α}

/-- Whether a computation has no fault of scope, and its result a property. -/
def Keeps (P : α → Prop) (x : Writing α) : Prop :=
  ∀ o : Output, match x o with
    | (.ok a, _) => P a
    | (.error f, _) => ¬ f.OfScope

namespace Keeps

theorem pure {a : α} (h : P a) : Keeps P (Pure.pure a) := fun _ => h

theorem fail {f : Fault} (h : ¬ f.OfScope) : Keeps P (.fail f) := fun _ => h

theorem mono {P' : α → Prop} (h : Keeps P x) (hP : ∀ a, P a → P' a) : Keeps P' x := by
  intro o
  have := h o
  rcases hx : x o with ⟨f | a, _⟩ <;> simp only [hx] at this ⊢
  · exact this
  · exact hP a this

theorem bind {f : α → Writing β} (hx : Keeps P x) (hf : ∀ a, P a → Keeps Q (f a)) :
    Keeps Q (x >>= f) := by
  intro o
  have := hx o
  rw [bind_apply]
  rcases hx : x o with ⟨e | a, o₁⟩ <;> simp only [hx] at this ⊢
  · exact this
  · exact hf a this o₁

theorem ofExcept {y : Except Fault γ} {g : γ → Writing α} (hE : ∀ f, y = .error f → ¬ f.OfScope)
    (hg : ∀ c, y = .ok c → Keeps P (g c)) : Keeps P (.ofExcept y >>= g) := by
  cases y with
  | error f => exact fail (hE f rfl)
  | ok c => exact hg c rfl

theorem emit (e : Json.Event) : Keeps (fun _ => True) (Writing.emit e) := by
  rintro ⟨w, names⟩
  rw [Writing.emit]
  rcases w.write e with ⟨_, _ | m⟩
  · trivial
  · rintro ⟨⟩

theorem emitAll (es : List Json.Event) : Keeps (fun _ => True) (Writing.emitAll es) := by
  rintro ⟨w, names⟩
  rw [Writing.emitAll]
  rcases w.writeAll es with ⟨_, _ | m⟩
  · trivial
  · rintro ⟨⟩

theorem emitOk {y : Except Fault Json.Event} (h : ∀ f, y = .error f → f.FromHost) :
    Keeps (fun _ => True) (Writing.emitOk y) :=
  ofExcept (fun f hf => (h f hf).not_ofScope) fun e _ => emit e

theorem each {xs : List γ} {g : (x : γ) → x ∈ xs → Writing Unit}
    (h : ∀ x hx, Keeps (fun _ => True) (g x hx)) : Keeps (fun _ => True) (Writing.each xs g) := by
  induction xs with
  | nil => exact pure trivial
  | cons x xs ih =>
    rw [Writing.each]
    exact (h x _).bind fun _ _ => ih fun y hy => h y _

theorem foldlM {step : α → γ → Writing α} {xs : List γ}
    (h : ∀ a x, x ∈ xs → P a → Keeps P (step a x)) {a : α} (ha : P a) :
    Keeps P (xs.foldlM step a) := by
  induction xs generalizing a with
  | nil => exact pure ha
  | cons x xs ih =>
    rw [List.foldlM_cons]
    exact (h a x List.mem_cons_self ha).bind fun b hb =>
      ih (fun c y hy => h c y (List.mem_cons_of_mem _ hy)) hb

end Keeps

end Writing

open Writing

/-! ## The generic writer -/

namespace Schema

variable {s : Schema} {v : Json} {a? : Option AnnotationSet} {n : ClassName}

theorem keeps_describeInstance : Keeps (fun _ => True) (s.describeInstance v n) := by
  intro o
  obtain ⟨names, h⟩ := describeInstance_apply (s := s) v n o
  rw [h]
  trivial

theorem keeps_reflectClass (ih : ∀ w : Json, w.size < v.size → ∀ u b?,
    Keeps (fun _ => True) (s.reflect w u b?)) :
    Keeps (fun _ => True) (s.reflectClass v n a?) := by
  have hproperty : ∀ p : Property, Keeps (fun _ => True) (s.reflectProperty v p) := by
    intro p
    rw [reflectProperty]
    refine .ofExcept (fun f hf => (Fault.FromHost.property hf).not_ofScope) fun w hw => ?_
    refine .ofExcept (fun f hf => (isAbsent_error hf).not_ofScope) fun absent _ => ?_
    split_ifs
    · exact (Keeps.emit _).bind fun _ _ => .emit _
    · exact .pure trivial
    · exact (Keeps.emit _).bind fun _ _ => ih w (Host.size_of_property hw) _ _
  have hmembers : ∀ i, Keeps (fun _ => True) (s.reflectMembers v i) := fun i =>
    (Keeps.emit _).bind fun _ _ => (Keeps.each fun p _ => hproperty p).bind fun _ _ => .emit _
  rw [reflectClass]
  split_ifs
  · exact .emitOk fun _ => .scalar
  · exact .ofExcept (fun f hf => (dateFormat_error hf).not_ofScope) fun _ _ =>
      .emitOk fun _ => .date
  · refine keeps_describeInstance.bind fun d? _ => ?_
    split
    · exact .emitAll _
    · exact .emitOk fun _ => .scalar
    · rename_i i
      split
      · rename_i concrete _
        cases hc : Host.cast v concrete with
        | error f => exact .fail (Fault.FromHost.cast hc).not_ofScope
        | ok _ => exact hmembers i
      · exact hmembers i

/-- The generic writer has no fault of scope. -/
theorem keeps_reflect (v : Json) (t : TypeRef) (a? : Option AnnotationSet) :
    Keeps (fun _ => True) (s.reflect v t a?) := by
  induction hn : v.size using Nat.strongRecOn generalizing v t a? with
  | ind k ih =>
    subst hn
    have hat : ∀ w : Json, w.size < v.size → ∀ t? b?,
        Keeps (fun _ => True) (s.reflectAt w t? b?) := by
      intro w hw t? b?
      cases t? with
      | none => exact .emitAll _
      | some u => exact ih w.size hw w u b? rfl
    cases hv : v.isNull with
    | true =>
      rw [reflect_null hv]
      split_ifs with ht
      · exact .fail (Fault.FromHost.null hv ht).not_ofScope
      · exact .emit _
    | false =>
      rw [reflect_eq hv]
      cases t.kind with
      | primitive | boxed => exact .emitOk fun _ => .scalar
      | optional =>
        refine .ofExcept (fun f hf => (Fault.FromHost.content hf).not_ofScope) fun c? hc => ?_
        cases c? with
        | none => exact .emit _
        | some c => exact hat c (Host.size_of_content hc) _ _
      | array | collection =>
        refine (Keeps.emit _).bind fun _ _ => ?_
        refine .ofExcept (fun f hf => (Fault.FromHost.elements hf).not_ofScope) fun items hi => ?_
        exact (Keeps.each fun j hj => hat j (Host.size_of_elements hi hj) _ _).bind
          fun _ _ => .emit _
      | map =>
        refine (Keeps.emit _).bind fun _ _ => ?_
        refine .ofExcept (fun f hf => (Fault.FromHost.entries hf).not_ofScope) fun members hi => ?_
        refine (Keeps.each fun m hm => ?_).bind fun _ _ => .emit _
        exact (Keeps.emit _).bind fun _ _ => hat m.2 (Host.size_of_entries hi hm) _ _
      | plainClass =>
        cases t with
        | cls n => exact keeps_reflectClass fun w hw u b? => ih w.size hw w u b? rfl
        | _ => exact .emitAll _
      | generic | unresolved => exact .emitAll _

end Schema

/-! ## Locals -/

/-- Whether some locals hold values and some others keys. -/
structure Locals.Hold (values keys : List Nat) (ls : Locals) : Prop where
  value : ∀ n ∈ values, ∃ v, ls.lookup n = some (.value v)
  key : ∀ n ∈ keys, ∃ k, ls.lookup n = some (.key k)

namespace Locals.Hold

variable {values keys : List Nat} {ls : Locals} {n : Nat}

theorem nil : Hold [] [] ls where
  value _ h := nomatch h
  key _ h := nomatch h

theorem new {b : Bound} (h : Hold values keys ls) (hn : n ∉ values ++ keys) :
    Hold values keys ((n, b) :: ls) := by
  rw [List.mem_append, not_or] at hn
  have hlookup : ∀ i, i ≠ n → List.lookup i ((n, b) :: ls) = ls.lookup i := by
    intro i hi
    rw [List.lookup_cons, beq_eq_false_iff_ne.mpr hi]
  constructor
  · intro i hi
    rw [hlookup i fun he => hn.1 (he ▸ hi)]
    exact h.value i hi
  · intro i hi
    rw [hlookup i fun he => hn.2 (he ▸ hi)]
    exact h.key i hi

theorem newValue {v : Json} (h : Hold values keys ls) (hn : n ∉ values ++ keys) :
    Hold (n :: values) keys ((n, .value v) :: ls) where
  value i hi := by
    rcases List.mem_cons.mp hi with rfl | hi
    · exact ⟨v, List.lookup_cons_self⟩
    · exact (h.new hn).value i hi
  key := (h.new hn).key

theorem newKey {name : String} (h : Hold values keys ls) (hn : n ∉ values ++ keys) :
    Hold values (n :: keys) ((n, .key name) :: ls) where
  value := (h.new hn).value
  key i hi := by
    rcases List.mem_cons.mp hi with rfl | hi
    · exact ⟨name, List.lookup_cons_self⟩
    · exact (h.new hn).key i hi

theorem ofValue (h : Hold (n :: values) keys ls) : Hold values keys ls where
  value i hi := h.value i (List.mem_cons_of_mem _ hi)
  key := h.key

theorem ofKey (h : Hold values (n :: keys) ls) : Hold values keys ls where
  value := h.value
  key i hi := h.key i (List.mem_cons_of_mem _ hi)

end Locals.Hold

open Locals (Hold)

theorem Expr.eval_error {values keys : List Nat} {ls : Locals} {root : Json} {e : Expr} {f : Fault}
    (he : e.within values = true) (hls : Hold values keys ls) (h : e.eval root ls = .error f) :
    f.FromHost := by
  induction e generalizing f with
  | root => cases h
  | var n =>
    obtain ⟨v, hv⟩ := hls.value n (of_decide_eq_true he)
    rw [eval, hv] at h
    cases h
  | getter target method ih =>
    rcases bind_eq_error.mp h with ht | ⟨w, -, hw⟩
    · exact ih he ht
    · exact .property (a := .getter method) hw
  | field target name ih =>
    rcases bind_eq_error.mp h with ht | ⟨w, -, hw⟩
    · exact ih he ht
    · exact .property (a := .field name) hw
  | cast target name ih =>
    rcases bind_eq_error.mp h with ht | ⟨w, -, hw⟩
    · exact ih he ht
    · exact .cast hw

/-! ## Runs -/

/-- Surroundings without a fault of scope, as far as the functions of some classes go. -/
structure Surroundings.Clear (around : Surroundings) (names : List ClassName) : Prop where
  call : ∀ k ∈ names, ∀ v, Keeps (fun _ => True) (around.call k v)
  generic : ∀ v t, Keeps (fun _ => True) (around.generic v t)

theorem Surroundings.Clear.mono {around : Surroundings} {names names' : List ClassName}
    (h : around.Clear names) (hn : names' ⊆ names) : around.Clear names' where
  call k hk := h.call k (hn hk)
  generic := h.generic

namespace Stmt

variable {around : Surroundings} {root : Json}

theorem keeps_eval {α : Type} {P : α → Prop} {values keys : List Nat} {ls : Locals} {e : Expr}
    {g : Json → Writing α} (he : e.within values = true) (hls : Hold values keys ls)
    (hg : ∀ v, Keeps P (g v)) : Keeps P (Writing.ofExcept (e.eval root ls) >>= g) :=
  .ofExcept (fun _ hf => (Expr.eval_error he hls hf).not_ofScope) fun v _ => hg v

mutual

/-- A statement in scope has no fault of scope, and the locals hold afterwards what they held. -/
theorem keeps_run {values keys : List Nat} {ls : Locals} (st : Stmt)
    (h : st.inScope values keys = true) (hls : Hold values keys ls)
    (ha : around.Clear ((all st).filterMap callee?)) :
    Keeps (Hold (st.opens values) keys) (run around root st ls) := by
  match st with
  | .beginObject | .endObject | .beginArray | .endArray | .writeKey _ | .writeNull =>
    exact (Keeps.emit _).bind fun _ _ => .pure hls
  | .writeDynamicKey e =>
    cases e with
    | var n =>
      obtain ⟨name, hn⟩ := hls.key n (of_decide_eq_true h)
      rw [run, Expr.evalKey, hn]
      exact (Keeps.emit _).bind fun _ _ => .pure hls
    | _ => cases h
  | .writeScalar e form =>
    exact keeps_eval h hls fun v => (Keeps.emitOk fun _ => .scalar).bind fun _ _ => .pure hls
  | .writeDate e format =>
    exact keeps_eval h hls fun v => (Keeps.emitOk fun _ => .date).bind fun _ _ => .pure hls
  | .bind n e =>
    rw [inScope, Bool.and_eq_true, decide_eq_true_eq] at h
    exact keeps_eval h.1 hls fun v => .pure (hls.newValue h.2)
  | .ifNotNull e yes no =>
    simp only [inScope, Bool.and_eq_true] at h
    rw [run]
    refine keeps_eval h.1 hls fun v => ?_
    split_ifs
    · exact keeps_runAll no h.2.2 hls (ha.mono (by simp))
    · exact keeps_runAll yes h.2.1 hls (ha.mono (by simp))
  | .ifPresent e n yes no =>
    simp only [inScope, Bool.and_eq_true, decide_eq_true_eq] at h
    obtain ⟨⟨he, hn⟩, hyes, hno⟩ := h
    rw [run]
    refine keeps_eval he hls fun v => ?_
    refine .ofExcept (fun f hf => (Fault.FromHost.content hf).not_ofScope) fun c? _ => ?_
    cases c? with
    | none => exact keeps_runAll no hno hls (ha.mono (by simp))
    | some c =>
      exact (keeps_runAll yes hyes (hls.newValue hn) (ha.mono (by simp))).mono
        fun _ h => h.ofValue
  | .forEachElement e n body =>
    simp only [inScope, Bool.and_eq_true, decide_eq_true_eq] at h
    obtain ⟨⟨he, hn⟩, hbody⟩ := h
    rw [run]
    refine keeps_eval he hls fun v => ?_
    refine .ofExcept (fun f hf => (Fault.FromHost.elements hf).not_ofScope) fun items _ => ?_
    refine .foldlM (fun ls₁ item _ hls₁ => ?_) hls
    exact (keeps_runAll body hbody (hls₁.newValue hn) (ha.mono (by simp))).mono
      fun _ h => h.ofValue
  | .forEachEntry e k n body =>
    simp only [inScope, Bool.and_eq_true, decide_eq_true_eq] at h
    obtain ⟨⟨⟨he, hk⟩, hn⟩, hbody⟩ := h
    rw [run]
    refine keeps_eval he hls fun v => ?_
    refine .ofExcept (fun f hf => (Fault.FromHost.entries hf).not_ofScope) fun members _ => ?_
    refine .foldlM (fun ls₁ m _ hls₁ => ?_) hls
    exact (keeps_runAll body hbody ((hls₁.newKey hk).newValue hn) (ha.mono (by simp))).mono
      fun _ h => h.ofValue.ofKey
  | .callObject name e =>
    exact keeps_eval h hls fun v => (ha.call name (by simp) v).bind fun _ _ => .pure hls
  | .writeUnhandled e t =>
    exact keeps_eval h hls fun v => (ha.generic v t).bind fun _ _ => .pure hls

/-- **A block in scope has no fault of scope**, whatever the host value is and whatever was written
before. -/
theorem keeps_runAll {values keys : List Nat} {ls : Locals} (body : List Stmt)
    (h : allInScope values keys body = true) (hls : Hold values keys ls)
    (ha : around.Clear (callees body)) :
    Keeps (Hold values keys) (runAll around root body ls) := by
  match body with
  | [] => exact .pure hls
  | st :: rest =>
    rw [allInScope, Bool.and_eq_true] at h
    rw [callees, gather_cons] at ha
    rw [runAll]
    refine (keeps_run st h.1 hls (ha.mono (List.subset_append_left _ _))).bind fun ls₁ h₁ => ?_
    have hrest := keeps_runAll rest h.2 h₁ (ha.mono (List.subset_append_right _ _))
    refine hrest.mono fun ls₂ h₂ => ?_
    cases st with
    | bind n e => exact Hold.ofValue h₂
    | _ => exact h₂

end

end Stmt

end JsonBinding
