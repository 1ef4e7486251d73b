import JsonBinding.Proofs.Program.Executions
import JsonBinding.Proofs.Program.Numbering

/-!
# The values that functions are run on

A block runs functions on parts of the value that it writes, and the function of a class runs
functions on proper parts of the value that it is run on: a member, an element, an entry or the
content of an optional, each of them tested for null where a member that is missing would be read.

* `Json.Holds`, `Json.depth`: the immediate parts of a value, and how deep it goes;
  `depth_lt_of_holds`.
* `Stmt.lookup_runAll`: a block changes the locals only that it binds.
* `Stmt.runAll_congr`: a block depends on its calls only.
* **`Code.part_of_comes`**, **`FunctionCode.part_of_comes`**: the values that the code of a value
  and the function of a class run functions on.
-/

namespace JsonBinding

open Relation (ReflTransGen TransGen)
open Writing

/-! ## Parts of values -/

namespace Json

/-- The immediate parts of a value: its elements, or the values of its members. -/
inductive Holds : Json → Json → Prop
  | item {items : List Json} {v : Json} : v ∈ items → Holds (.arr items) v
  | member {members : Members} {m : String × Json} : m ∈ members → Holds (.obj members) m.2

mutual

/-- How many values lie in one another below a value. -/
def depth : Json → Nat
  | .arr items => depthItems items
  | .obj members => depthMembers members
  | .null | .bool _ | .num _ | .str _ => 0

/-- How many values lie in one another, one of some values outermost. -/
def depthItems : List Json → Nat
  | [] => 0
  | v :: rest => max (depth v + 1) (depthItems rest)

/-- How many values lie in one another, one of the values of some members outermost. -/
def depthMembers : Members → Nat
  | [] => 0
  | (_, v) :: rest => max (depth v + 1) (depthMembers rest)

end

variable {v w : Json}

theorem depth_lt_depthItems {items : List Json} (h : v ∈ items) : v.depth < depthItems items := by
  induction items with
  | nil => cases h
  | cons w rest ih =>
    rw [depthItems]
    rcases List.mem_cons.mp h with rfl | h
    · omega
    · have := ih h
      omega

theorem depth_lt_depthMembers {members : Members} {m : String × Json} (h : m ∈ members) :
    m.2.depth < depthMembers members := by
  induction members with
  | nil => cases h
  | cons w rest ih =>
    rw [depthMembers]
    rcases List.mem_cons.mp h with rfl | h
    · omega
    · have := ih h
      omega

theorem depth_lt_of_holds (h : Holds v w) : w.depth < v.depth := by
  cases h with
  | item h => exact depth_lt_depthItems h
  | member h => exact depth_lt_depthMembers h

theorem depth_lt_of_transGen (h : TransGen Holds v w) : w.depth < v.depth := by
  induction h with
  | single h => exact depth_lt_of_holds h
  | tail _ h ih => exact Nat.lt_trans (depth_lt_of_holds h) ih

theorem depth_le_of_reflTransGen (h : ReflTransGen Holds v w) : w.depth ≤ v.depth := by
  rcases Relation.reflTransGen_iff_eq_or_transGen.mp h with rfl | h
  · exact Nat.le_refl _
  · exact Nat.le_of_lt (depth_lt_of_transGen h)

mutual

theorem depth_le_size : ∀ v : Json, v.depth ≤ v.size
  | .arr items => depthItems_le items
  | .obj members => depthMembers_le members
  | .null | .bool _ | .num _ | .str _ => Nat.le_refl _

theorem depthItems_le : ∀ items : List Json, depthItems items ≤ sizeItems items + 1
  | [] => Nat.zero_le _
  | v :: rest => by
    have := depth_le_size v
    have := depthItems_le rest
    rw [depthItems, sizeItems]
    omega

theorem depthMembers_le : ∀ members : Members, depthMembers members ≤ sizeMembers members + 1
  | [] => Nat.zero_le _
  | (_, v) :: rest => by
    have := depth_le_size v
    have := depthMembers_le rest
    rw [depthMembers, sizeMembers]
    omega

end

end Json

namespace Host

variable {v w : Json}

theorem holds_of_property {a : Accessor} (h : property v a = .ok w) (hw : w.isNull = false) :
    Json.Holds v w := by
  have hmember : ∀ {expected name}, member expected v name = .ok w → Json.Holds v w := by
    intro expected name h
    cases v with
    | obj members =>
      simp only [member, Except.ok.injEq] at h
      cases hl : Json.lookup members name with
      | none =>
        rw [hl] at h
        cases h
        cases hw
      | some c =>
        rw [hl] at h
        cases h
        exact .member (m := (name, c)) (Json.mem_of_lookup hl)
    | _ => cases h
  cases a <;> exact hmember h

theorem holds_of_content (h : content v = .ok (some w)) : Json.Holds v w := by
  unfold content at h
  split at h
  · cases h
  · rename_i c _ hc
    cases h
    cases v with
    | obj members => exact .member (m := (optionalMarker, w)) (Json.mem_of_lookup hc)
    | _ => cases hc
  · cases h

theorem holds_of_elements {items : List Json} (h : elements v = .ok items) (hw : w ∈ items) :
    Json.Holds v w := by
  cases v with
  | arr => cases h; exact .item hw
  | _ => cases h

theorem holds_of_entries {members : Members} {m : String × Json} (h : entries v = .ok members)
    (hm : m ∈ members) : Json.Holds v m.2 := by
  cases v with
  | obj => cases h; exact .member hm
  | _ => cases h

end Host

/-! ## Blocks -/

namespace Stmt

section Runs

variable {around : Surroundings} {root : Json} {ls ls' : Locals} {o o' : Output} {i : Nat}

theorem run_emit_eq_ok {st : Stmt} {ev : Json.Event}
    (hst : run around root st ls = (Writing.emit ev >>= fun _ => pure ls))
    (h : run around root st ls o = (.ok ls', o')) : ls' = ls := by
  rw [hst] at h
  obtain ⟨_, _, -, h⟩ := bind_eq_ok.mp h
  cases h
  rfl

/-- What a computation gives that starts with something that may fail. -/
theorem ofExcept_bind_eq_ok {α β : Type} {x : Except Fault α} {f : α → Writing β} {b : β}
    (h : (Writing.ofExcept x >>= f) o = (.ok b, o')) : ∃ a, x = .ok a ∧ f a o = (.ok b, o') := by
  cases x with
  | error e => cases h
  | ok a => exact ⟨a, rfl, h⟩

theorem lookup_rounds {γ : Type} {step : Locals → γ → Writing Locals} {xs : List γ}
    (hstep : ∀ ls x o ls' o', step ls x o = (.ok ls', o') → ls'.lookup i = ls.lookup i)
    (h : xs.foldlM step ls o = (.ok ls', o')) : ls'.lookup i = ls.lookup i := by
  induction xs generalizing ls o with
  | nil =>
    cases h
    rfl
  | cons x rest ih =>
    obtain ⟨_, _, hx, h⟩ := bind_eq_ok.mp h
    exact (ih h).trans (hstep _ _ _ _ _ hx)

theorem lookup_cons_of_ne {n : Nat} {b : Bound} (h : i ≠ n) :
    List.lookup i ((n, b) :: ls) = ls.lookup i := by
  rw [List.lookup_cons, beq_eq_false_iff_ne.mpr h]

mutual

/-- A statement changes the locals only that it and those inside of it bind. -/
theorem lookup_run {ls ls' : Locals} {o o' : Output} (st : Stmt)
    (hi : i ∉ (all st).flatMap binds) (h : run around root st ls o = (.ok ls', o')) :
    ls'.lookup i = ls.lookup i := by
  match st with
  | .beginObject | .endObject | .beginArray | .endArray | .writeKey _ | .writeNull =>
    rw [run_emit_eq_ok rfl h]
  | .writeDynamicKey e | .writeScalar e _ | .writeDate e _ | .callObject _ e
  | .writeUnhandled e _ =>
    obtain ⟨_, -, h⟩ := ofExcept_bind_eq_ok h
    obtain ⟨_, _, -, h⟩ := bind_eq_ok.mp h
    cases h
    rfl
  | .bind n e =>
    obtain ⟨_, -, h⟩ := ofExcept_bind_eq_ok h
    cases h
    exact lookup_cons_of_ne (by simpa using hi)
  | .ifNotNull e yes no =>
    simp only [all, List.flatMap_cons, List.flatMap_append, flatMap_allOf, binds,
      List.nil_append, List.mem_append, not_or] at hi
    obtain ⟨v, -, h⟩ := ofExcept_bind_eq_ok h
    split_ifs at h
    · exact lookup_runAll no hi.2 h
    · exact lookup_runAll yes hi.1 h
  | .ifPresent e n yes no =>
    simp only [all, List.flatMap_cons, List.flatMap_append, flatMap_allOf, binds, List.mem_append,
      List.mem_singleton, not_or] at hi
    obtain ⟨v, -, h⟩ := ofExcept_bind_eq_ok h
    obtain ⟨c?, -, h⟩ := ofExcept_bind_eq_ok h
    cases c? with
    | none => exact lookup_runAll no hi.2.2 h
    | some c => exact (lookup_runAll yes hi.2.1 h).trans (lookup_cons_of_ne hi.1)
  | .forEachElement e n body =>
    simp only [all, List.flatMap_cons, flatMap_allOf, binds, List.mem_append, List.mem_singleton,
      not_or] at hi
    obtain ⟨v, -, h⟩ := ofExcept_bind_eq_ok h
    obtain ⟨items, -, h⟩ := ofExcept_bind_eq_ok h
    refine lookup_rounds (fun ls item o ls' o' h => ?_) h
    exact (lookup_runAll body hi.2 h).trans (lookup_cons_of_ne hi.1)
  | .forEachEntry e k n body =>
    simp only [all, List.flatMap_cons, flatMap_allOf, binds, List.mem_append, List.mem_cons,
      List.not_mem_nil, or_false, not_or] at hi
    obtain ⟨v, -, h⟩ := ofExcept_bind_eq_ok h
    obtain ⟨members, -, h⟩ := ofExcept_bind_eq_ok h
    refine lookup_rounds (fun ls m o ls' o' h => ?_) h
    exact (lookup_runAll body hi.2 h).trans
      ((lookup_cons_of_ne hi.1.2).trans (lookup_cons_of_ne hi.1.1))

theorem lookup_runAll {ls ls' : Locals} {o o' : Output} (body : List Stmt) (hi : i ∉ bound body)
    (h : runAll around root body ls o = (.ok ls', o')) : ls'.lookup i = ls.lookup i := by
  match body with
  | [] =>
    cases h
    rfl
  | st :: rest =>
    rw [bound_cons, List.mem_append, not_or] at hi
    obtain ⟨_, _, hst, h⟩ := bind_eq_ok.mp h
    exact (lookup_runAll rest hi.2 h).trans (lookup_run st hi.1 hst)

end

end Runs

/-! ## Blocks and their calls -/

section Calls

variable {around around' : Surroundings} {root : Json} {call : Call} {ls : Locals} {o : Output}
  {xs ys : List Stmt}

theorem not_comes_nil : ¬ Comes around root call [] ls o := fun h => nomatch h

/-- A block comes to the calls only that it or a statement inside of it makes. -/
theorem Comes.mem_callees (h : Comes around root call xs ls o) : call.name ∈ callees xs := by
  induction h with
  | call => exact List.mem_cons_self
  | notNull _ _ _ ih | null _ _ _ ih | present _ _ _ ih | empty _ _ _ ih | element _ _ _ _ ih
  | entry _ _ _ _ ih => exact gather_subset _ (fun st hst => by simp [hst]) ih
  | later _ _ ih => exact gather_subset _ (List.subset_append_right _ _) ih

/-- A block of two comes to what the first one comes to, and to what the second one comes to behind
it. -/
theorem Comes.append (h : Comes around root call (xs ++ ys) ls o) : Comes around root call xs ls o ∨
    ∃ ls' o', runAll around root xs ls o = (.ok ls', o') ∧ Comes around root call ys ls' o' := by
  induction xs generalizing ls o with
  | nil => exact .inr ⟨ls, o, rfl, h⟩
  | cons st rest ih =>
    cases h with
    | call he => exact .inl (.call he)
    | notNull he hv h => exact .inl (.notNull he hv h)
    | null he hv h => exact .inl (.null he hv h)
    | present he hc h => exact .inl (.present he hc h)
    | empty he hc h => exact .inl (.empty he hc h)
    | element he hi hd h => exact .inl (.element he hi hd h)
    | entry he hi hd h => exact .inl (.entry he hi hd h)
    | later hst h =>
      rcases ih h with h | ⟨ls', o', hrun, h⟩
      · exact .inl (.later hst h)
      · exact .inr ⟨ls', o', bind_eq_ok.mpr ⟨_, _, hst, hrun⟩, h⟩

theorem Comes.head {st : Stmt} (h : Comes around root call [st] ls o) :
    Comes around root call (st :: ys) ls o := by
  cases h with
  | call he => exact .call he
  | notNull he hv h => exact .notNull he hv h
  | null he hv h => exact .null he hv h
  | present he hc h => exact .present he hc h
  | empty he hc h => exact .empty he hc h
  | element he hi hd h => exact .element he hi hd h
  | entry he hi hd h => exact .entry he hi hd h
  | later _ h => exact absurd h not_comes_nil

theorem rounds_congr {α γ : Type} {step step' : α → γ → Writing α} {xs : List γ} {a : α}
    (h : ∀ done x left b p, xs = done ++ x :: left → done.foldlM step a o = (.ok b, p) →
      step b x p = step' b x p) : xs.foldlM step a o = xs.foldlM step' a o := by
  induction xs generalizing a o with
  | nil => rfl
  | cons x rest ih =>
    rw [List.foldlM_cons, List.foldlM_cons, bind_apply, bind_apply, ← h [] x rest a o rfl rfl]
    rcases hx : step a x o with ⟨e | b, p⟩
    · rfl
    · refine ih fun done y left c q hsplit hdone => ?_
      refine h (x :: done) y left c q (by rw [hsplit, List.cons_append]) ?_
      exact bind_eq_ok.mpr ⟨b, p, hx, hdone⟩

mutual

/-- A statement depends on its calls only. -/
theorem run_congr {ls : Locals} {o : Output} (hg : around.generic = around'.generic) (st : Stmt)
    (h : ∀ call, Comes around root call [st] ls o →
      around.call call.name call.value call.before =
        around'.call call.name call.value call.before) :
    run around root st ls o = run around' root st ls o := by
  match st with
  | .beginObject | .endObject | .beginArray | .endArray | .writeKey _ | .writeNull
  | .writeDynamicKey _ | .writeScalar _ _ | .writeDate _ _ | .bind _ _ => rfl
  | .callObject name e =>
    rw [run, run]
    cases he : e.eval root ls with
    | error f => rfl
    | ok v =>
      rw [ofExcept_ok_bind, ofExcept_ok_bind, bind_apply, bind_apply,
        h ⟨name, v, o⟩ (@Comes.call _ _ ⟨name, v, o⟩ _ _ _ he)]
  | .writeUnhandled e t => rw [run, run, hg]
  | .ifNotNull e yes no =>
    rw [run, run]
    cases he : e.eval root ls with
    | error f => rfl
    | ok v =>
      rw [ofExcept_ok_bind, ofExcept_ok_bind]
      split_ifs with hv
      · exact runAll_congr hg no fun call hc => h call (.null he hv hc)
      · exact runAll_congr hg yes fun call hc => h call (.notNull he (Bool.not_eq_true _ ▸ hv) hc)
  | .ifPresent e n yes no =>
    rw [run, run]
    cases he : e.eval root ls with
    | error f => rfl
    | ok v =>
      rw [ofExcept_ok_bind, ofExcept_ok_bind]
      cases hcontent : Host.content v with
      | error f => rfl
      | ok c? =>
        rw [ofExcept_ok_bind, ofExcept_ok_bind]
        cases c? with
        | none => exact runAll_congr hg no fun call hc => h call (.empty he hcontent hc)
        | some c => exact runAll_congr hg yes fun call hc => h call (.present he hcontent hc)
  | .forEachElement e n body =>
    rw [run, run]
    cases he : e.eval root ls with
    | error f => rfl
    | ok v =>
      rw [ofExcept_ok_bind, ofExcept_ok_bind]
      cases hitems : Host.elements v with
      | error f => rfl
      | ok items =>
        rw [ofExcept_ok_bind, ofExcept_ok_bind]
        refine rounds_congr fun done item left ls' o' hsplit hdone => ?_
        exact runAll_congr hg body fun call hc => h call (.element he (hsplit ▸ hitems) hdone hc)
  | .forEachEntry e k n body =>
    rw [run, run]
    cases he : e.eval root ls with
    | error f => rfl
    | ok v =>
      rw [ofExcept_ok_bind, ofExcept_ok_bind]
      cases hmembers : Host.entries v with
      | error f => rfl
      | ok members =>
        rw [ofExcept_ok_bind, ofExcept_ok_bind]
        refine rounds_congr fun done m left ls' o' hsplit hdone => ?_
        exact runAll_congr hg body fun call hc => h call (.entry he (hsplit ▸ hmembers) hdone hc)

/-- **A block depends on its calls only.** -/
theorem runAll_congr {ls : Locals} {o : Output} (hg : around.generic = around'.generic)
    (body : List Stmt) (h : ∀ call, Comes around root call body ls o →
      around.call call.name call.value call.before =
        around'.call call.name call.value call.before) :
    runAll around root body ls o = runAll around' root body ls o := by
  match body with
  | [] => rfl
  | st :: rest =>
    rw [runAll_cons, runAll_cons, bind_apply, bind_apply,
      ← run_congr hg st fun call hc => h call hc.head]
    rcases hst : run around root st ls o with ⟨e | ls', o'⟩
    · rfl
    · exact runAll_congr hg rest fun call hc => h call (.later hst hc)

end

theorem not_comes_null : ¬ Comes around root call [.writeNull] ls o := fun h => by
  cases h with
  | later _ h => exact not_comes_nil h

/-- A block for a value that may be null comes to a call for a value only that is not. -/
theorem Comes.of_orNull {t : TypeRef} {e : Expr} {w : Json} (he : e.eval root ls = .ok w)
    (h : Comes around root call (orNull t e xs) ls o) :
    Comes around root call xs ls o ∧ (t.isPrimitive = true ∨ w.isNull = false) := by
  rw [orNull] at h
  split_ifs at h with ht
  · exact ⟨h, .inl ht⟩
  · cases h with
    | notNull he' hv h =>
      cases he.symm.trans he'
      exact ⟨h, .inr hv⟩
    | null _ _ h => exact absurd h not_comes_null
    | later _ h => exact absurd h not_comes_nil

end Calls

end Stmt

/-! ## Code -/

namespace Schema

open Stmt (Comes not_comes_nil not_comes_null run_emit_eq_ok)

variable {s : Schema} {around : Surroundings} {root w x : Json} {call : Call} {ls : Locals}
  {o : Output} {e : Expr} {t : TypeRef} {a? : Option AnnotationSet} {v : Variant} {n m : Nat}
  {body : List Stmt}

/-- **The code of a value runs functions on its parts**, or on the value itself. -/
theorem Code.part_of_comes (h : s.Code a? v e t n body m) (he : e.eval root ls = .ok w)
    (hc : Comes around root call body ls o) : ReflTransGen Json.Holds w call.value := by
  induction h generalizing ls w o with
  | primitive | boxed | string | date | unhandled =>
    cases hc with
    | later _ hc => exact absurd hc not_comes_nil
  | optional _ _ _ ih =>
    cases hc with
    | present he' hcontent hc =>
      cases he.symm.trans he'
      exact .head (Host.holds_of_content hcontent) (ih Expr.eval_var hc)
    | empty _ _ hc => exact absurd hc not_comes_null
    | later _ hc => exact absurd hc not_comes_nil
  | collection _ _ _ ih =>
    cases hc with
    | later hstart hc =>
      obtain rfl := run_emit_eq_ok rfl hstart
      cases hc with
      | element he' hitems _ hc =>
        cases he.symm.trans he'
        refine .head (Host.holds_of_elements hitems List.mem_append_cons_self) ?_
        exact ih Expr.eval_var (hc.of_orNull Expr.eval_var).1
      | later _ hc =>
        cases hc with
        | later _ hc => exact absurd hc not_comes_nil
  | map _ _ _ ih =>
    cases hc with
    | later hstart hc =>
      obtain rfl := run_emit_eq_ok rfl hstart
      cases hc with
      | entry he' hentries _ hc =>
        cases he.symm.trans he'
        refine .head (Host.holds_of_entries hentries List.mem_append_cons_self) ?_
        cases hc with
        | later hkey hc =>
          obtain rfl := run_emit_eq_ok Stmt.run_entryKey hkey
          exact ih Expr.eval_var (hc.of_orNull Expr.eval_var).1
      | later _ hc =>
        cases hc with
        | later _ hc => exact absurd hc not_comes_nil
  | object =>
    cases hc with
    | call he' =>
      cases he.symm.trans he'
      exact .refl
    | later _ hc => exact absurd hc not_comes_nil

theorem NillableCode.part_of_comes (h : s.NillableCode a? e t n body m)
    (ht : t.isPrimitive = false) (he : e.eval root ls = .ok w)
    (hc : Comes around root call body ls o) :
    w.isNull = false ∧ ReflTransGen Json.Holds w call.value := by
  cases h with
  | handled _ hcode =>
    obtain ⟨hc, hnull⟩ := hc.of_orNull he
    exact ⟨hnull.resolve_left (by simp [ht]), hcode.part_of_comes he hc⟩
  | unhandled =>
    cases hc with
    | later _ hc => exact absurd hc not_comes_nil

theorem PresentCode.part_of_comes {key : String} (h : s.PresentCode a? key e t n body m)
    (he : e.eval root ls = .ok w) (hc : Comes around root call body ls o) :
    ReflTransGen Json.Holds w call.value := by
  cases h with
  | optional _ _ _ hcode =>
    cases hc with
    | present he' hcontent hc =>
      cases he.symm.trans he'
      cases hc with
      | later hkey hc =>
        obtain rfl := run_emit_eq_ok rfl hkey
        exact .head (Host.holds_of_content hcontent) (hcode.part_of_comes Expr.eval_var hc)
    | empty _ _ hc => exact absurd hc not_comes_nil
    | later _ hc => exact absurd hc not_comes_nil
  | handled _ _ hcode =>
    cases hc with
    | later hkey hc =>
      obtain rfl := run_emit_eq_ok rfl hkey
      exact hcode.part_of_comes he hc
  | unhandled =>
    cases hc with
    | later _ hc =>
      cases hc with
      | later _ hc => exact absurd hc not_comes_nil

theorem comes_of_bind {k : Nat} {rest : List Stmt}
    (h : Comes around root call (.bind k e :: rest) ls o) :
    ∃ w o', e.eval root ls = .ok w ∧ Comes around root call rest ((k, .value w) :: ls) o' := by
  cases h with
  | later hbind h =>
    obtain ⟨w, he, hbind⟩ := Stmt.ofExcept_bind_eq_ok hbind
    cases hbind
    exact ⟨w, _, he, h⟩

/-- The code of a property runs functions on proper parts of its owner: on the value of the
property, which is not null then, and on parts of that. -/
theorem PropertyCode.part_of_comes {p : Property} (h : s.PropertyCode e p n body m)
    (he : e.eval root ls = .ok x) (hc : Comes around root call body ls o) :
    TransGen Json.Holds x call.value := by
  cases h with
  | primitive ht hf hcode =>
    cases eq_primitive_of_isPrimitive (formOf_eq_some_iff.mp hf).2 ht
    generalize p.type = t at hcode
    cases hcode with
    | primitive =>
      cases hc with
      | later _ hc =>
        cases hc with
        | later _ hc => exact absurd hc not_comes_nil
  | nillable ht _ hcode =>
    obtain ⟨w, o', hw, hc⟩ := comes_of_bind hc
    rw [p.accessor.eval_read he] at hw
    cases hc with
    | later hkey hc =>
      obtain rfl := run_emit_eq_ok rfl hkey
      obtain ⟨hnull, hpart⟩ := hcode.part_of_comes ht Expr.eval_var hc
      exact .head' (Host.holds_of_property hw hnull) hpart
  | present _ _ hcode =>
    obtain ⟨w, o', hw, hc⟩ := comes_of_bind hc
    rw [p.accessor.eval_read he] at hw
    cases hc with
    | notNull he' hnull hc =>
      cases Expr.eval_var.symm.trans he'
      exact .head' (Host.holds_of_property hw hnull) (hcode.part_of_comes Expr.eval_var hc)
    | null _ _ hc => exact absurd hc not_comes_nil
    | later _ hc => exact absurd hc not_comes_nil

theorem PropertyCode.agree {p : Property} (h : s.PropertyCode e p n body m) {ls' : Locals}
    {o' : Output} (hrun : Stmt.runAll around root body ls o = (.ok ls', o')) :
    Locals.Agree n ls ls' := by
  intro i hi
  refine Stmt.lookup_runAll body ?_ hrun
  rw [h.bound_eq, List.mem_range'_1]
  omega

/-- The value of an owner is read from the value that a function is run on, or from a local below
those of its properties. -/
def OwnerAt (root : Json) (e : Expr) (n : Nat) (ls : Locals) (x : Json) : Prop :=
  e.eval root ls = .ok x ∧ (e = .root ∨ ∃ k < n, e = .var k)

theorem OwnerAt.agree (h : OwnerAt root e n ls x) {ls' : Locals} (ha : Locals.Agree n ls ls')
    (hn : n ≤ m) : OwnerAt root e m ls' x := by
  obtain ⟨he, rfl | ⟨k, hk, rfl⟩⟩ := h
  · exact ⟨he, .inl rfl⟩
  · refine ⟨?_, .inr ⟨k, by omega, rfl⟩⟩
    rw [Expr.eval, ha k hk]
    exact he

theorem PropertiesCode.part_of_comes {ps : List Property} (h : s.PropertiesCode e ps n body m)
    (he : OwnerAt root e n ls x) (hc : Comes around root call body ls o) :
    TransGen Json.Holds x call.value := by
  induction h generalizing ls o with
  | nil => exact absurd hc not_comes_nil
  | cons hcode _ ih =>
    rcases hc.append with hc | ⟨ls', o', hrun, hc⟩
    · exact hcode.part_of_comes he.1 hc
    -- the property before has bound locals, but not the one that the owner is read from
    · exact ih (he.agree (hcode.agree hrun) hcode.le) hc

/-- **The function of a class runs functions on proper parts** of the value that it is run on. -/
theorem FunctionCode.part_of_comes {f : ObjectFunction} (h : s.FunctionCode n f m)
    (hc : Comes around x call f.body [] o) : TransGen Json.Holds x call.value := by
  have hend : ∀ {ls o}, ¬ Comes around x call [.endObject] ls o := fun hc => by
    cases hc with
    | later _ hc => exact not_comes_nil hc
  cases h with
  | own _ _ _ hw =>
    cases hc with
    | later hstart hc =>
      obtain rfl := run_emit_eq_ok rfl hstart
      rcases hc.append with hc | ⟨_, _, -, hc⟩
      · exact hw.part_of_comes ⟨rfl, .inl rfl⟩ hc
      · exact absurd hc hend
  | narrowed _ _ _ hw =>
    obtain ⟨y, o', hcast, hc⟩ := comes_of_bind hc
    obtain rfl := Host.cast_eq_ok hcast
    cases hc with
    | later hstart hc =>
      obtain rfl := run_emit_eq_ok rfl hstart
      rcases hc.append with hc | ⟨_, _, -, hc⟩
      · exact hw.part_of_comes ⟨Expr.eval_var, .inr ⟨_, Nat.lt_succ_self _, rfl⟩⟩ hc
      · exact absurd hc hend

end Schema

end JsonBinding
