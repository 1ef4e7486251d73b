import JsonBinding.Proofs.Program.Numbering
import JsonBinding.Proofs.SerializerUnit.Faithful
import JsonBinding.Proofs.SerializerUnit.Lowering

/-!
# Units are closed

* `Program.Reaches`: the classes whose functions are run from the entry on.
* `Program.Closed`: programs with just the functions that are run, and with every local in its
  scope.
* `keeps_unit`: a run of a unit with such a program has no fault of scope.
* **`closed_unit`**: the program of a unit that is built is closed, so that the unit can be lowered
  and runs without a fault of scope.
-/

namespace JsonBinding

theorem BuildState.enlist_eq (known more : List ClassName) :
    enlist known more = known ++ (more.filter (· ∉ known)).eraseDups := by
  induction more generalizing known with
  | nil => simp [enlist]
  | cons k more ih =>
    rw [enlist_cons, ih]
    split_ifs with hk
    · rw [List.filter_cons_of_neg (by simpa using hk)]
    · rw [List.filter_cons_of_pos (by simpa using hk), List.eraseDups_cons, List.filter_filter,
        List.append_assoc, List.singleton_append]
      congr 4
      funext j
      by_cases hj : j = k <;> simp [hj]

namespace Program

variable {p : Program}

/-- The classes whose functions are run from the entry on. -/
inductive Reaches (p : Program) : ClassName → Prop
  | entry {k : ClassName} : k ∈ Stmt.callees p.entry → Reaches p k
  | step {f : ObjectFunction} {k : ClassName} : f ∈ p.functions → Reaches p f.name →
    k ∈ Stmt.callees f.body → Reaches p k

/-- Whether the functions of a program are those of the classes that are run from the entry on, one
each and in the order in which they are run first, and its locals are bound once each and used in
their scopes, as keys when they hold keys and as values else. -/
structure Closed (p : Program) : Prop where
  reaches : ∀ k, k ∈ p.functions.map (·.name) ↔ p.Reaches k
  nodup : (p.functions.map (·.name)).Nodup
  ordered : p.functions.map (·.name) = (p.statements.filterMap Stmt.callee?).eraseDups
  bound : (p.statements.flatMap Stmt.binds).Nodup
  entry : Stmt.allInScope [] [] p.entry = true
  bodies : ∀ f ∈ p.functions, Stmt.allInScope [] [] f.body = true

theorem reaches_of_requested {known : List ClassName} {fs : List ObjectFunction}
    (h : Schema.Requested known fs) (hk : ∀ k ∈ known, p.Reaches k) (hf : fs ⊆ p.functions) :
    ∀ f ∈ fs, p.Reaches f.name := by
  induction fs generalizing known with
  | nil => simp
  | cons g fs ih =>
    have hg := hk g.name h.1
    have hbody : ∀ k ∈ known ++ Stmt.callees g.body, p.Reaches k := by
      intro k hk'
      rcases List.mem_append.mp hk' with hk' | hk'
      · exact hk k hk'
      · exact .step (hf List.mem_cons_self) hg hk'
    intro f hf'
    rcases List.mem_cons.mp hf' with rfl | hf'
    · exact hg
    · exact ih h.2 hbody (fun i hi => hf (List.mem_cons_of_mem _ hi)) f hf'

namespace Closed

variable (h : p.Closed)

include h

theorem callees_entry : Stmt.callees p.entry ⊆ p.functions.map (·.name) :=
  fun k hk => (h.reaches k).mpr (.entry hk)

theorem callees_body {f : ObjectFunction} (hf : f ∈ p.functions) :
    Stmt.callees f.body ⊆ p.functions.map (·.name) :=
  fun k hk => (h.reaches k).mpr (.step hf ((h.reaches _).mp (List.mem_map_of_mem hf)) hk)

theorem callees : p.statements.filterMap Stmt.callee? ⊆ p.functions.map (·.name) := by
  intro k hk
  rw [h.ordered]
  exact List.mem_eraseDups.mpr hk

end Closed

end Program

namespace Schema

open Writing

variable {s : Schema} {memo : Memo} {root : TypeRef} {id : UnitId} {u : SerializerUnit} {v : Json}

theorem ProgramCode.closed_program {p : Program} (h : s.ProgramCode root p) : p.Closed where
  reaches k := by
    constructor
    · intro hk
      obtain ⟨f, hf, rfl⟩ := List.mem_map.mp hk
      exact Program.reaches_of_requested h.requested (fun _ => .entry) (List.Subset.refl _) f hf
    · intro hk
      induction hk with
      | entry hk => exact h.entry hk
      | step hf _ hk _ => exact h.closed _ hf hk
  nodup := h.nodup
  ordered := by
    rw [h.ordered, BuildState.enlist_eq]
    simp
  bound := by
    obtain ⟨k, hk⟩ := h.bound_eq
    rw [hk]
    exact List.nodup_range
  entry := by
    obtain ⟨v, n, m, -, hc, -⟩ := h.code
    exact hc.inScope rfl (by simp)
  bodies f hf := by
    obtain ⟨n, m, hc⟩ := h.function hf
    exact hc.inScope

/-! ## Runs -/

theorem clear_callWithin (hp : u.program.Closed) (depth : Nat) :
    Surroundings.Clear ⟨s.callWithin u depth, s.writeUnhandled⟩
      (u.program.functions.map (·.name)) := by
  induction depth with
  | zero =>
    constructor
    · exact fun k hk v => .fail fun h => nomatch h
    · exact fun v t => keeps_reflect v t none
  | succ depth ih =>
    refine ⟨fun k hk v => ?_, ih.generic⟩
    obtain ⟨f, hf, hmem⟩ := function?_of_mem hk
    show Keeps _ (s.callWithin u (depth + 1) k v)
    rw [callWithin, hf]
    exact (Stmt.keeps_runAll f.body (hp.bodies f hmem) .nil
      (ih.mono (hp.callees_body hmem))).bind fun _ _ => .pure trivial

/-- A run of a unit with a closed program has no fault of scope. -/
theorem keeps_unit (hp : u.program.Closed) (v : Json) : Keeps (fun _ => True) (s.run u v) := by
  rw [run]
  split_ifs
  · refine .fail (Fault.not_ofScope_shape ?_)
    change ("a non-null `" ++ u.root.text ++ "`").toList ≠ _
    simp [String.toList_append]
  · exact (Stmt.keeps_runAll u.program.entry hp.entry .nil
      ((clear_callWithin hp _).mono hp.callees_entry)).bind fun _ _ => .pure trivial

/-- **A unit that is built is closed.** Both ways of lowering take it, and a run of it finds a value
in every local that it reads, a key where it writes one and a function for every call, whatever the
host value is and whatever was written before. -/
theorem closed_unit (hr : s.Reached memo) (hu : (s.unit root id memo).1 = .ok (some u)) :
    u.program.Closed ∧ u.check = .ok () ∧ (∃ file, u.source = .ok file) ∧
    ∀ (v : Json) (o o' : Output) (f : Fault), s.run u v o = (.error f, o') → ¬ f.OfScope := by
  have hp := (programCode_of_unit hr hu).2.closed_program
  have hcheck := SerializerUnit.check_eq_ok hp.nodup hp.callees
  refine ⟨hp, hcheck, SerializerUnit.source_eq_ok hcheck hp.entry hp.bodies hp.callees_entry
    fun _ => hp.callees_body, fun v o o' f h => ?_⟩
  have := keeps_unit (s := s) hp v o
  rw [h] at this
  exact this

namespace Tree

theorem closed_unit_tree : tree.Reached {} ∧
    ∃ u, (tree.unit (.cls node.name) ⟨"NodeSerializer"⟩ {}).1 = .ok (some u) ∧
      u.program.Closed ∧ u.check = .ok () ∧ (∃ file, u.source = .ok file) ∧
      ∀ (v : Json) (o o' : Output) (f : Fault), tree.run u v o = (.error f, o') →
        ¬ f.OfScope := by
  obtain ⟨u, hu⟩ := exists_unit
  exact ⟨.start, u, hu, closed_unit .start hu⟩

end Tree

end Schema

end JsonBinding
