import JsonBinding.Proofs.Program.Scope
import JsonBinding.SerializerUnit.Source

/-!
# What can be lowered

* `check_eq_ok`: a unit whose functions are of different classes, with those of all classes that are
  run, passes the check of its calls.
* **`source_eq_ok`**: when its blocks keep to the scopes of their locals, it has a source file.
-/

namespace JsonBinding

attribute [local simp] List.filterMap_cons

namespace SerializerUnit

variable {u : SerializerUnit}

theorem definedTwice?_eq_none {seen : List ClassName} {fs : List ObjectFunction}
    (h : (fs.map (·.name)).Nodup) (hs : ∀ f ∈ fs, f.name ∉ seen) :
    definedTwice? seen fs = none := by
  induction fs generalizing seen with
  | nil => rfl
  | cons f fs ih =>
    rw [List.map_cons, List.nodup_cons] at h
    rw [definedTwice?, if_neg (hs f List.mem_cons_self)]
    refine ih h.2 fun g hg hseen => ?_
    rcases List.mem_cons.mp hseen with he | hseen
    · exact h.1 (he ▸ List.mem_map_of_mem hg)
    · exact hs g (List.mem_cons_of_mem _ hg) hseen

theorem undefined?_eq_none {p : Program}
    (h : p.statements.filterMap Stmt.callee? ⊆ p.functions.map (·.name)) : undefined? p = none := by
  rw [undefined?, List.find?_eq_none]
  intro k hk
  obtain ⟨f, hf, rfl⟩ := List.mem_map.mp (h hk)
  have hfind : (p.function? f.name).isSome = true := by
    rw [Program.function?, List.find?_isSome]
    exact ⟨f, hf, by simp⟩
  simp [Option.isNone_eq_false_iff.mpr hfind]

theorem check_eq_ok (hn : (u.program.functions.map (·.name)).Nodup)
    (hc : u.program.statements.filterMap Stmt.callee? ⊆ u.program.functions.map (·.name)) :
    u.check = .ok () := by
  rw [check, definedTwice?_eq_none hn (fun _ _ => List.not_mem_nil), undefined?_eq_none hc]

end SerializerUnit

namespace Source

variable {p : Program} {values keys : List Nat}

theorem callee_ok {k : ClassName} (h : k ∈ p.functions.map (·.name)) :
    ∃ name, callee p k = .ok name := by
  obtain ⟨f, hf, rfl⟩ := List.mem_map.mp h
  obtain ⟨i, hi⟩ : ∃ i, p.functions.findIdx? (·.name = f.name) = some i := by
    rw [← Option.isSome_iff_exists, List.findIdx?_isSome, List.any_eq_true]
    exact ⟨f, hf, by simp⟩
  exact ⟨functionName i f.name, by rw [callee, hi]⟩

mutual

/-- A statement in scope has a text when the functions that it runs are there. -/
theorem stmt_ok {values keys : List Nat} (st : Stmt) (h : st.inScope values keys = true)
    (hc : (Stmt.all st).filterMap Stmt.callee? ⊆ p.functions.map (·.name)) :
    ∃ text, stmt p st = .ok text := by
  match st with
  | .beginObject | .endObject | .beginArray | .endArray | .writeKey _ | .writeNull
  | .writeScalar _ _ | .writeDate _ _ | .bind _ _ | .writeUnhandled _ _ => exact ⟨_, rfl⟩
  | .writeDynamicKey e =>
    cases e with
    | var n => exact ⟨_, rfl⟩
    | _ => cases h
  | .ifNotNull e yes no =>
    simp only [Stmt.inScope, Bool.and_eq_true] at h
    obtain ⟨present, hyes⟩ := block_ok yes h.2.1 (fun k hk => hc (by simp_all))
    obtain ⟨absent, hno⟩ := block_ok no h.2.2 (fun k hk => hc (by simp_all))
    rw [stmt, hyes]
    show ∃ text, (if no.isEmpty then _ else block p no >>= fun absent => _) = _
    rw [hno]
    split_ifs
    · exact ⟨_, rfl⟩
    · exact ⟨_, rfl⟩
  | .ifPresent e n yes no =>
    simp only [Stmt.inScope, Bool.and_eq_true] at h
    obtain ⟨present, hyes⟩ := block_ok yes h.2.1 (fun k hk => hc (by simp_all))
    obtain ⟨absent, hno⟩ := block_ok no h.2.2 (fun k hk => hc (by simp_all))
    rw [stmt, hyes, hno]
    exact ⟨_, rfl⟩
  | .forEachElement e n body =>
    simp only [Stmt.inScope, Bool.and_eq_true] at h
    obtain ⟨inside, hbody⟩ := block_ok body h.2 (fun k hk => hc (by simp_all))
    rw [stmt, hbody]
    exact ⟨_, rfl⟩
  | .forEachEntry e k n body =>
    simp only [Stmt.inScope, Bool.and_eq_true] at h
    obtain ⟨inside, hbody⟩ := block_ok body h.2 (fun k hk => hc (by simp_all))
    rw [stmt, hbody]
    exact ⟨_, rfl⟩
  | .callObject name e =>
    obtain ⟨function, hf⟩ := callee_ok (hc (a := name) (by simp))
    rw [stmt, hf]
    exact ⟨_, rfl⟩

theorem block_ok {values keys : List Nat} (body : List Stmt)
    (h : Stmt.allInScope values keys body = true)
    (hc : Stmt.callees body ⊆ p.functions.map (·.name)) : ∃ texts, block p body = .ok texts := by
  match body with
  | [] => exact ⟨[], rfl⟩
  | st :: rest =>
    rw [Stmt.allInScope, Bool.and_eq_true] at h
    rw [Stmt.callees, Stmt.gather_cons] at hc
    obtain ⟨first, hfirst⟩ := stmt_ok st h.1 (List.append_subset.mp hc).1
    obtain ⟨others, hothers⟩ := block_ok rest h.2 (List.append_subset.mp hc).2
    rw [block, hfirst, hothers]
    exact ⟨_, rfl⟩

end

end Source

namespace Source

theorem functions_ok {fs : List ObjectFunction} (hf : fs ⊆ p.functions)
    (hb : ∀ f ∈ p.functions, Stmt.allInScope [] [] f.body = true)
    (hc : ∀ f ∈ p.functions, Stmt.callees f.body ⊆ p.functions.map (·.name)) :
    ∃ texts, (fs.mapM fun f => do
      let name ← callee p f.name
      pure (function name (← block p f.body)) : Except Fault (List String)) = .ok texts := by
  induction fs with
  | nil => exact ⟨[], rfl⟩
  | cons f fs ih =>
    have hmem := hf List.mem_cons_self
    obtain ⟨name, hname⟩ := callee_ok (List.mem_map_of_mem hmem)
    obtain ⟨body, hbody⟩ := block_ok f.body (hb f hmem) (hc f hmem)
    obtain ⟨texts, htexts⟩ := ih fun g hg => hf (List.mem_cons_of_mem _ hg)
    rw [List.mapM_cons, hname, hbody, htexts]
    exact ⟨_, rfl⟩

end Source

open Source in
/-- **A unit whose blocks keep to the scopes of their locals has a source file**, when it passes the
check of its calls. -/
theorem SerializerUnit.source_eq_ok {u : SerializerUnit} (hu : u.check = .ok ())
    (he : Stmt.allInScope [] [] u.program.entry = true)
    (hb : ∀ f ∈ u.program.functions, Stmt.allInScope [] [] f.body = true)
    (hc : Stmt.callees u.program.entry ⊆ u.program.functions.map (·.name))
    (hcb : ∀ f ∈ u.program.functions,
      Stmt.callees f.body ⊆ u.program.functions.map (·.name)) :
    ∃ file, u.source = .ok file := by
  obtain ⟨entry, hentry⟩ := block_ok u.program.entry he hc
  obtain ⟨functions, hfunctions⟩ := functions_ok (List.Subset.refl _) hb hcb
  rw [source, hu, hentry, hfunctions]
  exact ⟨_, rfl⟩

end JsonBinding
