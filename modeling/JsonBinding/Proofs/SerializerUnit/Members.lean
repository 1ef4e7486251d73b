import JsonBinding.Proofs.Program.Members
import JsonBinding.Proofs.Reflection.Dates
import JsonBinding.Proofs.SerializerUnit.Faithful

/-!
# Units write the right members

* `Renders.absent`, `RendersHeld.absent`: what is written for an absent value is null.
* `ready_of_callWithin`: a function that succeeds starts where a value may begin.
* **`exact_members`**: every function that a unit executes writes an object with one member for each
  property of the class that is shown.
-/

namespace JsonBinding

open Writing

theorem Json.Writer.Ready.of_startObject {w w' : Writer} (h : w.write .startObject = (w', none)) :
    w.Ready := by
  rw [write, start] at h
  rcases hw : w.beforeValue with e | w₁
  · rw [hw] at h
    cases h
  · exact ⟨w₁, hw⟩

namespace Schema

variable {s : Schema} {u : SerializerUnit} {v : Json} {depth : Nat} {call : Call} {w j : Json}
  {t : TypeRef} {a? : Option AnnotationSet}

/-! ## Absent values -/

theorem of_isAbsent (h : isAbsent t w = .ok true) :
    w = .null ∨ t.kind = .optional ∧ Host.content w = .ok none := by
  cases hw : w.isNull with
  | true =>
    cases w with
    | null => exact .inl rfl
    | _ => cases hw
  | false =>
    by_cases hk : t.kind = .optional
    · rw [isAbsent_optional hw hk] at h
      rcases hc : Host.content w with f | _ | c
      · rw [hc] at h
        cases h
      · exact .inr ⟨hk, rfl⟩
      · rw [hc] at h
        cases h
    · rw [isAbsent_present hw hk] at h
      cases h

theorem Renders.absent (h : s.Renders a? t w j) (hw : isAbsent t w = .ok true) : j = .null := by
  have hscalar : ∀ form ev, Host.scalar .null form ≠ .ok ev := fun form ev h => by
    obtain ⟨f, hf⟩ := scalar_null form
    cases hf.symm.trans h
  rcases of_isAbsent hw with rfl | ⟨hk, hcon⟩
  · cases h with
    | null | empty => rfl
    | scalar _ h | string _ _ h | enum _ _ h => exact absurd h (hscalar _ _)
    | date _ _ _ h | content _ _ h | elements _ _ h | entries _ _ h | «instance» _ _ _ _ h => cases h
  · cases h with
    | null | empty => rfl
    | scalar h => simp [hk] at h
    | string h | date h | enum h | «instance» h | entries h => cases hk.symm.trans h
    | content _ _ h => cases hcon.symm.trans h
    | elements h => simp [hk] at h

theorem RendersHeld.absent (h : s.RendersHeld a? t w j) (hw : isAbsent t w = .ok true) :
    j = .null := by
  cases h with
  | handled _ h => exact h.absent hw
  | deferred _ h =>
    rcases of_isAbsent hw with rfl | ⟨hk, hcon⟩
    · rw [document_null rfl] at h
      split_ifs at h
      cases h
      rfl
    · have hn : w.isNull = false := by
        cases w with
        | null => cases hcon
        | _ => rfl
      rw [document_eq hn, hk, hcon] at h
      cases h
      rfl

/-! ## Executions -/

theorem ready_of_emit {α : Type} {g : Unit → Writing α} {a : α} {o p : Output}
    (h : (Writing.emit .startObject >>= g) o = (.ok a, p)) : o.writer.Ready := by
  obtain ⟨_, _, he, -⟩ := bind_eq_ok.mp h
  rw [Writing.emit] at he
  rcases hw : o.writer.write .startObject with ⟨w', _ | m⟩
  · exact .of_startObject hw
  · rw [hw] at he
    cases he

theorem ready_of_callWithin (hu : s.ProgramCode u.root u.program) {k : ClassName} {x : Json}
    {o p : Output} (h : s.callWithin u depth k x o = (.ok (), p)) : o.writer.Ready := by
  cases depth with
  | zero => cases h
  | succ depth =>
    obtain ⟨f, hf, ls, hr⟩ := callWithin_eq_ok h
    obtain ⟨n, m, hcode⟩ := hu.function (List.mem_of_find?_eq_some hf)
    cases hcode with
    | own =>
      rw [List.cons_append, Stmt.runAll_emit rfl] at hr
      exact ready_of_emit hr
    | @narrowed name concrete c n m written hc hi hsome hw =>
      have heval : (Expr.cast .root concrete).eval x [] = Host.cast x concrete := rfl
      rw [List.cons_append, List.cons_append, Stmt.runAll_cons, Stmt.run, heval] at hr
      rcases hcast : Host.cast x concrete with e | y
      · rw [hcast] at hr
        cases hr
      · rw [hcast, ofExcept_ok_bind, Writing.pure_bind, Stmt.runAll_emit rfl] at hr
        exact ready_of_emit hr

/-- **Every function that a unit executes writes an object with just the right members**, when the
run succeeds: one member for each property of the class that is shown, in the order of the
properties, with null for an absent value, and no other. No enum may bear the name of a class with
another form. -/
theorem exact_members {memo : Memo} {root : TypeRef} {id : UnitId} (hs : s.EnumsApart)
    (hr : s.Reached memo) (hu : (s.unit root id memo).1 = .ok (some u))
    (hrun : (s.run u v {}).1 = .ok ()) (hcall : s.Executes u v depth call) :
    ∃ c members after, s.index.class? call.name = some c ∧
      (∀ concrete, (s.index.inspect c).concrete? = some concrete →
        Host.cast call.value concrete = .ok call.value) ∧
      s.callWithin u depth call.name call.value call.before = (.ok (), after) ∧
      call.before.writer.writeAll (Json.obj members).events = (after.writer, none) ∧
      List.Forall₂
        (fun p member => member.1 = p.key ∧ ∃ w, Host.property call.value p.accessor = .ok w ∧
          s.RendersHeld (some p.annotations) p.type w member.2 ∧
          (isAbsent p.type w = .ok true → member.2 = .null))
        ((s.properties (s.index.inspect c)).filter (isShown call.value)) members := by
  obtain ⟨rfl, hp⟩ := programCode_of_unit hr hu
  obtain ⟨after, hok⟩ := hcall.succeeds hrun
  have hwrites := (rendersObject_callWithin hs hp depth).2 call.name call.value call.before
    (ready_of_callWithin hp hok)
  simp only [hok] at hwrites
  obtain ⟨j, ⟨c, members, hc, hcast, hms, rfl⟩, hw⟩ := hwrites
  refine ⟨c, members, after, hc, hcast, hok, hw, hms.forall₂.imp ?_⟩
  rintro p member ⟨hkey, w, hprop, hheld⟩
  exact ⟨hkey, w, hprop, hheld, hheld.absent⟩

namespace Tree

theorem document_node (hv : v.isNull = false) :
    tree.document v (some (.cls node.name)) a? =
      (assemble (tree.properties (tree.index.inspect node)) fun p _ =>
        membersOf v p fun w _ => tree.document w (some p.type) (some p.annotations)).map .obj := by
  have hkind : (TypeRef.cls node.name).kind = .plainClass :=
    kind_plainClass (by decide) (by decide)
  exact document_instance hv hkind (by decide) (by decide) class?_node (by decide) (by cbv)
    (by cbv)

/-- A node with a date only. -/
def dated : Json := .obj [("due", .str "2024-02-29")]

theorem document_due : tree.document (.str "2024-02-29") (some (.cls ⟨"java.time.LocalDate"⟩))
    (some [(.field, dayFirst)]) = .ok (.str "29.02.2024") := by
  have hdate : Host.date (.str "2024-02-29") (.pattern "%d.%m.%Y") =
      .ok (.string "29.02.2024") := by cbv
  have hformat : tree.dateFormat (some [(.field, dayFirst)]) = .ok (.pattern "%d.%m.%Y") :=
    ofText_dayFirst
  rw [document_date (by decide) rfl, hformat]
  show (Host.date (.str "2024-02-29") (.pattern "%d.%m.%Y")).map _ = _
  rw [hdate]
  rfl

theorem kind_date : (TypeRef.cls ⟨"java.time.LocalDate"⟩).kind = .plainClass :=
  kind_plainClass (by decide) (by decide)

theorem document_dated : tree.document dated (some (.cls node.name)) none =
    .ok (.obj [("due", .str "29.02.2024")]) := by
  rw [document_node rfl, properties_node]
  simp only [assemble]
  rw [membersOf_eq, membersOf_eq, membersOf_eq]
  simp [dated, Host.property, Host.read, Host.member, Json.lookup, isAbsent, bind, Except.bind,
    TypeRef.isPrimitive, Json.isNull, Except.map, kind_date, document_due]

theorem run_dated (hu : (tree.unit (.cls node.name) ⟨"NodeSerializer"⟩ {}).1 = .ok (some u)) :
    (tree.run u dated {}).1 = .ok () := by
  have hreflect : Writing.Writes .value (tree.reflect dated (.cls node.name) none)
      (tree.document dated (some (.cls node.name)) none) := writes_reflectAt _ _ _
  have hok := (alike_unit enumsApart .start hu (fun _ _ _ => defers_node) (v := dated)
    rfl).outcome.1
  rw [document_dated] at hreflect
  rcases hreflect.outcome with ⟨_, -, h, -⟩ | ⟨_, h, -⟩
  · rw [h] at hok
    cases hr : (tree.run u dated {}).1 with
    | ok _ => rfl
    | error f => rw [hr] at hok; exact absurd (hok.mpr rfl) Bool.false_ne_true
  · cases h

theorem exact_members_tree : tree.EnumsApart ∧ tree.Reached {} ∧
    ∃ u call depth, (tree.unit (.cls node.name) ⟨"NodeSerializer"⟩ {}).1 = .ok (some u) ∧
      (tree.run u dated {}).1 = .ok () ∧ tree.Executes u dated depth call ∧
      ∃ members, ∃ after : Output,
        call.before.writer.writeAll (Json.obj members).events = (after.writer, none) ∧
        members.map (·.1) = ["due"] := by
  obtain ⟨u, hu⟩ := exists_unit
  have hcall := (programCode_of_unit .start hu).2.executes_root formOf_node dated
  obtain ⟨c, members, after, hc, -, -, hw, hms⟩ :=
    exact_members enumsApart .start hu (run_dated hu) hcall
  refine ⟨enumsApart, .start, u, _, _, hu, run_dated hu, hcall, members, after, hw, ?_⟩
  cases class?_node.symm.trans hc
  have hshown : (tree.properties (tree.index.inspect node)).filter (isShown dated) =
      [⟨"due", "due", false, .cls ⟨"java.time.LocalDate"⟩, .field "due", [(.field, dayFirst)]⟩] := by
    rw [properties_node]
    simp [isShown, dated, Host.property, Host.read, Host.member, Json.lookup, isAbsent, bind,
      Except.bind, TypeRef.isPrimitive, Json.isNull, kind_date]
  rw [hshown] at hms
  obtain ⟨member, _, ⟨hkey, -⟩, hnone, rfl⟩ := List.forall₂_cons_left_iff.mp hms
  cases hnone
  rw [List.map_singleton, hkey]

end Tree

end Schema

end JsonBinding
