import JsonBinding.Proofs.Program.Faithful
import JsonBinding.Proofs.SerializerUnit.Outcome

/-!
# Units write what the generic writer writes

* **`run_faithful`**: a unit and the generic writer make the same document of a value, or both fail.
-/

namespace JsonBinding.Schema

open Writing

variable {s : Schema} {memo : Memo} {root : TypeRef} {id : UnitId} {u : SerializerUnit} {v : Json}

theorem programCode_of_unit (hr : s.Reached memo) (hu : (s.unit root id memo).1 = .ok (some u)) :
    u.root = root ∧ s.ProgramCode root u.program := by
  obtain ⟨p, hp, rfl⟩ := unit_eq_some hr hu
  exact ⟨rfl, hp⟩

theorem alike_unit (hs : s.EnumsApart) (hr : s.Reached memo)
    (hu : (s.unit root id memo).1 = .ok (some u))
    (ha : ∀ f ∈ u.program.functions, ∀ p, s.Defers (.cls f.name) p →
      p.annotations.get? .dateFormat = none) (hv : v.isNull = false) :
    Alike (fun _ _ => True) (s.run u v) (s.reflect v root none) := by
  obtain ⟨rfl, hp⟩ := programCode_of_unit hr hu
  exact faithful_run hs hp ha hv

/-- **A unit writes a value as the generic writer writes it**: it fails when the generic writer
fails, else it leaves the same writer behind, and so makes the same document. No enum may bear the
name of a class with another form, and no property that is left to the generic writer may have a
date format of its own. -/
theorem run_faithful (hs : s.EnumsApart) (hr : s.Reached memo)
    (hu : (s.unit root id memo).1 = .ok (some u))
    (ha : ∀ f ∈ u.program.functions, ∀ p, s.Defers (.cls f.name) p →
      p.annotations.get? .dateFormat = none) (hv : v.isNull = false) :
    ((s.run u v {}).1.isOk ↔ (s.reflect v root none {}).1.isOk) ∧
    ((s.run u v {}).1.isOk → (s.run u v {}).2.writer = (s.reflect v root none {}).2.writer) ∧
    ∀ text, (s.run u v).written.1 = .complete text ↔
      (s.reflect v root none).written.1 = .complete text := by
  have h := alike_unit hs hr hu ha hv
  exact ⟨h.outcome.1, h.outcome.2, h.complete⟩

namespace Tree

theorem enumsApart : tree.EnumsApart :=
  enumsApart_of_classes fun c hc => by rw [List.mem_singleton.mp hc]; decide

theorem not_blocked_date : ¬ tree.Blocked (.cls ⟨"java.time.LocalDate"⟩) :=
  not_blocked_of_leaf (v := .date) rfl (by decide)

theorem defers_node {n : ClassName} {p : Property} (h : tree.Defers (.cls n) p) :
    p.annotations.get? .dateFormat = none := by
  obtain ⟨⟨k, c, hk, -, hc, hp⟩, hd, hb⟩ := h
  cases hk
  cases List.mem_singleton.mp (Index.mem_of_class? hc)
  rw [properties_node] at hp
  simp only [List.mem_cons, List.not_mem_nil, or_false] at hp
  rcases hp with rfl | rfl | rfl
  · cases hd
  · exact absurd hb not_blocked_date
  · rfl

/-- A node with a child and an owner. -/
def owned : Json := .obj [
  ("children", .arr [.obj [("due", .str "2024-02-29")]]),
  ("due", .str "2024-03-01"),
  ("owner", .obj [("room", .num (.int 12))])]

theorem run_faithful_tree : tree.EnumsApart ∧ tree.Reached {} ∧ owned.isNull = false ∧
    ∃ u, (tree.unit (.cls node.name) ⟨"NodeSerializer"⟩ {}).1 = .ok (some u) ∧
      (∀ f ∈ u.program.functions, ∀ p, tree.Defers (.cls f.name) p →
        p.annotations.get? .dateFormat = none) ∧
      ((tree.run u owned {}).1.isOk ↔ (tree.reflect owned (.cls node.name) none {}).1.isOk) ∧
      ∀ text, (tree.run u owned).written.1 = .complete text ↔
        (tree.reflect owned (.cls node.name) none).written.1 = .complete text := by
  obtain ⟨p, -, hu⟩ := (unit_program ⟨"NodeSerializer"⟩ .start not_blocked_node).resolve_right
    fun h => h.1 (dated_of_hasDates hasDates)
  refine ⟨enumsApart, .start, rfl, _, hu, fun _ _ _ => defers_node, ?_⟩
  obtain ⟨hok, -, htext⟩ :=
    run_faithful enumsApart .start hu (fun _ _ _ => defers_node) (v := owned) rfl
  exact ⟨hok, htext⟩

end Tree

end JsonBinding.Schema
