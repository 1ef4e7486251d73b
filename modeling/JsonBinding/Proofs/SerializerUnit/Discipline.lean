import JsonBinding.Proofs.Program.Discipline
import JsonBinding.Proofs.SerializerUnit.Faithful

/-!
# Units keep to the writer

* `Writing.Disciplined`: computations by which a new writer is not misused.
* **`disciplined_output`**: units and the generic writer keep to the writer for every host value.
-/

namespace JsonBinding

/-- Whether a computation keeps to a new writer: no event is refused, what it ends with is the text
of one value, and it fails for the host value only. -/
structure Writing.Disciplined (x : Writing Unit) : Prop where
  accepted : ∀ m, (x {}).1 ≠ .error (.misuse m)
  complete : (x {}).1 = .ok () → ∃ v : Json, (x {}).2.writer.finish = .ok v.text
  fault : ∀ f, (x {}).1 = .error f → f.FromHost

theorem Fault.FromHost.ne_misuse {f : Fault} (h : f.FromHost) (m : Json.Misuse) :
    f ≠ .misuse m := by
  rintro rfl
  rcases h.cases with ⟨_, _, h, -⟩ | ⟨_, _, h⟩ | ⟨_, h⟩ | ⟨_, _, h⟩ | ⟨_, h⟩ <;> cases h

theorem Writing.Fills.disciplined {R : Unit → Json → Prop} {x : Writing Unit}
    (h : Fills .value R Fault.FromHost x) : x.Disciplined := by
  rcases h.outcome with ⟨v, -, hx, hv⟩ | ⟨f, hf, hx⟩
  · refine ⟨fun m hm => ?_, fun _ => ⟨v, hv⟩, fun f hf => ?_⟩
    · cases hx.symm.trans hm
    · cases hx.symm.trans hf
  · refine ⟨fun m hm => ?_, fun h => ?_, fun f' hf' => ?_⟩
    · cases hx.symm.trans hm
      exact hf.ne_misuse m rfl
    · cases hx.symm.trans h
    · cases hx.symm.trans hf'
      exact hf

namespace Schema

variable {s : Schema} {memo : Memo} {root : TypeRef} {id : UnitId} {u : SerializerUnit} {v : Json}

theorem fills_unit (hr : s.Reached memo) (hu : (s.unit root id memo).1 = .ok (some u))
    (hv : v.isNull = false) :
    Writing.Fills .value (fun _ _ => True) Fault.FromHost (s.run u v) := by
  obtain ⟨rfl, hp⟩ := programCode_of_unit hr hu
  exact fills_run hp hv

/-- **Units and the generic writer keep to the writer**, whatever the host value is. -/
theorem disciplined_output (s : Schema) :
    (∀ memo, s.Reached memo → ∀ root id u, (s.unit root id memo).1 = .ok (some u) →
      ∀ v : Json, v.isNull = false → (s.run u v).Disciplined) ∧
    ∀ (v : Json) (t : TypeRef), (s.reflect v t none).Disciplined :=
  ⟨fun _ hr _ _ _ hu _ hv => (fills_unit hr hu hv).disciplined,
    fun v t => (fills_reflect v t none).disciplined⟩

namespace Tree

theorem disciplined_output_tree : tree.Reached {} ∧ owned.isNull = false ∧
    (∃ u, (tree.unit (.cls node.name) ⟨"NodeSerializer"⟩ {}).1 = .ok (some u) ∧
      (tree.run u owned).Disciplined) ∧
    (tree.reflect owned (.cls node.name) none).Disciplined := by
  obtain ⟨u, hu⟩ := exists_unit
  obtain ⟨hunits, hreflect⟩ := disciplined_output tree
  exact ⟨.start, rfl, ⟨u, hu, hunits {} .start _ _ _ hu owned rfl⟩, hreflect owned _⟩

end Tree

end Schema

end JsonBinding
