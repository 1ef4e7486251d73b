import JsonBinding.Proofs.Index.Exactness

/-!
# Narrowed interfaces

An interface is read through the only class below it that has instances of its own. Enums have
instances too, but they do not count.

* `implementors_of_target`: the class that is read for an interface.
* **`narrowing_sound_iff`**: every other class below the interface is abstract, and the same is true
  of everything below it unless it has an enum there.
* `Lengths.unit_below`: an interface with a class and an enum below it, which is read through the
  class.
-/

namespace JsonBinding.Index

open Relation (TransGen)

variable {ix : Index} {c t : ClassInfo} {k : ClassName}

/-- What is read for an interface is its only implementor. -/
theorem implementors_of_target (hi : c.kind = .interface) (ht : ix.target c = .ok t) :
    ix.implementors c.name = [t] := by
  have honly : ix.only (ix.implementors c.name) = .ok t := by rw [← ht, target_eq, hi]
  rcases hl : ix.implementors c.name with _ | ⟨u, _ | ⟨v, rest⟩⟩
  · rw [hl] at honly
    cases honly
  · rw [hl, only, checked] at honly
    split_ifs at honly
    cases honly
    rfl
  · rw [hl] at honly
    cases honly

theorem exists_target (h : (ix.inspect c).concrete? = some k) :
    ∃ t, ix.target c = .ok t ∧ t.name = k ∧ (ix.inspect c).isPossible = true := by
  unfold inspect at h ⊢
  cases ht : ix.target c with
  | error i => rw [ht] at h; cases h
  | ok t =>
    rw [ht] at h
    dsimp only at h
    split_ifs at h
    cases h
    exact ⟨t, rfl, rfl, rfl⟩

/-- **Reading an interface through a class is sound just when no enum is below the interface.** The
class is one that has instances, and every other class below the interface is abstract. -/
theorem narrowing_sound_iff (hi : c.kind = .interface)
    (hk : (ix.inspect c).concrete? = some k) :
    (ix.inspect c).isPossible = true ∧
    (∃ t, ix.class? k = some t ∧ t.isConcrete = true ∧ TransGen ix.Below k c.name) ∧
    (∀ d ∈ ix.classes, d.kind = .cls → TransGen ix.Below d.name c.name → d.name ≠ k →
      d.isAbstract = true) ∧
    ((∀ d ∈ ix.classes, d.kind = .cls ∨ d.kind = .enum → TransGen ix.Below d.name c.name →
      d.name ≠ k → d.kind = .cls ∧ d.isAbstract = true) ↔
    ∀ d ∈ ix.classes, TransGen ix.Below d.name c.name → d.kind ≠ .enum) := by
  obtain ⟨t, ht, rfl, hp⟩ := exists_target hk
  have honly : ∀ d, d ∈ ix.classes ∧ d.isConcrete = true ∧ TransGen ix.Below d.name c.name ↔
      d = t := fun d => by
    rw [← mem_implementors_iff, implementors_of_target hi ht, List.mem_singleton]
  obtain ⟨hmem, hconcrete, hbelow⟩ := (honly t).mpr rfl
  have hkind : t.kind = .cls := by
    rw [ClassInfo.isConcrete, Bool.and_eq_true] at hconcrete
    exact of_decide_eq_true hconcrete.1
  have habstract : ∀ d ∈ ix.classes, d.kind = .cls → TransGen ix.Below d.name c.name →
      d.name ≠ t.name → d.isAbstract = true := fun d hd hcls hb hne => by
    by_contra ha
    exact hne (congrArg _ ((honly d).mp ⟨hd, by simp [ClassInfo.isConcrete, hcls, ha], hb⟩))
  refine ⟨hp, ⟨t, class?_of_mem hmem, hconcrete, hbelow⟩, habstract, fun h d hd hb he => ?_,
    fun h d hd hcls hb hne => ?_⟩
  · have hne : d.name ≠ t.name := fun hname => by
      rw [List.inj_on_of_nodup_map ix.nodup_names hd hmem hname, hkind] at he
      cases he
    rw [(h d hd (.inr he) hb hne).1] at he
    cases he
  · have hcls := hcls.resolve_right (h d hd hb)
    exact ⟨hcls, habstract d hd hcls hb hne⟩

/-! ## An interface with an enum below it -/

namespace Lengths

/-- An interface. -/
def length : ClassInfo where
  name := ⟨"com.acme.Length"⟩
  kind := .interface

/-- A class that implements the interface. -/
def span : ClassInfo where
  name := ⟨"com.acme.Span"⟩
  interfaces := [⟨"com.acme.Length"⟩]

/-- An enum that implements the interface. -/
def unit : ClassInfo where
  name := ⟨"com.acme.Unit"⟩
  kind := .enum
  interfaces := [⟨"com.acme.Length"⟩]

end Lengths

/-- An interface with a class and an enum below it. -/
def lengths : Index where
  classes := [Lengths.length, Lengths.span, Lengths.unit]
  nodup_names := by decide

namespace Lengths

theorem implementors_length : lengths.implementors length.name = [span] := by
  have hlength : lengths.subtypes length.name = [span.name, unit.name] := rfl
  have hspan : lengths.subtypes span.name = [] := rfl
  have hunit : lengths.subtypes unit.name = [] := rfl
  have hfirst : lengths.class? span.name = some span := rfl
  have hsecond : lengths.class? unit.name = some unit := rfl
  rw [implementors, hlength, walk_of_known List.not_mem_nil hfirst, hspan, List.nil_append,
    walk_of_known (by decide) hsecond, hunit, List.nil_append, walk]
  exact List.mergeSort_singleton _

theorem concrete?_length : (lengths.inspect length).concrete? = some span.name := by
  have hcyclic : lengths.isCyclic span = false := by simp [isCyclic, span, ascent]
  have htarget : lengths.target length = .ok span := by
    rw [target_eq]
    change lengths.only (lengths.implementors length.name) = _
    rw [implementors_length, only, checked, hcyclic]
    rfl
  rw [inspect, htarget]
  rfl

theorem narrowing_sound_iff_length : length.kind = .interface ∧
    (lengths.inspect length).concrete? = some span.name ∧
    ∀ d ∈ lengths.classes, d.kind = .cls → TransGen lengths.Below d.name length.name →
      d.name ≠ span.name → d.isAbstract = true :=
  ⟨rfl, concrete?_length, (narrowing_sound_iff rfl concrete?_length).2.2.1⟩

/-- The enum has instances, and the interface is read through the class all the same. -/
theorem unit_below : length ∈ lengths.classes ∧ length.kind = .interface ∧
    (lengths.inspect length).isPossible = true ∧
    (lengths.inspect length).concrete? = some span.name ∧
    unit ∈ lengths.classes ∧ unit.kind = .enum ∧ unit.name ≠ span.name ∧
    TransGen lengths.Below unit.name length.name ∧
    ¬ (unit.kind = .cls ∧ unit.isAbstract = true) := by
  obtain ⟨-, -, -, hp⟩ := exists_target concrete?_length
  refine ⟨.head _, rfl, hp, concrete?_length, .tail _ (.tail _ (.head _)), rfl, by decide,
    .single ⟨unit, rfl, .inr List.mem_cons_self⟩, nofun⟩

end Lengths

end JsonBinding.Index
