import JsonBinding.Proofs.Index.Annotations
import JsonBinding.Proofs.Index.Reordering
import Mathlib.Data.String.Basic
import Mathlib.Logic.Relation

/-!
# What is found in hierarchies

The classes below a class, the interfaces and the superclasses of a class are exactly those that the
index leads to, whatever cycles and unknown classes its hierarchies have.

* `mem_walk_iff`: a walk meets what can be reached from its start.
* `Index.Below`, `Index.Extends`: a step to a supertype, and a step to an interface.
* **`mem_implementors_iff`**, **`mem_allInterfaces_iff`**: the classes below a class that have
  instances, and the interfaces of a class.
* `Index.lineage`, **`superclasses_lineage`**, **`isCyclic_iff`**: the superclasses of a class one
  after the other, how far they are followed, and when one of them comes twice.
* **`hierarchies_exact`**: all of this at once.
-/

namespace JsonBinding.Index

open Relation (ReflTransGen TransGen)

variable {ix : Index} {c d : ClassInfo} {m n : ClassName}

/-! ## Walks -/

/-- A walk meets exactly the known classes that can be reached from its start. -/
theorem mem_walk_iff {next : ClassInfo → List ClassName} {pending : List ClassName} :
    c ∈ ix.walk next [] pending ↔ c ∈ ix.classes ∧
      ∃ n ∈ pending, ReflTransGen (fun m k => ∃ d, ix.class? m = some d ∧ k ∈ next d) n c.name := by
  constructor
  · intro hc
    refine ⟨mem_of_class? (class?_of_mem_walk hc), walk_closed (fun k => ∃ n ∈ pending,
      ReflTransGen (fun m k => ∃ d, ix.class? m = some d ∧ k ∈ next d) n k) ?_ ?_ c hc⟩
    · rintro m d ⟨n, hn, hm⟩ hd k hk
      exact ⟨n, hn, hm.tail ⟨d, hd, hk⟩⟩
    · exact fun n hn => ⟨n, hn, .refl⟩
  · rintro ⟨hc, n, hn, hreach⟩
    have covered {k : ClassName} {e : ClassInfo} (he : ix.class? k = some e)
        (hk : k ∈ pending ∨ ∃ d ∈ ix.walk next [] pending, k ∈ next d) :
        e ∈ ix.walk next [] pending :=
      (walk_covers he hk).resolve_left List.not_mem_nil
    have hmet : ∀ e, ix.class? c.name = some e → e ∈ ix.walk next [] pending := by
      clear hc
      generalize c.name = k at hreach
      induction hreach with
      | refl => exact fun e he => covered he (.inl hn)
      | tail _ hstep ih =>
        obtain ⟨d, hd, hk⟩ := hstep
        exact fun e he => covered he (.inr ⟨d, ih d hd, hk⟩)
    exact hmet c (class?_of_mem hc)

/-- Classes with different names are strictly ordered by them. -/
theorem byName_strict {cs : List ClassInfo} (h : (cs.map (·.name)).Nodup) :
    (byName cs).Pairwise fun c d => c.name.text < d.name.text := by
  have hne : (byName cs).Pairwise fun c d => c.name ≠ d.name :=
    List.pairwise_map.mp (((byName_perm cs).map _).nodup_iff.mpr h)
  refine (byName_sorted cs).imp₂ (fun c d hle hne => lt_of_le_of_ne hle fun he => hne ?_) hne
  exact congrArg ClassName.mk he

/-! ## Subtypes and interfaces -/

/-- Whether a class that is known names another one as its superclass or among its interfaces. -/
def Below (ix : Index) (m n : ClassName) : Prop :=
  ∃ c, ix.class? m = some c ∧ (c.superclass? = some n ∨ n ∈ c.interfaces)

/-- Whether a class that is known names another one among its interfaces. -/
def Extends (ix : Index) (m n : ClassName) : Prop := ∃ c, ix.class? m = some c ∧ n ∈ c.interfaces

theorem mem_subtypes_iff : m ∈ ix.subtypes n ↔ ix.Below m n := by
  simp [mem_subtypes, Below, ClassInfo.supertypes]

/-- The steps that a walk takes from a class down to its subtypes are the steps to supertypes,
backwards. What has a supertype is known, so that a walk passes nothing over on its way. -/
theorem exists_subtype_iff :
    (∃ k ∈ ix.subtypes n, ReflTransGen
      (fun m k => ∃ d, ix.class? m = some d ∧ k ∈ ix.subtypes d.name) k m) ↔
    TransGen ix.Below m n := by
  rw [Relation.TransGen.tail'_iff]
  constructor
  · rintro ⟨k, hk, hreach⟩
    refine ⟨k, ?_, mem_subtypes_iff.mp hk⟩
    induction hreach with
    | refl => exact .refl
    | tail _ hstep ih =>
      obtain ⟨d, hd, hsub⟩ := hstep
      rw [name_of_class? hd] at hsub
      exact ih.head (mem_subtypes_iff.mp hsub)
  · rintro ⟨k, hreach, hk⟩
    refine ⟨k, mem_subtypes_iff.mpr hk, ?_⟩
    induction hreach using ReflTransGen.head_induction_on with
    | refl => exact .refl
    | @head a b hstep hrest ih =>
      have hknown : ∃ d, ix.class? b = some d := by
        rcases hrest.cases_head with rfl | ⟨_, ⟨d, hd, -⟩, -⟩
        · exact hk.imp fun d hd => hd.1
        · exact ⟨d, hd⟩
      obtain ⟨d, hd⟩ := hknown
      exact ih.tail ⟨d, hd, (name_of_class? hd).symm ▸ mem_subtypes_iff.mpr hstep⟩

/-- **The implementors of a class are the classes below it that have instances.** -/
theorem mem_implementors_iff : c ∈ ix.implementors n ↔
    c ∈ ix.classes ∧ c.isConcrete = true ∧ TransGen ix.Below c.name n := by
  rw [implementors, mem_byName, List.mem_filter, mem_walk_iff, exists_subtype_iff]
  tauto

/-- **The interfaces of a class are those that it and its superclasses lead to.** -/
theorem mem_allInterfaces_iff : d ∈ ix.allInterfaces c ↔ d ∈ ix.classes ∧
    ∃ s ∈ c :: ix.superclasses c, ∃ n ∈ s.interfaces, ReflTransGen ix.Extends n d.name := by
  rw [allInterfaces, mem_byName, mem_walk_iff]
  refine and_congr_right fun _ => ?_
  constructor
  · rintro ⟨n, hn, hreach⟩
    obtain ⟨s, hs, hn⟩ := List.mem_flatMap.mp hn
    exact ⟨s, hs, n, hn, hreach⟩
  · rintro ⟨s, hs, n, hn, hreach⟩
    exact ⟨n, List.mem_flatMap.mpr ⟨s, hs, hn⟩, hreach⟩

/-! ## Superclasses -/

/-- The name at a place of a chain of superclasses. -/
def line (ix : Index) (next? : Option ClassName) : Nat → Option ClassName
  | 0 => next?
  | k + 1 => (ix.line next? k).bind fun n => (ix.class? n).bind (·.superclass?)

/-- The names of a class, of its superclass, of the superclass of that, and so on. -/
def lineage (ix : Index) (c : ClassInfo) : Nat → Option ClassName
  | 0 => some c.name
  | k + 1 => ix.line c.superclass? k

theorem line_known (hc : ix.class? n = some c) (k : Nat) :
    ix.line (some n) (k + 1) = ix.line c.superclass? k := by
  induction k with
  | zero => simp [line, hc]
  | succ k ih => rw [line, ih, line]

theorem lineage_eq_none {k j : Nat} (h : ix.lineage c (k + 1) = none) (hkj : k ≤ j) :
    ix.lineage c (j + 1) = none := by
  induction hkj with
  | refl => exact h
  | step _ ih =>
    rw [lineage] at ih
    rw [lineage, line, ih, Option.bind_none]

/-- What an ascent is: classes with different names in the order of the chain, as far as there are
known ones that did not come before. -/
structure Ascends (ix : Index) (seen : List ClassName) (next? : Option ClassName)
    (chain : List ClassInfo) (cyclic : Bool) : Prop where
  fresh : ∀ c ∈ chain, c.name ∉ seen
  nodup : (chain.map (·.name)).Nodup
  place : ∀ i c, chain[i]? = some c → ix.class? c.name = some c ∧ ix.line next? i = some c.name
  stop : ∀ n, ix.line next? chain.length = some n →
    ix.class? n = none ∨ n ∈ seen ∨ n ∈ chain.map (·.name)
  cyclic : cyclic = true ↔
    ∃ n, ix.line next? chain.length = some n ∧ (n ∈ seen ∨ n ∈ chain.map (·.name))

theorem ascends (ix : Index) (seen : List ClassName) (next? : Option ClassName) :
    ix.Ascends seen next? (ix.ascent seen next?).1 (ix.ascent seen next?).2 := by
  induction seen, next? using ascent.induct ix with
  | case1 seen =>
    rw [ascent]
    exact ⟨List.forall_mem_nil _, List.nodup_nil, by simp, by simp [line], by simp [line]⟩
  | case2 seen n hn =>
    rw [ascent, dif_pos hn]
    refine ⟨List.forall_mem_nil _, List.nodup_nil, by simp, ?_, by simpa [line] using hn⟩
    rintro _ ⟨⟩
    exact .inr (.inl hn)
  | case3 seen n hn hc =>
    rw [ascent_of_unknown hn hc]
    refine ⟨List.forall_mem_nil _, List.nodup_nil, by simp, ?_, by simpa [line] using hn⟩
    rintro _ ⟨⟩
    exact .inl hc
  | case4 seen n hn c hc chain cyclic he ih =>
    rw [ascent_of_known hn hc]
    have hname := name_of_class? hc
    have hmem (k : ClassName) (names : List ClassName) :
        k ∈ seen ∨ k ∈ c.name :: names ↔ k ∈ n :: seen ∨ k ∈ names := by
      rw [hname, List.mem_cons, List.mem_cons]
      tauto
    refine ⟨?_, ?_, ?_, ?_, ?_⟩
    · exact List.forall_mem_cons.mpr ⟨hname ▸ hn, fun d hd hs =>
        ih.fresh d hd (List.mem_cons_of_mem _ hs)⟩
    · refine List.nodup_cons.mpr ⟨fun hm => ?_, ih.nodup⟩
      obtain ⟨d, hd, hdn⟩ := List.mem_map.mp hm
      exact ih.fresh d hd (hdn ▸ hname ▸ List.mem_cons_self)
    · rintro (_ | i) d hd
      · cases hd
        exact ⟨hname ▸ hc, hname ▸ rfl⟩
      · rw [line_known hc]
        exact ih.place i d hd
    · intro k hk
      rw [List.length_cons, line_known hc] at hk
      rw [List.map_cons, hmem]
      exact ih.stop k hk
    · rw [List.length_cons, line_known hc]
      simp only [List.map_cons, hmem]
      exact ih.cyclic

/-- **The superclasses of a class are its lineage**, without repetition and up to the first place
where it ends, names a class that is not known, or repeats itself. -/
theorem superclasses_lineage (ix : Index) (c : ClassInfo) :
    (c.name :: (ix.superclasses c).map (·.name)).Nodup ∧
    (∀ i d, (ix.superclasses c)[i]? = some d →
      ix.class? d.name = some d ∧ ix.lineage c (i + 1) = some d.name) ∧
    ∀ n, ix.lineage c ((ix.superclasses c).length + 1) = some n →
      ix.class? n = none ∨ n ∈ c.name :: (ix.superclasses c).map (·.name) := by
  have h := ix.ascends [c.name] c.superclass?
  refine ⟨List.nodup_cons.mpr ⟨fun hm => ?_, h.nodup⟩, h.place, fun n hn => ?_⟩
  · obtain ⟨d, hd, hname⟩ := List.mem_map.mp hm
    exact h.fresh d hd (hname ▸ List.mem_cons_self)
  · rw [List.mem_cons, ← List.mem_singleton (b := c.name)]
    exact h.stop n hn

/-- **A hierarchy is cyclic just when a class comes twice in its lineage.** -/
theorem isCyclic_iff (ix : Index) (c : ClassInfo) : ix.isCyclic c = true ↔
    ∃ i j n, i < j ∧ ix.lineage c i = some n ∧ ix.lineage c j = some n := by
  obtain ⟨hnodup, hplace, hstop⟩ := superclasses_lineage ix c
  have hcyclic := (ix.ascends [c.name] c.superclass?).cyclic
  simp only [List.mem_singleton, ← List.mem_cons] at hcyclic
  change ix.isCyclic c = true ↔ ∃ n, ix.lineage c ((ix.superclasses c).length + 1) = some n ∧
    n ∈ c.name :: (ix.superclasses c).map (·.name) at hcyclic
  -- the names of the class and of its superclasses stand at their places in the lineage
  generalize hnames : c.name :: (ix.superclasses c).map (·.name) = names at *
  have hlength : names.length = (ix.superclasses c).length + 1 := by simp [← hnames]
  rw [← hlength] at hstop hcyclic
  have hat : ∀ i n, names[i]? = some n → ix.lineage c i = some n := by
    rintro (_ | i) n hn
    · rw [← hnames] at hn
      exact hn
    · rw [← hnames, List.getElem?_cons_succ, List.getElem?_map, Option.map_eq_some_iff] at hn
      obtain ⟨d, hd, rfl⟩ := hn
      exact (hplace i d hd).2
  constructor
  · intro h
    obtain ⟨n, hn, hmem⟩ := hcyclic.mp h
    obtain ⟨i, hi, hget⟩ := List.getElem_of_mem hmem
    exact ⟨i, names.length, n, hi, hat i n (by rw [List.getElem?_eq_getElem hi, hget]), hn⟩
  · rintro ⟨i, j, n, hij, hi, hj⟩
    by_contra hno
    have hend : ∀ m, ix.lineage c names.length = some m → m ∉ names :=
      fun m hm hmem => hno (hcyclic.mpr ⟨m, hm, hmem⟩)
    -- a lineage without repetition ends behind the superclasses
    have hnone : ix.lineage c (names.length + 1) = none := by
      rw [hlength] at hstop hend ⊢
      rw [lineage, line]
      cases hm : ix.line c.superclass? (ix.superclasses c).length with
      | none => rfl
      | some m => simp [(hstop m hm).resolve_right (hend m hm)]
    have hj' : j ≤ names.length := by
      obtain ⟨k, rfl⟩ := Nat.exists_eq_add_one_of_ne_zero (Nat.ne_zero_of_lt hij)
      by_contra hlt
      cases hj.symm.trans (lineage_eq_none hnone (by omega))
    have hget : ∀ k, k < names.length → ix.lineage c k = some n → names[k]? = some n :=
      fun k hk hn => by
        have := hat k names[k] (List.getElem?_eq_getElem hk)
        rw [List.getElem?_eq_getElem hk, ← this, hn]
    have hi' := hget i (by omega) hi
    rcases Nat.lt_or_eq_of_le hj' with hlt | rfl
    · have hsame := (List.getElem?_inj (by omega) hnodup).mp (hi'.trans (hget j hlt hj).symm)
      omega
    · exact hend n hj (List.mem_of_getElem? hi')

/-! ## Hierarchies -/

theorem implementors_strict (ix : Index) (n : ClassName) :
    (ix.implementors n).Pairwise fun c d => c.name.text < d.name.text :=
  byName_strict walk_filter_nodup

theorem allInterfaces_strict (ix : Index) (c : ClassInfo) :
    (ix.allInterfaces c).Pairwise fun c d => c.name.text < d.name.text :=
  byName_strict walk_nodup.1

/-- **Hierarchies are found exactly as the index has them**, cyclic ones included: the classes below
a name that have instances, the interfaces of a class, its superclasses, and whether these lead back
to a class that was there before. -/
theorem hierarchies_exact (ix : Index) :
    (∀ n, (ix.implementors n).Pairwise (fun c d => c.name.text < d.name.text) ∧
      ∀ c, c ∈ ix.implementors n ↔ c ∈ ix.classes ∧ (c.kind = .cls ∧ c.isAbstract = false) ∧
        TransGen ix.Below c.name n) ∧
    (∀ c, (ix.allInterfaces c).Pairwise (fun d e => d.name.text < e.name.text) ∧
      ∀ d, d ∈ ix.allInterfaces c ↔ d ∈ ix.classes ∧
        ∃ s ∈ c :: ix.superclasses c, ∃ n ∈ s.interfaces, ReflTransGen ix.Extends n d.name) ∧
    (∀ c, (c.name :: (ix.superclasses c).map (·.name)).Nodup ∧
      (∀ i d, (ix.superclasses c)[i]? = some d →
        ix.class? d.name = some d ∧ ix.lineage c (i + 1) = some d.name) ∧
      ∀ n, ix.lineage c ((ix.superclasses c).length + 1) = some n →
        ix.class? n = none ∨ n ∈ c.name :: (ix.superclasses c).map (·.name)) ∧
    ∀ c, ix.isCyclic c = true ↔
      ∃ i j n, i < j ∧ ix.lineage c i = some n ∧ ix.lineage c j = some n := by
  refine ⟨fun n => ⟨implementors_strict ix n, fun c => ?_⟩,
    fun c => ⟨allInterfaces_strict ix c, fun d => mem_allInterfaces_iff⟩, superclasses_lineage ix,
    isCyclic_iff ix⟩
  rw [mem_implementors_iff, ClassInfo.isConcrete, Bool.and_eq_true, decide_eq_true_iff,
    Bool.not_eq_true']

end JsonBinding.Index
