import JsonBinding.Inspection
import JsonBinding.Proofs.Index.Hierarchy
import Mathlib.Data.List.Forall2
import Mathlib.Data.List.Sort

/-!
# Reordered indexes

What is found out about a class does not depend on the order in which an index lists classes and
interfaces.

* `forall₂_byName`: the order of names is the same for the same classes.
* `ClassInfo.Reordered`, `Index.Reordered`: classes and indexes that differ in order only.
* **`Reordered.inspect?`**: reordered indexes find out the same about every class.
-/

namespace JsonBinding

/-- Whether a class is another one but for the order of its interfaces and how often it names
them. -/
def ClassInfo.Reordered (c c' : ClassInfo) : Prop :=
  ∃ interfaces, c' = { c with interfaces } ∧ ∀ n, n ∈ c.interfaces ↔ n ∈ interfaces

namespace ClassInfo.Reordered

variable {c c' : ClassInfo}

theorem refl (c : ClassInfo) : c.Reordered c := ⟨_, rfl, fun _ => Iff.rfl⟩

theorem symm (h : c.Reordered c') : c'.Reordered c := by
  obtain ⟨interfaces, rfl, hi⟩ := h
  exact ⟨_, rfl, fun n => (hi n).symm⟩

theorem name (h : c.Reordered c') : c'.name = c.name := by
  obtain ⟨_, rfl, -⟩ := h
  rfl

theorem mem_interfaces (h : c.Reordered c') (n : ClassName) :
    n ∈ c.interfaces ↔ n ∈ c'.interfaces := by
  obtain ⟨_, rfl, hi⟩ := h
  exact hi n

theorem mem_supertypes (h : c.Reordered c') (n : ClassName) :
    n ∈ c.supertypes ↔ n ∈ c'.supertypes := by
  obtain ⟨_, rfl, hi⟩ := h
  simp only [supertypes, List.mem_append, hi]

theorem mem_flatMap_interfaces {cs cs' : List ClassInfo}
    (h : List.Forall₂ ClassInfo.Reordered cs cs') (n : ClassName) :
    n ∈ cs.flatMap (·.interfaces) ↔ n ∈ cs'.flatMap (·.interfaces) := by
  induction h with
  | nil => rfl
  | cons hr _ ih =>
    rw [List.flatMap_cons, List.flatMap_cons, List.mem_append, List.mem_append,
      hr.mem_interfaces, ih]

theorem map_eq {α : Type} {cs cs' : List ClassInfo} (f : ClassInfo → α)
    (hf : ∀ c interfaces, f { c with interfaces } = f c)
    (h : List.Forall₂ ClassInfo.Reordered cs cs') : cs.map f = cs'.map f := by
  induction h with
  | nil => rfl
  | cons hr _ ih =>
    obtain ⟨_, rfl, -⟩ := hr
    rw [List.map_cons, List.map_cons, ih, ← hf]

theorem flatMap_eq {α : Type} {cs cs' : List ClassInfo} (f : ClassInfo → List α)
    (hf : ∀ c interfaces, f { c with interfaces } = f c)
    (h : List.Forall₂ ClassInfo.Reordered cs cs') : cs.flatMap f = cs'.flatMap f := by
  rw [List.flatMap_def, List.flatMap_def, map_eq f hf h]

end ClassInfo.Reordered

namespace Index

open ClassInfo.Reordered (map_eq flatMap_eq mem_flatMap_interfaces)

/-! ## Classes by name -/

section ByName

variable {cs cs' : List ClassInfo}

theorem byName_perm (cs : List ClassInfo) : (byName cs).Perm cs := List.mergeSort_perm _ _

theorem byName_sorted (cs : List ClassInfo) :
    (byName cs).Pairwise fun c d => c.name.text ≤ d.name.text := by
  refine (List.pairwise_mergeSort (fun a b c hab hbc => ?_) (fun a b => ?_) cs).imp fun h => ?_
  · simp only [decide_eq_true_eq] at hab hbc ⊢
    exact String.le_trans hab hbc
  · simp only [Bool.or_eq_true, decide_eq_true_eq]
    exact String.le_total _ _
  · simpa using h

theorem names_byName (hn : (cs.map (·.name)).Nodup) (hn' : (cs'.map (·.name)).Nodup)
    (h : ∀ n, n ∈ cs.map (·.name) ↔ n ∈ cs'.map (·.name)) :
    (byName cs).map (·.name) = (byName cs').map (·.name) := by
  have hp : ((byName cs).map (·.name)).Perm ((byName cs').map (·.name)) :=
    ((byName_perm cs).map _).trans
      (((List.perm_ext_iff_of_nodup hn hn').mpr h).trans ((byName_perm cs').map _).symm)
  have hs : ∀ cs, ((byName cs).map (·.name)).Pairwise fun m n => m.text ≤ n.text :=
    fun cs => List.pairwise_map.mpr (byName_sorted cs)
  refine hp.eq_of_pairwise (fun m n _ _ hmn hnm => ?_) (hs cs) (hs cs')
  cases m
  cases n
  exact congrArg ClassName.mk (String.le_antisymm hmn hnm)

/-- Classes that are reorderings of each other are so one by one in the order of their names. -/
theorem forall₂_byName (hn : (cs.map (·.name)).Nodup) (hn' : (cs'.map (·.name)).Nodup)
    (h : ∀ c ∈ cs, ∃ c' ∈ cs', c.Reordered c') (h' : ∀ c' ∈ cs', ∃ c ∈ cs, c'.Reordered c) :
    List.Forall₂ ClassInfo.Reordered (byName cs) (byName cs') := by
  have hnames := names_byName hn hn' fun n => by
    constructor
    · intro hm
      obtain ⟨c, hc, rfl⟩ := List.mem_map.mp hm
      obtain ⟨c', hc', hr⟩ := h c hc
      exact List.mem_map.mpr ⟨c', hc', hr.name⟩
    · intro hm
      obtain ⟨c', hc', rfl⟩ := List.mem_map.mp hm
      obtain ⟨c, hc, hr⟩ := h' c' hc'
      exact List.mem_map.mpr ⟨c, hc, hr.name⟩
  have hsame : ∀ c ∈ byName cs, ∀ c' ∈ byName cs', c.name = c'.name → c.Reordered c' := by
    intro c hc c' hc' hname
    obtain ⟨d, hd, hr⟩ := h c ((byName_perm cs).mem_iff.mp hc)
    have hdc := List.inj_on_of_nodup_map hn' hd ((byName_perm cs').mem_iff.mp hc')
      (hr.name.trans hname)
    exact hdc ▸ hr
  rw [← List.forall₂_eq_eq_eq, List.forall₂_map_left_iff, List.forall₂_map_right_iff] at hnames
  refine List.forall₂_iff_zip.mpr ⟨hnames.length_eq, fun {c c'} hm => ?_⟩
  exact hsame c (List.of_mem_zip hm).1 c' (List.of_mem_zip hm).2
    ((List.forall₂_iff_zip.mp hnames).2 hm)

end ByName

/-! ## Targets -/

/-- A class that is read for another one, unless it has type parameters or a cyclic hierarchy. -/
def checked (ix : Index) (t : ClassInfo) : Except Impossibility ClassInfo :=
  if !t.typeParameters.isEmpty then .error (.generic t.typeParameters)
  else if ix.isCyclic t then .error .cyclic
  else .ok t

/-- The class that is read for an interface, given its implementors. -/
def only (ix : Index) : List ClassInfo → Except Impossibility ClassInfo
  | [] => .error .noImplementor
  | [t] => ix.checked t
  | many => .error (.ambiguous (many.map (·.name)))

theorem target_eq (ix : Index) (c : ClassInfo) : ix.target c =
    match c.kind with
    | .enum => .error .enum
    | .interface => ix.only (ix.implementors c.name)
    | .cls => if c.isAbstract then .error .abstract else ix.checked c := by
  have hdone : ∀ t : ClassInfo, (do
      if !t.typeParameters.isEmpty then throw (.generic t.typeParameters)
      if ix.isCyclic t then throw .cyclic
      pure t : Except Impossibility ClassInfo) = ix.checked t := by
    intro t
    rw [checked]
    split_ifs <;> rfl
  unfold target
  cases hk : c.kind with
  | enum => rfl
  | interface =>
    rcases ix.implementors c.name with _ | ⟨t, _ | ⟨u, rest⟩⟩
    · rfl
    · exact hdone t
    · rfl
  | cls =>
    cases ha : c.isAbstract with
    | true => rfl
    | false => exact hdone c

/-- Whether what is read for two classes differs in the order of interfaces only. -/
def SameTarget : (x y : Except Impossibility ClassInfo) → Prop
  | .ok t, .ok t' => t.Reordered t'
  | .error i, .error i' => i = i'
  | .ok _, .error _ | .error _, .ok _ => False

/-! ## Reordered indexes -/

/-- Whether the classes and packages of two indexes differ in order only. -/
structure Reordered (ix ix' : Index) : Prop where
  known {n : ClassName} {c : ClassInfo} : ix.class? n = some c →
    ∃ c', ix'.class? n = some c' ∧ c.Reordered c'
  known' {n : ClassName} {c : ClassInfo} : ix'.class? n = some c →
    ∃ c', ix.class? n = some c' ∧ c.Reordered c'
  packageOf? (n : ClassName) : ix.packageOf? n = ix'.packageOf? n

namespace Reordered

variable {ix ix' : Index} {c c' t t' : ClassInfo} {n : ClassName}

theorem symm (h : ix.Reordered ix') : ix'.Reordered ix where
  known := h.known'
  known' := h.known
  packageOf? n := (h.packageOf? n).symm

theorem unknown (h : ix.Reordered ix') (hn : ix.class? n = none) : ix'.class? n = none := by
  by_contra hne
  obtain ⟨c', hc'⟩ := Option.ne_none_iff_exists'.mp hne
  obtain ⟨c, hc, -⟩ := h.known' hc'
  cases hn.symm.trans hc

/-! ## Hierarchies -/

theorem ascent (h : ix.Reordered ix') (seen : List ClassName) (next? : Option ClassName) :
    List.Forall₂ ClassInfo.Reordered (ix.ascent seen next?).1 (ix'.ascent seen next?).1 ∧
      (ix.ascent seen next?).2 = (ix'.ascent seen next?).2 := by
  induction seen, next? using ascent.induct ix with
  | case1 seen => simp [Index.ascent]
  | case2 seen n hn => simp [Index.ascent, hn]
  | case3 seen n hn hc =>
    rw [ascent_of_unknown hn hc, ascent_of_unknown hn (h.unknown hc)]
    exact ⟨.nil, rfl⟩
  | case4 seen n hn c hc chain cyclic he ih =>
    obtain ⟨c', hc', hr⟩ := h.known hc
    have hsuper : c'.superclass? = c.superclass? := by
      obtain ⟨_, rfl, -⟩ := hr
      rfl
    rw [ascent_of_known hn hc, ascent_of_known hn hc', hsuper]
    exact ⟨.cons hr ih.1, ih.2⟩

theorem superclasses (h : ix.Reordered ix') (hc : c.Reordered c') :
    List.Forall₂ ClassInfo.Reordered (ix.superclasses c) (ix'.superclasses c') := by
  obtain ⟨_, rfl, -⟩ := hc
  exact (h.ascent _ _).1

theorem isCyclic (h : ix.Reordered ix') (hc : c.Reordered c') :
    ix.isCyclic c = ix'.isCyclic c' := by
  obtain ⟨_, rfl, -⟩ := hc
  exact (h.ascent _ _).2

theorem walk (h : ix.Reordered ix') {next next' : ClassInfo → List ClassName}
    {pending pending' : List ClassName}
    (hnext : ∀ c c', c.Reordered c' → ∀ n, n ∈ next c ↔ n ∈ next' c')
    (hp : ∀ n, n ∈ pending ↔ n ∈ pending') (hc : c ∈ ix.walk next [] pending) :
    ∃ c' ∈ ix'.walk next' [] pending', c.Reordered c' := by
  have hcov : ∀ {n c'}, ix'.class? n = some c' →
      (n ∈ pending' ∨ ∃ d ∈ ix'.walk next' [] pending', n ∈ next' d) →
      c' ∈ ix'.walk next' [] pending' :=
    fun hc' hn => (walk_covers hc' hn).resolve_left List.not_mem_nil
  have hmet := walk_closed
    (fun n => ∀ c', ix'.class? n = some c' → c' ∈ ix'.walk next' [] pending')
    (fun n d hn hd m hm m' hm' => by
      obtain ⟨d', hd', hr⟩ := h.known hd
      exact hcov hm' (.inr ⟨d', hn d' hd', (hnext d d' hr m).mp hm⟩))
    (fun n hn c' hc' => hcov hc' (.inl ((hp n).mp hn))) c hc
  obtain ⟨c', hc', hr⟩ := h.known (class?_of_mem_walk hc)
  exact ⟨c', hmet c' hc', hr⟩

theorem allInterfaces (h : ix.Reordered ix') (hc : c.Reordered c') :
    List.Forall₂ ClassInfo.Reordered (ix.allInterfaces c) (ix'.allInterfaces c') := by
  have hstart := mem_flatMap_interfaces (.cons hc (h.superclasses hc))
  exact forall₂_byName walk_nodup.1 walk_nodup.1
    (fun d hd => h.walk (fun _ _ hr => hr.mem_interfaces) hstart hd)
    (fun d hd => h.symm.walk (fun _ _ hr => hr.mem_interfaces) (fun n => (hstart n).symm) hd)

theorem mem_subtypes (h : ix.Reordered ix') {m n : ClassName} :
    m ∈ ix.subtypes n ↔ m ∈ ix'.subtypes n := by
  rw [Index.mem_subtypes, Index.mem_subtypes]
  constructor
  · rintro ⟨d, hd, hs⟩
    obtain ⟨d', hd', hr⟩ := h.known hd
    exact ⟨d', hd', (hr.mem_supertypes n).mp hs⟩
  · rintro ⟨d, hd, hs⟩
    obtain ⟨d', hd', hr⟩ := h.known' hd
    exact ⟨d', hd', (hr.mem_supertypes n).mp hs⟩

theorem concrete (h : ix.Reordered ix')
    (hc : c ∈ (ix.walk (fun c => ix.subtypes c.name) [] (ix.subtypes n)).filter (·.isConcrete)) :
    ∃ c' ∈ (ix'.walk (fun c => ix'.subtypes c.name) [] (ix'.subtypes n)).filter (·.isConcrete),
      c.Reordered c' := by
  obtain ⟨hc, hi⟩ := List.mem_filter.mp hc
  have hmet : ∃ c' ∈ ix'.walk (fun c => ix'.subtypes c.name) [] (ix'.subtypes n),
      c.Reordered c' :=
    h.walk (fun d d' hd m => by rw [hd.name]; exact h.mem_subtypes) (fun m => h.mem_subtypes) hc
  obtain ⟨c', hc', hr⟩ := hmet
  refine ⟨c', List.mem_filter.mpr ⟨hc', ?_⟩, hr⟩
  obtain ⟨_, rfl, -⟩ := hr
  exact hi

theorem implementors (h : ix.Reordered ix') (n : ClassName) :
    List.Forall₂ ClassInfo.Reordered (ix.implementors n) (ix'.implementors n) :=
  forall₂_byName walk_filter_nodup walk_filter_nodup (fun _ hc => h.concrete hc)
    fun _ hc => h.symm.concrete hc

/-! ## Inspections -/

theorem checked (h : ix.Reordered ix') (hc : c.Reordered c') :
    SameTarget (ix.checked c) (ix'.checked c') := by
  have hcyc := h.isCyclic hc
  have hparams : c'.typeParameters = c.typeParameters := by
    obtain ⟨_, rfl, -⟩ := hc
    rfl
  rw [Index.checked, Index.checked, hcyc, hparams]
  split_ifs
  · rfl
  · rfl
  · exact hc

theorem only (h : ix.Reordered ix') {ts ts' : List ClassInfo}
    (ht : List.Forall₂ ClassInfo.Reordered ts ts') : SameTarget (ix.only ts) (ix'.only ts') := by
  cases ht with
  | nil => rfl
  | cons hr hrest =>
    cases hrest with
    | nil => exact h.checked hr
    | cons hr' hrest =>
      have hnames := map_eq (·.name) (fun _ _ => rfl) (.cons hr (.cons hr' hrest))
      exact congrArg Impossibility.ambiguous hnames

theorem target (h : ix.Reordered ix') (hc : c.Reordered c') :
    SameTarget (ix.target c) (ix'.target c') := by
  have hname := hc.name
  have himpl := h.implementors c.name
  have hself := h.checked hc
  have hkind : c'.kind = c.kind ∧ c'.isAbstract = c.isAbstract := by
    obtain ⟨_, rfl, -⟩ := hc
    exact ⟨rfl, rfl⟩
  rw [target_eq, target_eq, hkind.1, hkind.2, hname]
  cases c.kind with
  | enum => rfl
  | interface => exact h.only himpl
  | cls =>
    simp only
    split_ifs
    · rfl
    · exact hself

theorem classAnnotations (h : ix.Reordered ix') (hc : c.Reordered c') :
    ix.classAnnotations c = ix'.classAnnotations c' := by
  have habove := flatMap_eq (fun s => AnnotationSet.found .inherited s.annotations)
    (fun _ _ => rfl) (List.rel_append (h.superclasses hc) (h.allInterfaces hc))
  obtain ⟨_, rfl, -⟩ := hc
  rw [Index.classAnnotations, Index.classAnnotations, habove, h.packageOf?]

theorem inspect (h : ix.Reordered ix') (hc : c.Reordered c') : ix.inspect c = ix'.inspect c' := by
  have htarget := h.target hc
  rw [Index.inspect, Index.inspect, hc.name]
  rcases ht : ix.target c with i | t
  · rcases ht' : ix'.target c' with i' | t'
    · rw [ht, ht'] at htarget
      cases htarget
      rfl
    · rw [ht, ht'] at htarget
      cases htarget
  · rcases ht' : ix'.target c' with i' | t'
    · rw [ht, ht'] at htarget
      cases htarget
    · rw [ht, ht'] at htarget
      have hr : t.Reordered t' := htarget
      have hall := List.Forall₂.cons hr (h.superclasses hr)
      simp only [hr.name, h.classAnnotations hr, flatMap_eq (·.methods) (fun _ _ => rfl) hall,
        flatMap_eq (·.fields) (fun _ _ => rfl) hall]

/-- **Reordered indexes find out the same about every class.** -/
theorem inspect? (h : ix.Reordered ix') (n : ClassName) : ix.inspect? n = ix'.inspect? n := by
  rw [Index.inspect?, Index.inspect?]
  cases hc : ix.class? n with
  | none => rw [h.unknown hc]; rfl
  | some c =>
    obtain ⟨c', hc', hr⟩ := h.known hc
    rw [hc']
    exact congrArg some (h.inspect hr)

end Reordered

end Index

end JsonBinding
