import JsonBinding.Proofs.Generation.Entries
import JsonBinding.Proofs.Index.Annotations
import Mathlib

/-!
# The order of properties

The properties of a class are written under distinct keys: of those found under a key the last one
is kept. Those that the class lists by name come first, in the order of the list, and the others
follow by key.

* `Inspection.nodup_names`: an inspection finds a name once, be it at a getter or at a field.
* `Property.mem_sorted`: what is kept of the properties found; `Property.pairwise_sorted`.
* `Property.front_eq`: what a list of names moves to the front.
* `Property.Arranged`: properties in the order in which they are to be written.
* **`Inspection.arranged_properties`**: the properties of an inspected class are arranged.
-/

namespace JsonBinding

/-! ## Names -/

namespace Inspection

variable {methods : List Method} {fields : List Field} {claimed : List String}

theorem nodup_firstOfEachName (xs : List (String × Method)) :
    ((firstOfEachName xs).map (·.1)).Nodup := by
  induction xs with
  | nil => exact List.nodup_nil
  | cons x rest ih =>
    rw [firstOfEachName, List.map_cons, List.nodup_cons]
    refine ⟨fun h => ?_, ih.sublist (List.filter_sublist.map _)⟩
    obtain ⟨y, hy, he⟩ := List.mem_map.mp h
    exact of_decide_eq_true (List.mem_filter.mp hy).2 he

/-- The names of getter properties are claimed, each of them once. -/
theorem sublist_getterProperties (methods : List Method) (fields : List Field) :
    ((getterProperties methods fields).map (·.name)).Sublist ((claims methods).map (·.1)) := by
  rw [getterProperties]
  induction claims methods with
  | nil => exact .slnil
  | cons x rest ih =>
    rw [List.filterMap_cons]
    dsimp only
    split_ifs
    · exact ih.cons _
    · exact ih.cons_cons _

theorem nodup_fieldProperties (fields : List Field) (claimed : List String) :
    ((fieldProperties fields claimed).map (·.name)).Nodup ∧
      ∀ f ∈ fieldProperties fields claimed, f.name ∉ claimed := by
  induction fields generalizing claimed with
  | nil => exact ⟨List.nodup_nil, by simp [fieldProperties]⟩
  | cons f rest ih =>
    rw [fieldProperties]
    split_ifs with hf
    · obtain ⟨hnodup, hfree⟩ := ih (f.name :: claimed)
      refine ⟨List.nodup_cons.mpr ⟨fun h => ?_, hnodup⟩, List.forall_mem_cons.mpr ⟨?_, ?_⟩⟩
      · obtain ⟨g, hg, he⟩ := List.mem_map.mp h
        exact hfree g hg (he ▸ List.mem_cons_self)
      · simpa using (Bool.and_eq_true_iff.mp hf).2
      · exact fun g hg hm => hfree g hg (List.mem_cons_of_mem _ hm)
    · exact ih claimed

/-- **An inspection finds a name once**, be it at a getter or at a field. -/
theorem nodup_names (ix : Index) (c : ClassInfo) :
    ((ix.inspect c).getters.map (·.name) ++ (ix.inspect c).fields.map (·.name)).Nodup := by
  rw [Index.inspect]
  cases ix.target c with
  | error i => exact List.nodup_nil
  | ok t =>
    have hclaims := nodup_firstOfEachName
      (((t :: ix.superclasses t).flatMap (·.methods)).filterMap fun m =>
        (Bean.property? m).map (·, m))
    have hsub := sublist_getterProperties ((t :: ix.superclasses t).flatMap (·.methods))
      ((t :: ix.superclasses t).flatMap (·.fields))
    obtain ⟨hfields, hfree⟩ := nodup_fieldProperties ((t :: ix.superclasses t).flatMap (·.fields))
      ((claims ((t :: ix.superclasses t).flatMap (·.methods))).map (·.1))
    refine List.nodup_append.mpr ⟨hclaims.sublist hsub, hfields, ?_⟩
    rintro n hn _ hm rfl
    obtain ⟨f, hf, rfl⟩ := List.mem_map.mp hm
    exact hfree f hf (hsub.subset hn)

theorem map_name_registered (i : Inspection) (settings : Settings) :
    (i.registered settings).map (·.name) = i.getters.map (·.name) ++ i.fields.map (·.name) := by
  rw [registered, List.map_append, List.map_map, List.map_map]
  rfl

end Inspection

namespace Property

variable {p q : Property} {ps found : List Property} {names : List String} {n : String}

/-! ## Keys -/

/-- The properties found, by ascending key. -/
abbrev sorted (found : List Property) : List Property :=
  found.foldl (fun ps p => register p ps) []

/-- A property under its key. -/
abbrev keyed (p : Property) : String × Property := (p.key, p)

theorem map_register (p : Property) (ps : List Property) :
    (register p ps).map keyed = putSorted p.key p (ps.map keyed) := by
  induction ps with
  | nil => rfl
  | cons q rest ih =>
    rw [register, List.map_cons, putSorted]
    cases compare p.key q.key with
    | lt => rfl
    | eq => rfl
    | gt => rw [← ih]; rfl

theorem map_foldl_register (found ps : List Property) :
    (found.foldl (fun ps p => register p ps) ps).map keyed =
      enter (ps.map keyed) (found.map keyed) := by
  induction found generalizing ps with
  | nil => rfl
  | cons p rest ih =>
    rw [List.foldl_cons, ih, map_register]
    rfl

theorem map_sorted (found : List Property) :
    (sorted found).map keyed = enter [] (found.map keyed) :=
  map_foldl_register found []

theorem pairwise_sorted (found : List Property) :
    (sorted found).Pairwise fun p q => p.key < q.key := by
  have h : Ascending ((sorted found).map keyed) := by
    rw [map_sorted]
    exact ascending_enter _ .nil
  exact (List.pairwise_map.mp h).imp fun h => compare_lt_iff_lt.mp h

theorem nodup_sorted (found : List Property) : ((sorted found).map (·.key)).Nodup :=
  List.pairwise_map.mpr ((pairwise_sorted found).imp fun h => ne_of_lt h)

theorem eq_of_keyed_eq {q : Property} (h : keyed q = keyed p) : q = p :=
  congrArg Prod.snd h

theorem lookup_keyed (h : (ps.map (·.key)).Nodup) :
    (ps.map keyed).lookup p.key = some p ↔ p ∈ ps := by
  constructor
  · intro hl
    obtain ⟨before, after, hps, -⟩ := List.lookup_eq_some_iff.mp hl
    have hm : keyed p ∈ ps.map keyed := by
      rw [hps]
      exact List.mem_append_right _ List.mem_cons_self
    obtain ⟨q, hq, he⟩ := List.mem_map.mp hm
    exact eq_of_keyed_eq he ▸ hq
  · intro hp
    obtain ⟨before, after, rfl⟩ := List.append_of_mem hp
    rw [List.map_append, List.map_cons, List.nodup_append] at h
    refine List.lookup_eq_some_iff.mpr ⟨before.map keyed, after.map keyed, by simp, fun e he => ?_⟩
    obtain ⟨q, hq, rfl⟩ := List.mem_map.mp he
    simpa using (h.2.2 q.key (List.mem_map_of_mem hq) p.key List.mem_cons_self).symm

/-- **Of the properties found under a key the last one is kept**, and nothing else is. -/
theorem mem_sorted : p ∈ sorted found ↔
    ∃ before after, found = before ++ p :: after ∧ ∀ q ∈ after, q.key ≠ p.key := by
  have hlast : p ∈ sorted found ↔ (found.map keyed).reverse.lookup p.key = some p := by
    rw [← lookup_keyed (nodup_sorted found), map_sorted, lookup_enter, List.lookup_nil,
      Option.or_none]
  rw [hlast, ← List.map_reverse, List.lookup_eq_some_iff]
  constructor
  · rintro ⟨after, before, hfound, hafter⟩
    obtain ⟨after, rest, hsplit, rfl, hrest⟩ := List.map_eq_append_iff.mp hfound
    obtain ⟨q, before, rfl, hq, rfl⟩ := List.map_eq_cons_iff.mp hrest
    obtain rfl := eq_of_keyed_eq hq
    refine ⟨before.reverse, after.reverse, ?_, fun q hq => ?_⟩
    · rw [← List.reverse_reverse found, hsplit]
      simp
    · have := hafter (keyed q) (List.mem_map_of_mem (List.mem_reverse.mp hq))
      exact (bne_iff_ne.mp this).symm
  · rintro ⟨before, after, rfl, hafter⟩
    refine ⟨after.reverse.map keyed, before.reverse.map keyed, by simp, fun e he => ?_⟩
    obtain ⟨q, hq, rfl⟩ := List.mem_map.mp he
    exact bne_iff_ne.mpr (hafter q (List.mem_reverse.mp hq)).symm

theorem exists_sorted {q : Property} (hq : q ∈ found) : ∃ p ∈ sorted found, p.key = q.key := by
  obtain ⟨p, hp⟩ := Option.isSome_iff_exists.mp
    (List.find?_isSome (p := fun p => p.key == q.key) |>.mpr
      ⟨q, List.mem_reverse.mpr hq, beq_self_eq_true _⟩)
  obtain ⟨hkey, after, before, hfound, hafter⟩ := List.find?_eq_some_iff_append.mp hp
  refine ⟨p, mem_sorted.mpr ⟨before.reverse, after.reverse, ?_, fun r hr h => ?_⟩, eq_of_beq hkey⟩
  · rw [← List.reverse_reverse found, hfound]
    simp
  · have := hafter r (List.mem_reverse.mp hr)
    simp [h, eq_of_beq hkey] at this

/-! ## Listed names -/

theorem eraseP_name (hn : (ps.map (·.name)).Nodup) :
    ps.eraseP (·.name == n) = ps.filter (·.name ≠ n) := by
  induction ps with
  | nil => rfl
  | cons p rest ih =>
    obtain ⟨hp, hrest⟩ := List.nodup_cons.mp hn
    by_cases h : p.name = n
    · rw [List.eraseP_cons_of_pos (by simp [h]), List.filter_cons_of_neg (by simp [h])]
      refine (List.filter_eq_self.mpr fun q hq => ?_).symm
      refine decide_eq_true fun hqn => ?_
      exact hp (List.mem_map.mpr ⟨q, hq, hqn.trans h.symm⟩)
    · rw [List.eraseP_cons_of_neg (by simp [h]), List.filter_cons_of_pos (by simp [h]), ih hrest]

theorem front_perm (names : List String) (ps : List Property) : (front names ps).Perm ps := by
  induction names generalizing ps with
  | nil => exact .refl _
  | cons n names ih =>
    rw [front]
    cases hfind : ps.find? (·.name == n) with
    | none => exact ih ps
    | some p =>
      obtain ⟨hp, before, after, rfl, hbefore⟩ := List.find?_eq_some_iff_append.mp hfind
      have herase : (before ++ p :: after).eraseP (·.name == n) = before ++ after := by
        rw [List.eraseP_append_right _ (by simpa using hbefore),
          List.eraseP_cons_of_pos (p := fun q : Property => q.name == n) hp]
      dsimp only
      rw [herase]
      exact ((ih _).cons p).trans List.perm_middle.symm

/-- **What a list of names moves to the front**: the properties with these names, in the order in
which the names come first. The others stay as they are. -/
theorem front_eq (names : List String) (hn : (ps.map (·.name)).Nodup) :
    ∃ listed, front names ps = listed ++ ps.filter (·.name ∉ names) ∧
      (∀ p, p ∈ listed ↔ p ∈ ps ∧ p.name ∈ names) ∧
      listed.Pairwise fun p q => names.idxOf p.name < names.idxOf q.name := by
  induction names generalizing ps with
  | nil => exact ⟨[], by simp [front], by simp, .nil⟩
  | cons n names ih =>
    have hne : ∀ {m : String}, m ≠ n → (n :: names).idxOf m = names.idxOf m + 1 :=
      fun hm => List.idxOf_cons_ne _ (Ne.symm hm)
    rw [front]
    cases hfind : ps.find? (·.name == n) with
    | none =>
      have hnone : ∀ p ∈ ps, p.name ≠ n := by simpa using hfind
      obtain ⟨listed, hfront, hmem, horder⟩ := ih hn
      refine ⟨listed, ?_, fun p => ?_, horder.imp_of_mem fun {p q} hp hq h => ?_⟩
      · dsimp only
        rw [hfront]
        congr 1
        refine List.filter_congr fun p hp => ?_
        simp [hnone p hp]
      · rw [hmem, List.mem_cons]
        exact and_congr_right fun hp => (or_iff_right (hnone p hp)).symm
      · rw [hne (hnone p ((hmem p).mp hp).1), hne (hnone q ((hmem q).mp hq).1)]
        exact Nat.succ_lt_succ h
    | some p =>
      obtain rfl : p.name = n := by simpa using List.find?_some hfind
      have hp := List.mem_of_find?_eq_some hfind
      have hsame : ∀ q ∈ ps, q.name = p.name → q = p :=
        fun q hq h => List.inj_on_of_nodup_map hn hq hp h
      obtain ⟨listed, hfront, hmem, horder⟩ :=
        ih (hn.sublist ((List.filter_sublist (p := (·.name ≠ p.name))).map _))
      have hother : ∀ q ∈ listed, q.name ≠ p.name := fun q hq => by
        simpa using (List.mem_filter.mp ((hmem q).mp hq).1).2
      refine ⟨p :: listed, ?_, fun q => ?_, List.pairwise_cons.mpr ⟨fun q hq => ?_, ?_⟩⟩
      · dsimp only
        rw [eraseP_name hn, hfront, List.filter_filter, List.cons_append]
        congr 2
        refine List.filter_congr fun q _ => ?_
        simp [Bool.and_comm]
      · by_cases hq : q.name = p.name
        · simp only [List.mem_cons, hq, true_or, and_true]
          exact ⟨fun h => h.elim (· ▸ hp) fun h => absurd hq (hother q h),
            fun h => .inl (hsame q h hq)⟩
        · have hqp : q ≠ p := fun h => hq (h ▸ rfl)
          simp [hmem, hq, hqp]
      · rw [List.idxOf_cons_self, hne (hother q hq)]
        exact Nat.succ_pos _
      · refine horder.imp_of_mem fun {q r} hq hr h => ?_
        rw [hne (hother q hq), hne (hother r hr)]
        exact Nat.succ_lt_succ h

/-! ## Arrangements -/

/-- Whether properties are the ones to write of those found, in the order in which they are to be
written, when some names are listed. -/
structure Arranged (found : List Property) (names : List String) (descends : Bool)
    (ps : List Property) : Prop where
  /-- The last property found under a key is written, and nothing else. -/
  mem : ∀ p, p ∈ ps ↔ ∃ before after, found = before ++ p :: after ∧ ∀ q ∈ after, q.key ≠ p.key
  /-- There is just one under each key. -/
  unique : ∀ q ∈ found, ∃! p, p ∈ ps ∧ p.key = q.key
  nodup_keys : (ps.map (·.key)).Nodup
  /-- Listed properties come first, by the first mention of their names, and the others by key. -/
  order : ∃ listed rest, ps = listed ++ rest ∧
    (∀ p ∈ listed, p.name ∈ names) ∧ (∀ p ∈ rest, p.name ∉ names) ∧
    (listed.Pairwise fun p q => names.idxOf p.name < names.idxOf q.name) ∧
    rest.Pairwise fun p q => if descends then q.key < p.key else p.key < q.key

end Property

namespace Inspection

open Property (sorted nodup_sorted mem_sorted exists_sorted pairwise_sorted front_eq)

variable {i : Inspection} {settings : Settings}

/-- The properties by key, as far as names are not listed. -/
abbrev ordered (i : Inspection) (settings : Settings) : List Property :=
  if settings.keyOrder.descends then (sorted (i.registered settings)).reverse
  else sorted (i.registered settings)

theorem perm_ordered (i : Inspection) (settings : Settings) :
    (i.ordered settings).Perm (sorted (i.registered settings)) := by
  rw [ordered]
  split_ifs
  · exact List.reverse_perm _
  · exact .refl _

theorem pairwise_ordered (i : Inspection) (settings : Settings) :
    (i.ordered settings).Pairwise fun p q =>
      if settings.keyOrder.descends then q.key < p.key else p.key < q.key := by
  rw [ordered]
  have h := pairwise_sorted (i.registered settings)
  cases settings.keyOrder.descends with
  | true => exact List.pairwise_reverse.mpr h
  | false => exact h

theorem perm_properties (i : Inspection) (settings : Settings) :
    (i.properties settings).Perm (i.ordered settings) := Property.front_perm _ _

theorem nodup_keys (i : Inspection) (settings : Settings) :
    ((i.properties settings).map (·.key)).Nodup :=
  (((perm_properties i settings).trans (perm_ordered i settings)).map _).nodup_iff.mpr
    (nodup_sorted _)

/-- Properties that are found under distinct names are written in their order by key, but for the
names that are listed. -/
theorem arranged_of_nodup (hn : ((i.registered settings).map (·.name)).Nodup) :
    Property.Arranged (i.registered settings) i.annotations.listedNames
      settings.keyOrder.descends (i.properties settings) := by
  have hperm := perm_ordered i settings
  have hkeys : ((i.ordered settings).map (·.key)).Nodup :=
    (hperm.map _).nodup_iff.mpr (nodup_sorted _)
  have hnames : ((i.ordered settings).map (·.name)).Nodup := by
    refine hkeys.of_map.map_on fun p hp q hq h => ?_
    have hfound : ∀ p ∈ i.ordered settings, p ∈ i.registered settings := by
      intro p hp
      obtain ⟨before, after, h, -⟩ := mem_sorted.mp (hperm.mem_iff.mp hp)
      exact h ▸ List.mem_append_right _ List.mem_cons_self
    exact List.inj_on_of_nodup_map hn (hfound p hp) (hfound q hq) h
  obtain ⟨listed, hfront, hmem, horder⟩ := front_eq i.annotations.listedNames hnames
  have hps : i.properties settings =
      listed ++ (i.ordered settings).filter (·.name ∉ i.annotations.listedNames) := hfront
  have hfound : ∀ p, p ∈ i.properties settings ↔ p ∈ sorted (i.registered settings) :=
    fun p => (perm_properties i settings).mem_iff.trans hperm.mem_iff
  refine ⟨fun p => (hfound p).trans mem_sorted, fun q hq => ?_, nodup_keys i settings, ?_⟩
  · obtain ⟨p, hp, hkey⟩ := exists_sorted hq
    refine ⟨p, ⟨(hfound p).mpr hp, hkey⟩, fun r hr => ?_⟩
    exact List.inj_on_of_nodup_map (nodup_keys i settings) hr.1 ((hfound p).mpr hp)
      (hr.2.trans hkey.symm)
  · exact ⟨listed, _, hps, fun p hp => ((hmem p).mp hp).2,
      fun p hp => of_decide_eq_true (List.mem_filter.mp hp).2, horder,
      (pairwise_ordered i settings).sublist List.filter_sublist⟩

/-- **The properties of an inspected class are arranged.** Of those found, the getters first, the
last one under each key is written; those that the class lists come first, in the order of the list,
and the others follow by ascending key, or by descending key when the settings ask for it. -/
theorem arranged_properties (ix : Index) (c : ClassInfo) (settings : Settings) :
    Property.Arranged ((ix.inspect c).registered settings)
      (ix.inspect c).annotations.listedNames settings.keyOrder.descends
      ((ix.inspect c).properties settings) := by
  refine arranged_of_nodup ?_
  rw [map_name_registered]
  exact nodup_names ix c

end Inspection

end JsonBinding
