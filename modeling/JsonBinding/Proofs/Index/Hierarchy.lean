import JsonBinding.Index.Hierarchy
import Mathlib.Data.List.Nodup

/-!
# Walks of hierarchies

A walk meets exactly the known classes that its start leads to, each of them once.

* `walk_of_seen`, `walk_of_unknown`, `walk_of_known`: the steps of a walk.
* **`walk_closed`**, **`walk_covers`**: a walk meets no more than a closed set that holds its start
  does, and is closed itself.
* `walk_nodup`: no class is met twice.
* `ascent_of_unknown`, `ascent_of_known`, `mem_subtypes`: chains of superclasses, and subtypes.
-/

namespace JsonBinding.Index

/-! ## Walks -/

section Walks

variable {ix : Index} {next : ClassInfo → List ClassName} {seen pending rest : List ClassName}
  {n : ClassName} {c d : ClassInfo}

theorem walk_of_seen (hn : n ∈ seen) :
    ix.walk next seen (n :: rest) = ix.walk next seen rest := by
  rw [walk, dif_pos hn]

theorem walk_of_unknown (hn : n ∉ seen) (hc : ix.class? n = none) :
    ix.walk next seen (n :: rest) = ix.walk next seen rest := by
  rw [walk, dif_neg hn]
  split
  · rfl
  · simp_all

theorem walk_of_known (hn : n ∉ seen) (hc : ix.class? n = some c) :
    ix.walk next seen (n :: rest) = c :: ix.walk next (n :: seen) (next c ++ rest) := by
  rw [walk, dif_neg hn]
  split
  · simp_all
  · rename_i c' hc'
    rw [hc] at hc'
    cases hc'
    rfl

/-- A walk meets only what every closed set that holds its start does. -/
theorem walk_closed (met : ClassName → Prop)
    (hnext : ∀ n c, met n → ix.class? n = some c → ∀ m ∈ next c, met m)
    (hp : ∀ n ∈ pending, met n) : ∀ c ∈ ix.walk next seen pending, met c.name := by
  induction seen, pending using walk.induct ix next with
  | case1 => simp [walk]
  | case2 seen n rest hn ih =>
    rw [walk_of_seen hn]
    exact ih fun m hm => hp m (List.mem_cons_of_mem _ hm)
  | case3 seen n rest hn hc ih =>
    rw [walk_of_unknown hn hc]
    exact ih fun m hm => hp m (List.mem_cons_of_mem _ hm)
  | case4 seen n rest hn c hc ih =>
    rw [walk_of_known hn hc]
    have hmet : met n := hp n List.mem_cons_self
    refine List.forall_mem_cons.mpr ⟨name_of_class? hc ▸ hmet, ih fun m hm => ?_⟩
    rcases List.mem_append.mp hm with hm | hm
    · exact hnext n c hmet hc m hm
    · exact hp m (List.mem_cons_of_mem _ hm)

/-- A walk meets every known class among its start and the classes that those it meets lead to. -/
theorem walk_covers (hc : ix.class? n = some c)
    (h : n ∈ pending ∨ ∃ d ∈ ix.walk next seen pending, n ∈ next d) :
    n ∈ seen ∨ c ∈ ix.walk next seen pending := by
  induction seen, pending using walk.induct ix next with
  | case1 => simp [walk] at h
  | case2 seen m rest hm ih =>
    rw [walk_of_seen hm] at h ⊢
    rcases h with h | h
    · rcases List.mem_cons.mp h with rfl | h
      · exact .inl hm
      · exact ih (.inl h)
    · exact ih (.inr h)
  | case3 seen m rest hm hu ih =>
    rw [walk_of_unknown hm hu] at h ⊢
    rcases h with h | h
    · rcases List.mem_cons.mp h with rfl | h
      · cases hu.symm.trans hc
      · exact ih (.inl h)
    · exact ih (.inr h)
  | case4 seen m rest hm d hd ih =>
    rw [walk_of_known hm hd] at h ⊢
    by_cases hmn : n = m
    · subst hmn
      cases hd.symm.trans hc
      exact .inr List.mem_cons_self
    · have h' : n ∈ next d ++ rest ∨
          ∃ d' ∈ ix.walk next (m :: seen) (next d ++ rest), n ∈ next d' := by
        rcases h with h | ⟨d', hd', h⟩
        · exact .inl (List.mem_append_right _ ((List.mem_cons.mp h).resolve_left hmn))
        · rcases List.mem_cons.mp hd' with rfl | hd'
          · exact .inl (List.mem_append_left _ h)
          · exact .inr ⟨d', hd', h⟩
      rcases ih h' with h | h
      · exact .inl ((List.mem_cons.mp h).resolve_left hmn)
      · exact .inr (List.mem_cons_of_mem _ h)

theorem class?_of_mem_walk (h : c ∈ ix.walk next seen pending) : ix.class? c.name = some c := by
  induction seen, pending using walk.induct ix next with
  | case1 => simp [walk] at h
  | case2 seen n rest hn ih => exact ih (walk_of_seen hn ▸ h)
  | case3 seen n rest hn hc ih => exact ih (walk_of_unknown hn hc ▸ h)
  | case4 seen n rest hn d hd ih =>
    rw [walk_of_known hn hd] at h
    rcases List.mem_cons.mp h with rfl | h
    · rw [name_of_class? hd, hd]
    · exact ih h

theorem walk_nodup :
    ((ix.walk next seen pending).map (·.name)).Nodup ∧
      ∀ c ∈ ix.walk next seen pending, c.name ∉ seen := by
  induction seen, pending using walk.induct ix next with
  | case1 => simp [walk]
  | case2 seen n rest hn ih => rwa [walk_of_seen hn]
  | case3 seen n rest hn hc ih => rwa [walk_of_unknown hn hc]
  | case4 seen n rest hn c hc ih =>
    obtain ⟨hnodup, hseen⟩ := ih
    have hname := name_of_class? hc
    rw [walk_of_known hn hc]
    constructor
    · refine List.nodup_cons.mpr ⟨fun hm => ?_, hnodup⟩
      obtain ⟨d, hd, hdn⟩ := List.mem_map.mp hm
      exact hseen d hd (by simp [hdn, hname])
    · refine List.forall_mem_cons.mpr ⟨hname ▸ hn, fun d hd hs => ?_⟩
      exact hseen d hd (List.mem_cons_of_mem _ hs)

theorem walk_filter_nodup {p : ClassInfo → Bool} :
    (((ix.walk next seen pending).filter p).map (·.name)).Nodup :=
  walk_nodup.1.sublist (List.filter_sublist.map _)

end Walks

/-! ## Chains and subtypes -/

section Chains

variable {ix : Index} {seen : List ClassName} {m n : ClassName} {c : ClassInfo}

theorem ascent_of_unknown (hn : n ∉ seen) (hc : ix.class? n = none) :
    ix.ascent seen (some n) = ([], false) := by
  rw [ascent, dif_neg hn]
  split
  · rfl
  · simp_all

theorem ascent_of_known (hn : n ∉ seen) (hc : ix.class? n = some c) :
    ix.ascent seen (some n) =
      (c :: (ix.ascent (n :: seen) c.superclass?).1,
        (ix.ascent (n :: seen) c.superclass?).2) := by
  rw [ascent, dif_neg hn]
  split
  · simp_all
  · rename_i c' hc'
    rw [hc] at hc'
    cases hc'
    rfl

theorem class?_of_mem (hc : c ∈ ix.classes) : ix.class? c.name = some c := by
  cases hd : ix.class? c.name with
  | none =>
    rw [class?, List.find?_eq_none] at hd
    exact absurd (decide_eq_true rfl) (hd c hc)
  | some d =>
    rw [List.inj_on_of_nodup_map ix.nodup_names (mem_of_class? hd) hc (name_of_class? hd)]

theorem mem_subtypes : m ∈ ix.subtypes n ↔ ∃ c, ix.class? m = some c ∧ n ∈ c.supertypes := by
  simp only [subtypes, List.mem_map, List.mem_filter, decide_eq_true_eq]
  constructor
  · rintro ⟨c, ⟨hc, hn⟩, rfl⟩
    exact ⟨c, class?_of_mem hc, hn⟩
  · rintro ⟨c, hc, hn⟩
    exact ⟨c, ⟨mem_of_class? hc, hn⟩, name_of_class? hc⟩

end Chains

end JsonBinding.Index
