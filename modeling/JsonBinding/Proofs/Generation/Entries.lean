import JsonBinding.Generation
import Mathlib.Tactic.SplitIfs

/-!
# Sorted entries

Entries by ascending key are a finite map: of several entries with one key the last one counts.

* `Ascending`: entries whose keys strictly ascend.
* `enter`: some entries, entered one after the other.
* **`enter_eq_iff`**: when entries that are entered come to the same.
-/

namespace JsonBinding

open Std

variable {α β : Type} {k l : String} {a : α} {m m' : List (String × α)}

/-- Entries whose keys strictly ascend. -/
abbrev Ascending (m : List (String × α)) : Prop := m.Pairwise fun e e' => compare e.1 e'.1 = .lt

/-- Entries with some more entered, the first one first. -/
def enter (m : List (String × α)) (entries : List (String × α)) : List (String × α) :=
  entries.foldl (fun m e => putSorted e.1 e.2 m) m

theorem mem_putSorted {e : String × α} (h : e ∈ putSorted k a m) : e = (k, a) ∨ e ∈ m := by
  induction m with
  | nil => exact .inl (List.mem_singleton.mp h)
  | cons e' rest ih =>
    rw [putSorted] at h
    split at h
    · exact List.mem_cons.mp h
    · exact (List.mem_cons.mp h).imp id (List.mem_cons_of_mem _)
    · rcases List.mem_cons.mp h with rfl | h
      · exact .inr List.mem_cons_self
      · exact (ih h).imp id (List.mem_cons_of_mem _)

theorem ascending_putSorted (h : Ascending m) : Ascending (putSorted k a m) := by
  induction m with
  | nil => exact List.pairwise_singleton _ _
  | cons e rest ih =>
    obtain ⟨he, hrest⟩ := List.pairwise_cons.mp h
    rw [putSorted]
    split
    · rename_i hlt
      refine List.pairwise_cons.mpr ⟨fun e' he' => ?_, h⟩
      rcases List.mem_cons.mp he' with rfl | he'
      · exact hlt
      · exact TransCmp.lt_trans hlt (he e' he')
    · rename_i heq
      rw [Std.compare_eq_iff_eq] at heq
      exact List.pairwise_cons.mpr ⟨fun e' he' => heq ▸ he e' he', hrest⟩
    · rename_i hgt
      refine List.pairwise_cons.mpr ⟨fun e' he' => ?_, ih hrest⟩
      rcases mem_putSorted he' with rfl | he'
      · exact OrientedCmp.gt_iff_lt.mp hgt
      · exact he e' he'

theorem ascending_enter (entries : List (String × α)) (h : Ascending m) :
    Ascending (enter m entries) := by
  induction entries generalizing m with
  | nil => exact h
  | cons e rest ih => exact ih (ascending_putSorted h)

theorem putSorted_of_lt (h : ∀ e ∈ m, compare e.1 k = .lt) : putSorted k a m = m ++ [(k, a)] := by
  induction m with
  | nil => rfl
  | cons e rest ih =>
    have hgt : compare k e.1 = .gt := OrientedCmp.gt_iff_lt.mpr (h e List.mem_cons_self)
    simp only [putSorted, hgt, ih fun e' he' => h e' (List.mem_cons_of_mem _ he'),
      List.cons_append]

theorem enter_of_ascending {entries : List (String × α)} (h : Ascending (m ++ entries)) :
    enter m entries = m ++ entries := by
  induction entries generalizing m with
  | nil => rw [List.append_nil]; rfl
  | cons e rest ih =>
    have hlast : putSorted e.1 e.2 m = m ++ [e] :=
      putSorted_of_lt fun e' he' => (List.pairwise_append.mp h).2.2 e' he' e List.mem_cons_self
    show enter (putSorted e.1 e.2 m) rest = m ++ e :: rest
    rw [hlast, ih (by rwa [List.append_assoc]), List.append_assoc, List.singleton_append]

theorem lookup_cons_eq (e : String × α) :
    (e :: m).lookup k = if k = e.1 then some e.2 else m.lookup k := by
  rw [List.lookup_cons]
  by_cases hk : k = e.1
  · simp [hk]
  · rw [beq_eq_false_iff_ne.mpr hk, if_neg hk]

theorem lookup_putSorted : (putSorted k a m).lookup l = if l = k then some a else m.lookup l := by
  induction m with
  | nil => exact lookup_cons_eq _
  | cons e rest ih =>
    rw [putSorted]
    split
    · exact lookup_cons_eq _
    · rename_i heq
      rw [Std.compare_eq_iff_eq] at heq
      subst heq
      rw [lookup_cons_eq, lookup_cons_eq]
      split_ifs <;> rfl
    · rename_i hgt
      have hne : k ≠ e.1 := by
        intro heq
        rw [Std.compare_eq_iff_eq.mpr heq] at hgt
        cases hgt
      rw [lookup_cons_eq, lookup_cons_eq, ih]
      by_cases hl : l = e.1
      · rw [if_pos hl, if_pos hl, if_neg fun h => hne (h.symm.trans hl)]
      · rw [if_neg hl, if_neg hl]

/-- Of several entries with one key the last one counts. -/
theorem lookup_enter (entries : List (String × α)) :
    (enter m entries).lookup k = (entries.reverse.lookup k).or (m.lookup k) := by
  induction entries generalizing m with
  | nil => rfl
  | cons e rest ih =>
    show (enter (putSorted e.1 e.2 m) rest).lookup k = _
    rw [ih, lookup_putSorted, List.reverse_cons, List.lookup_append, Option.or_assoc]
    congr 1
    rw [lookup_cons_eq]
    split_ifs <;> rfl

theorem lookup_eq_none (h : ∀ e ∈ m, compare k e.1 = .lt) : m.lookup k = none := by
  induction m with
  | nil => rfl
  | cons e rest ih =>
    have hne : k ≠ e.1 := by
      intro heq
      have := h e List.mem_cons_self
      rw [Std.compare_eq_iff_eq.mpr heq] at this
      cases this
    rw [lookup_cons_eq, if_neg hne]
    exact ih fun e' he' => h e' (List.mem_cons_of_mem _ he')

theorem lookup_eq_none_of_lt {e : String × α} (h : Ascending (e :: m)) (hk : compare k e.1 = .lt) :
    (e :: m).lookup k = none := by
  refine lookup_eq_none fun e' he' => ?_
  rcases List.mem_cons.mp he' with rfl | he'
  · exact hk
  · exact TransCmp.lt_trans hk ((List.pairwise_cons.mp h).1 e' he')

theorem Ascending.ext (h : Ascending m) (h' : Ascending m') (hl : ∀ k, m.lookup k = m'.lookup k) :
    m = m' := by
  induction m generalizing m' with
  | nil =>
    cases m' with
    | nil => rfl
    | cons e' rest' =>
      have := hl e'.1
      rw [lookup_cons_eq, if_pos rfl] at this
      cases this
  | cons e rest ih =>
    cases m' with
    | nil =>
      have := hl e.1
      rw [lookup_cons_eq, if_pos rfl] at this
      cases this
    | cons e' rest' =>
      have hkey : e.1 = e'.1 := by
        rw [← Std.compare_eq_iff_eq]
        cases hc : compare e.1 e'.1 with
        | eq => rfl
        | lt =>
          have := hl e.1
          rw [lookup_eq_none_of_lt h' hc, lookup_cons_eq, if_pos rfl] at this
          cases this
        | gt =>
          have := hl e'.1
          rw [lookup_eq_none_of_lt h (OrientedCmp.gt_iff_lt.mp hc), lookup_cons_eq,
            if_pos rfl] at this
          cases this
      obtain ⟨key, a⟩ := e
      obtain ⟨_, a'⟩ := e'
      cases hkey
      have hvalue := hl key
      rw [lookup_cons_eq, lookup_cons_eq, if_pos rfl, if_pos rfl] at hvalue
      cases hvalue
      obtain ⟨he, hrest⟩ := List.pairwise_cons.mp h
      obtain ⟨he', hrest'⟩ := List.pairwise_cons.mp h'
      congr 1
      refine ih hrest hrest' fun k => ?_
      by_cases hk : k = key
      · subst hk
        rw [lookup_eq_none he, lookup_eq_none he']
      · have := hl k
        rw [lookup_cons_eq, lookup_cons_eq, if_neg hk, if_neg hk] at this
        exact this

/-- **Entries come to the same when the last ones of every key are the same.** -/
theorem enter_eq_iff (es es' : List (String × α)) :
    enter [] es = enter [] es' ↔ ∀ k, es.reverse.lookup k = es'.reverse.lookup k := by
  have hl : ∀ k (es : List (String × α)), (enter [] es).lookup k = es.reverse.lookup k := by
    intro k es
    rw [lookup_enter, List.lookup_nil, Option.or_none]
  constructor
  · intro h k
    rw [← hl, h, hl]
  · intro h
    refine (ascending_enter es .nil).ext (ascending_enter es' .nil) fun k => ?_
    rw [hl, hl, h]

/-- What is done to the values of entries may be done before they are entered. -/
theorem map_putSorted (f : α → β) :
    (putSorted k a m).map (Prod.map id f) = putSorted k (f a) (m.map (Prod.map id f)) := by
  induction m with
  | nil => rfl
  | cons e rest ih =>
    rw [putSorted, List.map_cons, putSorted, Prod.map_fst, id_eq]
    cases compare k e.1 with
    | lt => rfl
    | eq => rfl
    | gt => simp only [List.map_cons, ih]

theorem map_enter (f : α → β) (entries : List (String × α)) :
    (enter m entries).map (Prod.map id f) =
      enter (m.map (Prod.map id f)) (entries.map (Prod.map id f)) := by
  induction entries generalizing m with
  | nil => rfl
  | cons e rest ih =>
    show (enter (putSorted e.1 e.2 m) rest).map _ =
      enter (putSorted e.1 (f e.2) (m.map (Prod.map id f))) (rest.map (Prod.map id f))
    rw [ih, map_putSorted]

end JsonBinding
