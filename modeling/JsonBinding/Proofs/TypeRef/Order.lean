import JsonBinding.TypeRef.Order
import Mathlib.Data.List.Sort

/-!
# Sorted sets of types

The order of types is a linear order, so that a sorted set is known by its members.

* `TypeRef.cmp` is lawful: instances of `OrientedCmp`, `LawfulEqCmp` and `TransCmp`.
* `TypeRef.Sorted`: lists of types in strictly ascending order.
* **`mem_sortedSet`**, **`sorted_sortedSet`**, **`Sorted.ext`**: a sorted set has the members that
  it is made of, in an order that they alone determine.
-/

namespace JsonBinding.TypeRef

open Std

/-! ## The order -/

variable {a b c t u : TypeRef} {as bs cs ts us : List TypeRef}

theorem name_injective {p q : Primitive} (h : p.name = q.name) : p = q :=
  Option.some.inj ((Primitive.ofName?_name p).symm.trans (h ▸ Primitive.ofName?_name q))

/-- Types of two shapes are in the order of the shapes. -/
theorem cmp_of_rank_ne (h : a.rank ≠ b.rank) : cmp a b = compare a.rank b.rank := by
  cases a <;> cases b <;> first | rfl | exact absurd rfl h

theorem rank_eq_of_cmp (h : cmp a b = .eq) : a.rank = b.rank := by
  by_contra hne
  rw [cmp_of_rank_ne hne, Nat.compare_eq_eq] at h
  exact hne h

theorem rank_le_of_cmp (h : cmp a b = .lt) : a.rank ≤ b.rank := by
  by_cases hne : a.rank = b.rank
  · exact Nat.le_of_eq hne
  · rw [cmp_of_rank_ne hne, Nat.compare_eq_lt] at h
    exact Nat.le_of_lt h

mutual

theorem eq_of_cmp : ∀ a b, cmp a b = .eq → a = b
  | .prim p, b, h => by
    cases b with
    | prim q =>
      rw [cmp, Std.compare_eq_iff_eq] at h
      rw [name_injective h]
    | _ => cases rank_eq_of_cmp h
  | .cls m, b, h => by
    cases b with
    | cls n =>
      rw [cmp, Std.compare_eq_iff_eq] at h
      cases m; cases n; cases h; rfl
    | _ => cases rank_eq_of_cmp h
  | .array a, b, h => by
    cases b with
    | array b => rw [eq_of_cmp a b h]
    | _ => cases rank_eq_of_cmp h
  | .app m as, b, h => by
    cases b with
    | app n bs =>
      rw [cmp, Ordering.then_eq_eq, Std.compare_eq_iff_eq] at h
      cases m; cases n; cases h.1
      rw [eq_of_cmpAll as bs h.2]
    | _ => cases rank_eq_of_cmp h
  | .var m, b, h => by
    cases b with
    | var n =>
      rw [cmp, Std.compare_eq_iff_eq] at h
      rw [h]
    | _ => cases rank_eq_of_cmp h
  | .wildcard, b, h => by
    cases b with
    | wildcard => rfl
    | _ => cases rank_eq_of_cmp h

theorem eq_of_cmpAll : ∀ as bs, cmpAll as bs = .eq → as = bs
  | [], bs, h => by
    cases bs with
    | nil => rfl
    | cons b bs => cases h
  | a :: as, bs, h => by
    cases bs with
    | nil => cases h
    | cons b bs =>
      rw [cmpAll, Ordering.then_eq_eq] at h
      rw [eq_of_cmp a b h.1, eq_of_cmpAll as bs h.2]

end

mutual

theorem cmp_swap : ∀ a b, cmp a b = (cmp b a).swap
  | .prim p, b => by
    cases b with
    | prim q => exact OrientedOrd.eq_swap
    | _ => rfl
  | .cls m, b => by
    cases b with
    | cls n => exact OrientedOrd.eq_swap
    | _ => rfl
  | .array a, b => by
    cases b with
    | array b => exact cmp_swap a b
    | _ => rfl
  | .app m as, b => by
    cases b with
    | app n bs =>
      rw [cmp, cmp, Ordering.swap_then, ← OrientedOrd.eq_swap, ← cmpAll_swap as bs]
    | _ => rfl
  | .var m, b => by
    cases b with
    | var n => exact OrientedOrd.eq_swap
    | _ => rfl
  | .wildcard, b => by cases b <;> rfl

theorem cmpAll_swap : ∀ as bs, cmpAll as bs = (cmpAll bs as).swap
  | [], bs => by cases bs <;> rfl
  | a :: as, bs => by
    cases bs with
    | nil => rfl
    | cons b bs =>
      rw [cmpAll, cmpAll, Ordering.swap_then, ← cmp_swap a b, ← cmpAll_swap as bs]

end

theorem cmp_trans_of_rank_ne (h : a.rank ≠ b.rank ∨ b.rank ≠ c.rank) (hab : cmp a b = .lt)
    (hbc : cmp b c = .lt) : cmp a c = .lt := by
  have hle := rank_le_of_cmp hab
  have hle' := rank_le_of_cmp hbc
  have hlt : a.rank < c.rank := by omega
  rw [cmp_of_rank_ne (Nat.ne_of_lt hlt)]
  exact Nat.compare_eq_lt.mpr hlt

/-- Comparisons by two parts, one after the other. -/
theorem then_lt_trans {α β : Type} {f : α → α → Ordering} {g : β → β → Ordering} {x y z : α}
    {u v w : β} (hf : f x y = .lt → f y z = .lt → f x z = .lt) (heq : ∀ x y, f x y = .eq → x = y)
    (hg : g u v = .lt → g v w = .lt → g u w = .lt) (h : (f x y).then (g u v) = .lt)
    (h' : (f y z).then (g v w) = .lt) : (f x z).then (g u w) = .lt := by
  rw [Ordering.then_eq_lt] at h h' ⊢
  rcases h with h | ⟨h, hp⟩
  · rcases h' with h' | ⟨h', -⟩
    · exact .inl (hf h h')
    · exact .inl (heq y z h' ▸ h)
  · cases heq x y h
    exact h'.imp id fun ⟨h', hp'⟩ => ⟨h', hg hp hp'⟩

mutual

theorem cmp_trans : ∀ a b c, cmp a b = .lt → cmp b c = .lt → cmp a c = .lt
  | a, b, c, hab, hbc => by
    by_cases hne : a.rank ≠ b.rank ∨ b.rank ≠ c.rank
    · exact cmp_trans_of_rank_ne hne hab hbc
    · simp only [ne_eq, not_or, Decidable.not_not] at hne
      obtain ⟨hr, hr'⟩ := hne
      cases a with
      | prim p =>
        cases b <;> cases hr
        cases c <;> cases hr'
        exact @TransCmp.lt_trans String compare _ _ _ _ hab hbc
      | cls m =>
        cases b <;> cases hr
        cases c <;> cases hr'
        exact @TransCmp.lt_trans String compare _ _ _ _ hab hbc
      | array a =>
        cases b <;> cases hr
        cases c <;> cases hr'
        exact cmp_trans a _ _ hab hbc
      | app m as =>
        cases b <;> cases hr
        cases c <;> cases hr'
        rw [cmp] at hab hbc ⊢
        exact then_lt_trans (f := compare) TransCmp.lt_trans (fun _ _ => Std.compare_eq_iff_eq.mp)
          (cmpAll_trans as _ _) hab hbc
      | var m =>
        cases b <;> cases hr
        cases c <;> cases hr'
        exact @TransCmp.lt_trans String compare _ _ _ _ hab hbc
      | wildcard =>
        cases b <;> cases hr
        cases hab

theorem cmpAll_trans : ∀ as bs cs, cmpAll as bs = .lt → cmpAll bs cs = .lt → cmpAll as cs = .lt
  | _, bs, [], _, h => by cases bs <;> cases h
  | [], _, _ :: _, _, _ => rfl
  | _ :: _, [], _, h, _ => by cases h
  | a :: as, b :: bs, c :: cs, hab, hbc => by
    rw [cmpAll] at hab hbc ⊢
    exact then_lt_trans (cmp_trans a b c) eq_of_cmp (cmpAll_trans as bs cs) hab hbc

end

instance : OrientedCmp cmp := ⟨cmp_swap _ _⟩

instance : LawfulEqCmp cmp where
  compare_self {a} := by
    have h := cmp_swap a a
    cases hc : cmp a a <;> rw [hc] at h <;> cases h
  eq_of_compare := eq_of_cmp _ _

instance : TransCmp cmp where
  isLE_trans {a b c} hab hbc := by
    cases ha : cmp a b with
    | lt =>
      cases hb : cmp b c with
      | lt => rw [cmp_trans a b c ha hb]; rfl
      | eq => rw [← eq_of_cmp b c hb, ha]; rfl
      | gt => rw [hb] at hbc; cases hbc
    | eq => rwa [eq_of_cmp a b ha]
    | gt => rw [ha] at hab; cases hab

/-! ## Sorted sets -/

/-- Types in strictly ascending order. -/
abbrev Sorted (ts : List TypeRef) : Prop := ts.Pairwise fun t u => cmp t u = .lt

theorem mem_insert : u ∈ insert t ts ↔ u = t ∨ u ∈ ts := by
  induction ts with
  | nil => exact List.mem_singleton.trans (by simp)
  | cons a rest ih =>
    rw [insert]
    split
    · exact List.mem_cons
    · rename_i h
      rw [eq_of_cmp t a h, List.mem_cons]
      tauto
    · rw [List.mem_cons, ih, List.mem_cons]
      tauto

theorem Sorted.insert (h : Sorted ts) : Sorted (insert t ts) := by
  induction ts with
  | nil => exact List.pairwise_singleton _ _
  | cons a rest ih =>
    obtain ⟨ha, hrest⟩ := List.pairwise_cons.mp h
    rw [TypeRef.insert]
    split
    · rename_i hlt
      refine List.pairwise_cons.mpr ⟨fun b hb => ?_, h⟩
      rcases List.mem_cons.mp hb with rfl | hb
      · exact hlt
      · exact TransCmp.lt_trans hlt (ha b hb)
    · exact h
    · rename_i hgt
      refine List.pairwise_cons.mpr ⟨fun b hb => ?_, ih hrest⟩
      rcases mem_insert.mp hb with rfl | hb
      · exact OrientedCmp.gt_iff_lt.mp hgt
      · exact ha b hb

theorem mem_foldl_insert {set : List TypeRef} :
    u ∈ ts.foldl (fun set t => insert t set) set ↔ u ∈ ts ∨ u ∈ set := by
  induction ts generalizing set with
  | nil => simp
  | cons t ts ih =>
    rw [List.foldl_cons, ih, mem_insert, List.mem_cons]
    tauto

theorem sorted_foldl_insert {set : List TypeRef} (h : Sorted set) :
    Sorted (ts.foldl (fun set t => insert t set) set) := by
  induction ts generalizing set with
  | nil => exact h
  | cons t ts ih => exact ih h.insert

/-- **A sorted set has the members that it is made of.** -/
theorem mem_sortedSet : u ∈ sortedSet ts ↔ u ∈ ts := mem_foldl_insert.trans (by simp)

/-- **A sorted set is sorted.** -/
theorem sorted_sortedSet (ts : List TypeRef) : Sorted (sortedSet ts) := sorted_foldl_insert .nil

theorem Sorted.nodup (h : Sorted ts) : ts.Nodup := by
  refine h.imp fun {t u} hlt heq => ?_
  subst heq
  cases hlt.symm.trans ReflCmp.compare_self

/-- **A sorted set is known by its members.** -/
theorem Sorted.ext (h : Sorted ts) (h' : Sorted us) (hm : ∀ t, t ∈ ts ↔ t ∈ us) : ts = us := by
  have hp : ts.Perm us := (List.perm_ext_iff_of_nodup h.nodup h'.nodup).mpr hm
  refine hp.eq_of_pairwise (fun t u _ _ htu hut => ?_) h h'
  rw [cmp_swap, hut] at htu
  cases htu

theorem sortedSet_congr (h : ∀ t, t ∈ ts ↔ t ∈ us) : sortedSet ts = sortedSet us :=
  (sorted_sortedSet ts).ext (sorted_sortedSet us) fun t => by
    rw [mem_sortedSet, mem_sortedSet, h]

end JsonBinding.TypeRef
