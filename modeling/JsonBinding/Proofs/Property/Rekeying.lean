import JsonBinding.Proofs.Property.Order

/-!
# Properties under other keys

Which properties are written, and in which order, depends on their names and keys only. When some of
the keys change, what is written stays the same just when no property that is written has a key that
changes.

* `Property.outline`: the name and the key of a property; `map_sorted_bare`, `map_front_bare`:
  nothing else counts.
* `sorted_filter`: properties that are not kept may as well be missing.
* **`Property.outlines_eq_iff`**: when a change of keys does not show.
-/

namespace JsonBinding.Property

variable {p : Property} {found found' : List Property} {names : List String} {descends : Bool}

/-- The name and the key of a property. -/
def outline (p : Property) : String × String := (p.name, p.key)

/-! ## Bare properties -/

/-- A property of which only the name and the key are left. -/
def bare (p : Property) : Property := ⟨p.name, p.key, false, .wildcard, .field p.name, []⟩

theorem map_bare_eq_iff :
    found.map bare = found'.map bare ↔ found.map outline = found'.map outline := by
  have hbare (ps : List Property) :
      (ps.map outline).map (fun (n, k) => ⟨n, k, false, .wildcard, .field n, []⟩) =
        ps.map bare := by
    rw [List.map_map]
    rfl
  have houtline (ps : List Property) : (ps.map bare).map outline = ps.map outline := by
    rw [List.map_map]
    rfl
  exact ⟨fun h => by rw [← houtline, h, houtline], fun h => by rw [← hbare, h, hbare]⟩

theorem map_register_bare (p : Property) (ps : List Property) :
    (register p ps).map bare = register p.bare (ps.map bare) := by
  induction ps with
  | nil => rfl
  | cons q rest ih =>
    have hkeys : p.bare.key = p.key ∧ q.bare.key = q.key := ⟨rfl, rfl⟩
    rw [register, List.map_cons, register, hkeys.1, hkeys.2]
    cases compare p.key q.key with
    | lt => rfl
    | eq => rfl
    | gt => rw [← ih]; rfl

theorem map_sorted_bare (found : List Property) :
    (sorted found).map bare = sorted (found.map bare) := by
  rw [sorted, sorted, List.foldl_map]
  exact (List.foldl_hom (List.map bare) fun ps p => (map_register_bare p ps).symm).symm

theorem map_front_bare (names : List String) (ps : List Property) :
    (front names ps).map bare = front names (ps.map bare) := by
  induction names generalizing ps with
  | nil => rfl
  | cons n names ih =>
    have hname : (fun p : Property => p.name == n) ∘ bare = fun p => p.name == n := rfl
    rw [front, front, List.find?_map, hname, List.eraseP_map, hname]
    cases ps.find? (·.name == n) with
    | none => exact ih ps
    | some p => rw [Option.map_some, List.map_cons, ih]

/-! ## Properties that are not kept -/

theorem sorted_filter {q : Property → Bool} (h : ∀ p ∈ sorted found, q p = true) :
    sorted (found.filter q) = sorted found := by
  have hkept : ∀ p ∈ sorted found, p ∈ sorted (found.filter q) := by
    intro p hp
    have hq := h p hp
    obtain ⟨before, after, rfl, hafter⟩ := mem_sorted.mp hp
    refine mem_sorted.mpr ⟨before.filter q, after.filter q, ?_, fun r hr => ?_⟩
    · rw [List.filter_append, List.filter_cons_of_pos hq]
    · exact hafter r (List.mem_of_mem_filter hr)
  have hmem : ∀ p, p ∈ sorted (found.filter q) ↔ p ∈ sorted found := by
    refine fun p => ⟨fun hp => ?_, hkept p⟩
    obtain ⟨before, after, hsplit, -⟩ := mem_sorted.mp hp
    have hfound : p ∈ found := List.mem_of_mem_filter
      (hsplit ▸ List.mem_append_right before List.mem_cons_self)
    obtain ⟨r, hr, hkey⟩ := exists_sorted hfound
    exact List.inj_on_of_nodup_map (nodup_sorted _) hp (hkept r hr) hkey.symm ▸ hr
  have hperm : (sorted (found.filter q)).Perm (sorted found) :=
    (List.perm_ext_iff_of_nodup (nodup_sorted _).of_map (nodup_sorted _).of_map).mpr hmem
  exact hperm.eq_of_pairwise (fun p r _ _ hpr hrp => absurd hpr (lt_asymm hrp)) (pairwise_sorted _)
    (pairwise_sorted _)

/-! ## Other keys -/

/-- Properties in the order in which they are written. -/
def arranged (names : List String) (descends : Bool) (found : List Property) : List Property :=
  front names (if descends then (sorted found).reverse else sorted found)

theorem properties_eq_arranged (i : Inspection) (settings : Settings) : i.properties settings =
    arranged i.annotations.listedNames settings.keyOrder.descends (i.registered settings) := rfl

theorem mem_arranged : p ∈ arranged names descends found ↔ p ∈ sorted found := by
  rw [arranged, (front_perm _ _).mem_iff]
  cases descends <;> simp

theorem map_outline_arranged (h : found.map outline = found'.map outline) :
    (arranged names descends found).map outline = (arranged names descends found').map outline := by
  rw [← map_bare_eq_iff] at h ⊢
  have hsorted : (sorted found).map bare = (sorted found').map bare := by
    rw [map_sorted_bare, h, map_sorted_bare]
  rw [arranged, arranged, map_front_bare, map_front_bare]
  cases descends with
  | true => simp only [if_true, List.map_reverse, hsorted]
  | false => simp only [Bool.false_eq_true, if_false, hsorted]

theorem map_outline_filter {k : String → String} (hk : ∀ p ∈ found, p.key = k p.name)
    (q : String → Bool) : (found.filter fun p => q p.name).map outline =
      ((found.map (·.name)).filter q).map fun n => (n, k n) := by
  rw [List.filter_map, List.map_map]
  exact List.map_congr_left fun p hp =>
    congrArg (Prod.mk p.name) (hk p (List.mem_of_mem_filter hp))

/-- **When a change of keys does not show.** Let the keys depend on the names. The same names are
written under the same keys in the same order just when no property that is written, before or
after, has a key that changes. -/
theorem outlines_eq_iff (names : List String) (descends : Bool) (k k' : String → String)
    (hk : ∀ p ∈ found, p.key = k p.name) (hk' : ∀ p ∈ found', p.key = k' p.name)
    (hnames : found.map (·.name) = found'.map (·.name)) :
    (arranged names descends found).map outline = (arranged names descends found').map outline ↔
      ∀ p ∈ arranged names descends found ++ arranged names descends found',
        k p.name = k' p.name := by
  have hsub {found : List Property} : ∀ p ∈ arranged names descends found, p ∈ found := by
    intro p hp
    obtain ⟨before, after, rfl, -⟩ := mem_sorted.mp (mem_arranged.mp hp)
    exact List.mem_append_right before List.mem_cons_self
  constructor
  · intro h p hp
    rcases List.mem_append.mp hp with hp | hp
    · obtain ⟨q, hq, houtline⟩ := List.mem_map.mp (h ▸ List.mem_map_of_mem hp)
      obtain ⟨hname, hkey⟩ := Prod.mk.inj houtline
      rw [← hk p (hsub p hp), ← hkey, hk' q (hsub q hq), hname]
    · obtain ⟨q, hq, houtline⟩ := List.mem_map.mp (h ▸ List.mem_map_of_mem hp)
      obtain ⟨hname, hkey⟩ := Prod.mk.inj houtline
      rw [← hk' p (hsub p hp), ← hkey, hk q (hsub q hq), hname]
  · intro h
    have hkept : ∀ p ∈ sorted found, decide (k p.name = k' p.name) = true := fun p hp =>
      decide_eq_true (h p (List.mem_append_left _ (mem_arranged.mpr hp)))
    have hkept' : ∀ p ∈ sorted found', decide (k p.name = k' p.name) = true := fun p hp =>
      decide_eq_true (h p (List.mem_append_right _ (mem_arranged.mpr hp)))
    -- Properties whose keys change are not kept on either side, and the others have equal outlines.
    have hsame : (found.filter fun p => decide (k p.name = k' p.name)).map outline =
        (found'.filter fun p => decide (k p.name = k' p.name)).map outline := by
      rw [map_outline_filter hk fun n => decide (k n = k' n),
        map_outline_filter hk' fun n => decide (k n = k' n), hnames]
      refine List.map_congr_left fun n hn => ?_
      rw [of_decide_eq_true (List.mem_filter.mp hn).2]
    have harranged : (arranged names descends _).map outline = _ := map_outline_arranged hsame
    simpa only [arranged, sorted_filter hkept, sorted_filter hkept'] using harranged

end JsonBinding.Property
