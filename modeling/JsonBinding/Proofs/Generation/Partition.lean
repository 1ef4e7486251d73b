import JsonBinding.Proofs.Generation.Order
import JsonBinding.Proofs.Program.Kinds
import JsonBinding.Proofs.SerializerUnit.Naming
import JsonBinding.Proofs.TypeRef.Order

/-!
# What becomes of every candidate

A generation that comes to an end gives every candidate exactly one place in the manifest.

* `Schema.unitsOf`: the units among some results.
* `built_of_results`: what becomes of each root of a plan.
* `including_eq`: the units, the names and the levels that are entered.
* `Schema.Partition`: a manifest whose lists partition the candidates.
* **`generate_partition`**: what a generation of the candidates of an index comes to.
-/

namespace JsonBinding

/-! ## Reasons -/

theorem head?_append {a b : String} {c : Char} (h : a.toList.head? = some c) :
    (a ++ b).toList.head? = some c := by
  rw [String.toList_append, List.head?_append, h, Option.some_or]

/-- No reason reads like the missing one. -/
theorem Reason.text_ne_fallback (r : Reason) : r.text ≠ "not generated" := by
  intro h
  have hhead : r.text.toList.head? = some 'n' := by rw [h]; rfl
  cases r with
  | noVariant | void => exact absurd h (by decide)
  | unresolved _ | platformClass _ | genericClass _ | missingClass _ =>
    cases hhead.symm.trans (head?_append (head?_append rfl))
  | notPossible _ _ | element _ _ =>
    cases hhead.symm.trans (head?_append (head?_append (head?_append rfl)))
  | mapKey _ _ =>
    cases hhead.symm.trans (head?_append (head?_append (head?_append (head?_append rfl))))
  | property _ _ _ =>
    cases hhead.symm.trans
      (head?_append (head?_append (head?_append (head?_append (head?_append rfl)))))

/-! ## Results -/

namespace Schema

variable {s : Schema} {memo : Memo} {c : Candidates} {plan : Plan} {o : Outcome} {t : TypeRef}
  {roots : List (TypeRef × UnitId)} {rs : List (TypeRef × Option SerializerUnit)}

/-- The units among some results. -/
def unitsOf (rs : List (TypeRef × Option SerializerUnit)) : List SerializerUnit :=
  rs.filterMap (·.2)

variable (s) in
/-- What becomes of each root of a plan that comes to an end. -/
abbrev Built (roots : List (TypeRef × UnitId)) (rs : List (TypeRef × Option SerializerUnit)) :
    Prop :=
  List.Forall₂ (fun x y => y.1 = x.1 ∧ (s.unit x.1 x.2 {}).1 = .ok y.2) roots rs

theorem built_of_results (h : s.results roots = .ok rs) : s.Built roots rs := by
  induction roots generalizing rs with
  | nil => cases h; exact .nil
  | cons x rest ih =>
    obtain ⟨u?, rs', hu, hrest, rfl⟩ := results_cons_eq_ok h
    exact .cons ⟨rfl, hu⟩ (ih hrest)

theorem level_of_mem_unitsOf (h : s.Built roots rs) {u : SerializerUnit} (hu : u ∈ unitsOf rs) :
    u.support = (s.resolve u.root {}).1.support.level := by
  induction h with
  | nil => cases hu
  | @cons x y _ _ hx _ ih =>
    obtain ⟨root, _ | v⟩ := y
    · exact ih hu
    · rcases List.mem_cons.mp hu with rfl | hu
      · obtain ⟨p, -, rfl⟩ := unit_eq_some .start hx.2
        rfl
      · exact ih hu

theorem sublist_unitsOf (h : s.Built roots rs) :
    ((unitsOf rs).map fun u => (u.root, u.id)).Sublist roots := by
  induction h with
  | nil => exact .slnil
  | @cons x y _ _ hx _ ih =>
    obtain ⟨root, _ | u⟩ := y
    · exact ih.cons x
    · obtain ⟨p, -, rfl⟩ := unit_eq_some .start hx.2
      exact ih.cons_cons _

theorem perm_built (h : s.Built roots rs) :
    ((unitsOf rs).map (·.root) ++ withoutUnit rs).Perm (roots.map (·.1)) := by
  induction h with
  | nil => exact .nil
  | @cons x y roots rs hx _ ih =>
    obtain ⟨root, u?⟩ := y
    have hroot : root = x.1 := hx.1
    rw [List.map_cons, ← hroot]
    cases u? with
    | none => exact List.perm_middle.trans (ih.cons root)
    | some u =>
      obtain ⟨p, -, rfl⟩ := unit_eq_some .start hx.2
      rw [hroot]
      exact ih.cons x.1

end Schema

/-! ## Entries -/

namespace Outcome

variable {o : Outcome} {rs : List (TypeRef × Option SerializerUnit)}

theorem including_eq (o : Outcome) (rs : List (TypeRef × Option SerializerUnit)) :
    o.including rs =
      { units := o.units ++ Schema.unitsOf rs
        manifest := { o.manifest with
          generated := enter o.manifest.generated
            ((Schema.unitsOf rs).map fun u => (u.root.text, u.id))
          withoutReflection := o.manifest.withoutReflection ++
            ((Schema.unitsOf rs).filter (!·.support.needsReflection)).map (·.root.text)
          withReflection := o.manifest.withReflection ++
            ((Schema.unitsOf rs).filter (·.support.needsReflection)).map (·.root.text) } } := by
  induction rs generalizing o with
  | nil => simp [including, Schema.unitsOf, enter]
  | cons x rest ih =>
    obtain ⟨root, _ | u⟩ := x
    · exact ih o
    · rw [including, ih, Manifest.addUnit]
      have hunits : Schema.unitsOf ((root, some u) :: rest) = u :: Schema.unitsOf rest := rfl
      cases hs : u.support.needsReflection <;> simp [hunits, hs, enter]

end Outcome

/-! ## Candidates -/

theorem TypeRef.exists_cls_of_isOwnClass {t : TypeRef} (h : t.isOwnClass = true) :
    ∃ n, t = .cls n := by
  cases t with
  | cls n => exact ⟨n, rfl⟩
  | prim _ | array _ | app _ _ | var _ | wildcard => cases h

theorem Index.isOwnClass_of_mem_candidates {ix : Index} {t : TypeRef}
    (h : t ∈ ix.candidates.roots) : t.isOwnClass = true := by
  obtain ⟨e, -, he⟩ := List.mem_filterMap.mp h
  rw [Endpoint.candidate?] at he
  split_ifs at he with hown
  · cases he
    exact hown
  · exact (Option.filter_eq_some_iff.mp he).2

namespace Schema

variable {s : Schema} {memo : Memo} {c : Candidates} {plan : Plan} {o : Outcome} {t u : TypeRef}
  {ts : List TypeRef} {rs : List (TypeRef × Option SerializerUnit)} {eager : Bool}

/-- Types that are classes. -/
abbrev Classes (ts : List TypeRef) : Prop := ∀ t ∈ ts, ∃ n, t = .cls n

theorem Classes.text_inj (h : Classes ts) (ht : t ∈ ts) (hu : u ∈ ts) (heq : t.text = u.text) :
    t = u := by
  obtain ⟨m, rfl⟩ := h t ht
  obtain ⟨n, rfl⟩ := h u hu
  cases m
  cases n
  exact congrArg (fun text => TypeRef.cls ⟨text⟩) heq

theorem Classes.ascending {α : Type} (h : Classes ts) (hs : TypeRef.Sorted ts)
    {es : List (String × α)} (he : es.map (·.1) = ts.map TypeRef.text) : Ascending es := by
  rw [Ascending, ← List.pairwise_map (f := fun e : String × α => e.1)
    (R := fun k l => compare k l = .lt), he, List.pairwise_map]
  refine hs.imp_of_mem fun {t u} ht hu hlt => ?_
  obtain ⟨m, rfl⟩ := h t ht
  obtain ⟨n, rfl⟩ := h u hu
  exact hlt

theorem plan?_eq_some (h : s.plan? c = some plan) :
    plan.roots.map (·.1) = (TypeRef.sortedSet c.roots).filter (!c.isCustom ·) ∧
      (plan.roots.map (·.2)).Nodup ∧
      plan.manifest = { enabled := true, skippedCustom :=
        ((TypeRef.sortedSet c.roots).filter c.isCustom).map TypeRef.text } := by
  rw [plan?] at h
  split_ifs at h
  rw [List.partition_eq_filter_filter] at h
  cases h
  exact ⟨UnitId.map_fst_assign _ _, (UnitId.nodup_assign _ _).2, rfl⟩

theorem exists_results (hr : s.Reached memo) (hp : s.plan? c = some plan)
    (ho : (s.generate c eager memo).1 = .ok o) :
    ∃ rs memo', s.results plan.roots = .ok rs ∧ s.Reached memo' ∧
      o = (({ manifest := plan.manifest } : Outcome).including rs).excluding
        (s.explained (s.unsupported plan.roots) memo') := by
  have hbuilt : ((s.buildAll eager plan.roots memo).1.mapM fun entry =>
      entry.2.map (entry.1, ·)) = s.results plan.roots ∧
        s.Reached (s.buildAll eager plan.roots memo).2 := by
    cases eager with
    | false => exact buildAll_lazy hr plan.roots
    | true =>
      obtain ⟨h, hr'⟩ := buildAll_eager hr plan.roots
      exact ⟨by rw [h]; rfl, hr'⟩
  rw [generate_eq, hp] at ho
  replace ho := (entered_eq hbuilt.1).symm.trans ho
  cases hrs : s.results plan.roots with
  | error e =>
    rw [hrs] at ho
    cases ho
  | ok rs =>
    rw [hrs] at ho
    cases ho
    exact ⟨rs, _, rfl, hbuilt.2, rfl⟩

theorem mem_explained (hr : s.Reached memo) (hb : ∀ t ∈ ts, s.Blocked t) {e : String × Exclusion}
    (he : e ∈ s.explained ts memo) : ∃ t ∈ ts, ∃ memo' r, s.Reached memo' ∧ t.text = e.1 ∧
      (s.resolve t memo').1.support = .unsupported r ∧ e.2 = ⟨r.text, r.failingType⟩ := by
  induction ts generalizing memo with
  | nil => cases he
  | cons t rest ih =>
    rcases List.mem_cons.mp he with rfl | he
    · have hl := (hr.exact_resolve t).unsupported.mpr (hb t List.mem_cons_self)
      cases hσ : (s.resolve t memo).1.support with
      | unsupported r => exact ⟨t, List.mem_cons_self, memo, r, hr, rfl, hσ, rfl⟩
      | fully => rw [hσ] at hl; cases hl
      | withUnhandled => rw [hσ] at hl; cases hl
    · obtain ⟨u, hu, h⟩ := ih (hr.resolve t) (fun u hu => hb u (List.mem_cons_of_mem _ hu)) he
      exact ⟨u, List.mem_cons_of_mem _ hu, h⟩

/-! ## Partitions -/

/-- An outcome whose lists partition the candidates. -/
structure Partition (s : Schema) (c : Candidates) (o : Outcome) : Prop where
  /-- No candidate has two places. -/
  nodup : (o.manifest.generated.map (·.1) ++ o.manifest.notGenerated.map (·.1) ++
    o.manifest.skippedCustom).Nodup
  /-- Every candidate has a place, and nothing else has. -/
  mem_iff (name : String) : name ∈ o.manifest.generated.map (·.1) ++
    o.manifest.notGenerated.map (·.1) ++ o.manifest.skippedCustom ↔ name ∈ c.roots.map TypeRef.text
  skipped {t : TypeRef} : t ∈ c.roots →
    (t.text ∈ o.manifest.skippedCustom ↔ c.isCustom t = true)
  reflection : (o.manifest.withoutReflection ++ o.manifest.withReflection).Perm
    (o.manifest.generated.map (·.1))
  withReflection {t : TypeRef} {memo : Memo} : t ∈ c.roots → s.Reached memo →
    (t.text ∈ o.manifest.withReflection ↔
      c.isCustom t = false ∧ (s.resolve t memo).1.support.level = .withUnhandled)
  units : o.units.map (fun u => (u.root.text, u.id)) = o.manifest.generated
  mem_roots {u : SerializerUnit} : u ∈ o.units → u.root ∈ c.roots
  sorted : o.units.Pairwise fun u v => TypeRef.cmp u.root v.root = .lt
  nodup_ids : (o.units.map (·.id)).Nodup
  /-- What is not generated has the reason of a resolution that ends without support. -/
  reason {e : String × Exclusion} : e ∈ o.manifest.notGenerated →
    ∃ t ∈ c.roots, ∃ memo r, s.Reached memo ∧ t.text = e.1 ∧
      (s.resolve t memo).1.support = .unsupported r ∧ e.2 = ⟨r.text, r.failingType⟩ ∧
      e.2.reason ≠ "not generated"

/-- The candidates that are planned, in order. -/
theorem sublist_plan? (hp : s.plan? c = some plan) :
    (plan.roots.map (·.1)).Sublist (TypeRef.sortedSet c.roots) := by
  rw [(plan?_eq_some hp).1]
  exact List.filter_sublist

theorem sublist_unsupported (roots : List (TypeRef × UnitId)) :
    (s.unsupported roots).Sublist (roots.map (·.1)) := List.filter_sublist

theorem outcome_eq (hc : Classes c.roots) (hp : s.plan? c = some plan)
    (hrs : s.results plan.roots = .ok rs) {memo' : Memo} :
    (({ manifest := plan.manifest } : Outcome).including rs).excluding
        (s.explained (s.unsupported plan.roots) memo') =
      { units := unitsOf rs
        manifest := {
          enabled := true
          generated := (unitsOf rs).map fun u => (u.root.text, u.id)
          withoutReflection :=
            ((unitsOf rs).filter (!·.support.needsReflection)).map (·.root.text)
          withReflection := ((unitsOf rs).filter (·.support.needsReflection)).map (·.root.text)
          notGenerated := s.explained (s.unsupported plan.roots) memo'
          skippedCustom := ((TypeRef.sortedSet c.roots).filter c.isCustom).map TypeRef.text } } := by
  have hset := TypeRef.sorted_sortedSet c.roots
  have hcls : Classes (TypeRef.sortedSet c.roots) := fun t ht => hc t (TypeRef.mem_sortedSet.mp ht)
  have hunits := (((sublist_unitsOf (built_of_results hrs)).map (·.1)).trans (sublist_plan? hp))
  have hblocked := (sublist_unsupported (s := s) plan.roots).trans (sublist_plan? hp)
  have hgen : Ascending ((unitsOf rs).map fun u => (u.root.text, u.id)) := by
    refine Classes.ascending (fun t ht => hcls t (hunits.subset ht)) (hset.sublist hunits) ?_
    simp only [List.map_map, Function.comp_def]
  have hnot : Ascending (s.explained (s.unsupported plan.roots) memo') :=
    Classes.ascending (fun t ht => hcls t (hblocked.subset ht)) (hset.sublist hblocked)
      (map_fst_explained _ _)
  rw [Outcome.including_eq, Outcome.excluding, (plan?_eq_some hp).2.2]
  simp only [List.nil_append, enter_of_ascending (m := []) hgen, enter_of_ascending (m := []) hnot]

/-- Every candidate has one of three places. -/
theorem perm_places (hp : s.plan? c = some plan) (hrs : s.results plan.roots = .ok rs) :
    ((unitsOf rs).map (·.root) ++ s.unsupported plan.roots ++
      (TypeRef.sortedSet c.roots).filter c.isCustom).Perm (TypeRef.sortedSet c.roots) := by
  have hbuilt := perm_built (built_of_results hrs)
  rw [withoutUnit_results hrs, (plan?_eq_some hp).1] at hbuilt
  exact (hbuilt.append_right _).trans
    (List.perm_append_comm.trans (List.filter_append_perm c.isCustom _))

theorem nodup_map_text (hc : Classes c.roots) (h : ts.Perm (TypeRef.sortedSet c.roots)) :
    (ts.map TypeRef.text).Nodup := by
  have hmem : ∀ t ∈ ts, t ∈ c.roots := fun t ht => TypeRef.mem_sortedSet.mp (h.mem_iff.mp ht)
  refine (h.nodup_iff.mpr (TypeRef.sorted_sortedSet c.roots).nodup).map_on fun t ht u hu heq => ?_
  exact hc.text_inj (hmem t ht) (hmem u hu) heq

theorem mem_map_text (hc : Classes c.roots) (h : ts ⊆ c.roots) (ht : t ∈ c.roots) :
    t.text ∈ ts.map TypeRef.text ↔ t ∈ ts := by
  constructor
  · intro hm
    obtain ⟨u, hu, heq⟩ := List.mem_map.mp hm
    exact hc.text_inj (h hu) ht heq ▸ hu
  · exact List.mem_map_of_mem

theorem mem_withReflection (hp : s.plan? c = some plan) (hrs : s.results plan.roots = .ok rs)
    (hr : s.Reached memo) (ht : t ∈ c.roots) :
    t ∈ ((unitsOf rs).filter (·.support.needsReflection)).map (·.root) ↔
      c.isCustom t = false ∧ (s.resolve t memo).1.support.level = .withUnhandled := by
  have hlevel : ∀ t, (s.resolve t {}).1.support.level = (s.resolve t memo).1.support.level :=
    fun t => (Reached.start.exact_resolve t).level_eq (hr.exact_resolve t)
  have hneeds : ∀ l : SupportLevel, l.needsReflection = true ↔ l = .withUnhandled :=
    fun l => by cases l <;> simp [SupportLevel.needsReflection]
  have hplace := (perm_built (built_of_results hrs)).mem_iff (a := t)
  rw [withoutUnit_results hrs, (plan?_eq_some hp).1, List.mem_append, mem_unsupported,
    List.mem_filter, TypeRef.mem_sortedSet, ← (hr.exact_resolve t).unsupported] at hplace
  constructor
  · intro hm
    obtain ⟨u, hu, rfl⟩ := List.mem_map.mp hm
    obtain ⟨hu, hn⟩ := List.mem_filter.mp hu
    have hroot := (hplace.mp (.inl (List.mem_map_of_mem hu))).2
    rw [level_of_mem_unitsOf (built_of_results hrs) hu, hlevel, hneeds] at hn
    exact ⟨by simpa using hroot, hn⟩
  · rintro ⟨hcustom, hl⟩
    rcases hplace.mpr ⟨ht, by simp [hcustom]⟩ with hm | ⟨-, hun⟩
    · obtain ⟨u, hu, rfl⟩ := List.mem_map.mp hm
      refine List.mem_map.mpr ⟨u, List.mem_filter.mpr ⟨hu, ?_⟩, rfl⟩
      rw [level_of_mem_unitsOf (built_of_results hrs) hu, hlevel, hneeds, hl]
    · rw [hl] at hun
      cases hun

theorem partition_of_results (hc : Classes c.roots) (hp : s.plan? c = some plan)
    (hrs : s.results plan.roots = .ok rs) {memo' : Memo} (hr : s.Reached memo') :
    s.Partition c ((({ manifest := plan.manifest } : Outcome).including rs).excluding
      (s.explained (s.unsupported plan.roots) memo')) := by
  have hplaces := perm_places hp hrs
  have hroots : ∀ t, t ∈ (unitsOf rs).map (·.root) → t ∈ c.roots := fun t ht =>
    TypeRef.mem_sortedSet.mp (hplaces.mem_iff.mp
      (List.mem_append_left _ (List.mem_append_left _ ht)))
  have hblocked : ∀ t ∈ s.unsupported plan.roots, t ∈ c.roots := fun t ht =>
    TypeRef.mem_sortedSet.mp (hplaces.mem_iff.mp
      (List.mem_append_left _ (List.mem_append_right _ ht)))
  have hsub := sublist_unitsOf (built_of_results hrs)
  have hnames : ∀ es : List (String × Exclusion), es.map (·.1) =
      (s.unsupported plan.roots).map TypeRef.text →
      ((unitsOf rs).map fun u => (u.root.text, u.id)).map (·.1) ++ es.map (·.1) ++
        ((TypeRef.sortedSet c.roots).filter c.isCustom).map TypeRef.text =
      ((unitsOf rs).map (·.root) ++ s.unsupported plan.roots ++
        (TypeRef.sortedSet c.roots).filter c.isCustom).map TypeRef.text := by
    intro es hes
    simp only [hes, List.map_append, List.map_map, Function.comp_def]
  rw [outcome_eq hc hp hrs]
  refine ⟨?_, fun name => ?_, fun {t} ht => ?_, ?_, fun {t memo} ht hr => ?_, rfl, fun {u} hu => ?_,
    ?_, ?_, fun {e} he => ?_⟩
  · rw [hnames _ (map_fst_explained _ _)]
    exact nodup_map_text hc hplaces
  · rw [hnames _ (map_fst_explained _ _), (hplaces.map _).mem_iff]
    simp only [List.mem_map, TypeRef.mem_sortedSet]
  · have hsub : (TypeRef.sortedSet c.roots).filter c.isCustom ⊆ c.roots :=
      fun u hu => TypeRef.mem_sortedSet.mp (List.mem_filter.mp hu).1
    rw [mem_map_text hc hsub ht, List.mem_filter, TypeRef.mem_sortedSet]
    exact ⟨fun h => h.2, fun h => ⟨ht, h⟩⟩
  · rw [← List.map_append, List.map_map]
    exact ((List.perm_append_comm.trans (List.filter_append_perm _ _)).map _)
  · have hsub : ((unitsOf rs).filter (·.support.needsReflection)).map (·.root) ⊆ c.roots :=
      fun u hu => hroots u (List.map_subset _ (List.filter_subset_self _) hu)
    rw [← mem_withReflection hp hrs hr ht, ← mem_map_text hc hsub ht, List.map_map]
    rfl
  · exact hroots u.root (List.mem_map_of_mem hu)
  · have hs := (TypeRef.sorted_sortedSet c.roots).sublist ((hsub.map (·.1)).trans (sublist_plan? hp))
    rw [List.map_map] at hs
    exact List.pairwise_map.mp hs
  · have hids := (plan?_eq_some hp).2.1.sublist (hsub.map (·.2))
    rwa [List.map_map] at hids
  · obtain ⟨t, ht, memo, r, hm, hname, hσ, hex⟩ :=
      mem_explained hr (fun t ht => (mem_unsupported.mp ht).2) he
    refine ⟨t, hblocked t ht, memo, r, hm, hname, hσ, hex, ?_⟩
    rw [hex]
    exact r.text_ne_fallback

/-- **A generation partitions its candidates.** Each of them is generated, not generated or skipped,
and nothing else is. Every unit that leaves values to the generic writer is listed as such, the
units come in the order of their roots under distinct names, and what is not generated has the
reason of a resolution that ends without support. -/
theorem generate_partition (hr : s.Reached memo) (he : s.settings.enabled = true)
    (hc : s.index.handlers.contract = false)
    (ho : (s.generate s.index.candidates eager memo).1 = .ok o) :
    s.Partition s.index.candidates o := by
  have hcls : Classes s.index.candidates.roots := fun t ht =>
    TypeRef.exists_cls_of_isOwnClass (Index.isOwnClass_of_mem_candidates ht)
  obtain ⟨plan, hp⟩ : ∃ plan, s.plan? s.index.candidates = some plan := by
    have hcontract : s.index.candidates.contract = false := hc
    rw [plan?, he, hcontract]
    exact ⟨_, rfl⟩
  obtain ⟨rs, memo', hrs, hm, rfl⟩ := exists_results hr hp ho
  exact partition_of_results hcls hp hrs hm

/-! ## A catalog -/

namespace Catalog

/-- A class with one number. -/
def item : ClassInfo where
  name := ⟨"com.acme.Item"⟩
  fields := [{ name := "size", type := .prim .int, visibility := .anywhere }]

/-- A class without instances of its own. -/
def kind : ClassInfo where
  name := ⟨"com.acme.Kind"⟩
  isAbstract := true

/-- A class with a handler of its own. -/
def price : ClassName := ⟨"com.acme.Price"⟩

end Catalog

/-- A catalog whose endpoints return items, twice, kinds in a list, and prices. -/
def catalog : Schema := {
  index := {
    classes := [Catalog.item, Catalog.kind]
    endpoints := [⟨"first", .cls Catalog.item.name⟩, ⟨"last", .cls Catalog.item.name⟩,
      ⟨"kinds", .app ⟨"java.util.List"⟩ [.cls Catalog.kind.name]⟩, ⟨"price", .cls Catalog.price⟩]
    handlers := { types := [Catalog.price] }
    nodup_names := by decide } }

namespace Catalog

theorem variant?_item : catalog.variant? (.cls item.name) = some .object :=
  variant?_of_own (by simp [item, ClassName.isPlatform]) rfl

theorem variant?_kind : catalog.variant? (.cls kind.name) = some .object :=
  variant?_of_own (by simp [kind, ClassName.isPlatform]) rfl

theorem class?_item : catalog.index.class? item.name = some item := rfl

theorem class?_kind : catalog.index.class? kind.name = some kind := rfl

theorem impossibility?_item : (catalog.index.inspect item).impossibility? = none := by cbv

theorem impossibility?_kind : (catalog.index.inspect kind).impossibility? = some .abstract := by cbv

theorem properties_item : catalog.properties (catalog.index.inspect item) =
    [⟨"size", "size", false, .prim .int, .field "size", []⟩] := by
  cbv

theorem not_blocked_item : ¬ catalog.Blocked (.cls item.name) := by
  refine not_blocked_of_properties variant?_item class?_item impossibility?_item ?_
  rw [properties_item]
  exact List.forall_mem_singleton.mpr (not_blocked_of_primitive rfl)

theorem blocked_kind : catalog.Blocked (.cls kind.name) :=
  ⟨_, .refl, .impossible (shape?_of_class? variant?_kind class?_kind) class?_kind
    impossibility?_kind⟩

theorem dated : catalog.Dated :=
  dated_of_hasDates fun a ha => by simp [Index.Bears, catalog, item, kind] at ha

theorem plan?_candidates : catalog.plan? catalog.index.candidates = some
    ⟨[(.cls item.name, ⟨"jsonb.serializers.ItemSerializer"⟩),
      (.cls kind.name, ⟨"jsonb.serializers.KindSerializer"⟩)],
      { enabled := true, skippedCustom := [price.text] }⟩ := by
  have hroots : TypeRef.sortedSet catalog.index.candidates.roots =
      [.cls item.name, .cls kind.name, .cls price] := by decide +kernel
  have hcustom : [TypeRef.cls item.name, .cls kind.name, .cls price].partition
      catalog.index.candidates.isCustom = ([.cls price], [.cls item.name, .cls kind.name]) := by
    decide +kernel
  have hnames : UnitId.assign catalog.settings.unitPackage [.cls item.name, .cls kind.name] =
      [(.cls item.name, ⟨"jsonb.serializers.ItemSerializer"⟩),
        (.cls kind.name, ⟨"jsonb.serializers.KindSerializer"⟩)] := by
    decide +kernel
  rw [plan?, hroots, hcustom, ← hnames]
  rfl

theorem exists_outcome :
    ∃ o, (catalog.generate catalog.index.candidates false {}).1 = .ok o := by
  have hkind : catalog.missingRoot? (.cls kind.name) = none := by
    simp [missingRoot?, class?_kind]
  obtain ⟨p, -, hu⟩ :=
    unit_of_dated dated .start not_blocked_item ⟨"jsonb.serializers.ItemSerializer"⟩
  rw [generate_of_plan? .start plan?_candidates, results, List.map_cons, List.map_cons, attempt,
    attempt, hu, unit_of_blocked .start hkind blocked_kind]
  exact ⟨_, rfl⟩

theorem generate_partition_catalog :
    catalog.Reached {} ∧ catalog.settings.enabled = true ∧
      catalog.index.handlers.contract = false ∧
      ∃ o, (catalog.generate catalog.index.candidates false {}).1 = .ok o ∧
        catalog.Partition catalog.index.candidates o := by
  obtain ⟨o, ho⟩ := exists_outcome
  exact ⟨.start, rfl, rfl, o, ho, generate_partition .start rfl rfl ho⟩

end Catalog

end Schema

end JsonBinding
