import JsonBinding.Generation
import JsonBinding.Index.Document
import JsonBinding.Proofs.Index.Reordering
import JsonBinding.Proofs.Program.Agreement
import JsonBinding.Proofs.TypeRef.Order

/-!
# The order of documents

What is generated does not depend on the order in which an index document lists classes, packages,
endpoints, handlers and interfaces, nor on how often it names the last three.

* `IndexDocument.Reordered`: documents that differ in order only.
* `Index.reordered_ofDocument`: the indexes that they describe.
* **`generate_reordered`**: they give the same outcome, units and faults included.
-/

namespace JsonBinding

/-! ## Documents -/

theorem ClassInfo.Reordered.resolved {c c' : ClassInfo} (h : c.Reordered c') :
    c.resolved.Reordered c'.resolved := by
  obtain ⟨interfaces, rfl, hi⟩ := h
  exact ⟨interfaces, rfl, hi⟩

/-- Whether two documents differ only in the order of classes and packages, in the order of
endpoints, handlers and interfaces, and in how often they name the last three. -/
structure IndexDocument.Reordered (doc doc' : IndexDocument) : Prop where
  classes : ∃ cs, doc.classes.Perm cs ∧ List.Forall₂ ClassInfo.Reordered cs doc'.classes
  packages : doc.packages.Perm doc'.packages
  mem_endpoints (e : Endpoint) : e ∈ doc.endpoints ↔ e ∈ doc'.endpoints
  contract : doc.handlers.contract = doc'.handlers.contract
  mem_handlers (n : ClassName) : n ∈ doc.handlers.types ↔ n ∈ doc'.handlers.types

theorem exists_of_forall₂ {α β : Type} {R : α → β → Prop} {xs : List α} {ys : List β} {x : α}
    (h : List.Forall₂ R xs ys) (hx : x ∈ xs) : ∃ y ∈ ys, R x y := by
  induction h with
  | nil => cases hx
  | cons hr _ ih =>
    rcases List.mem_cons.mp hx with rfl | hx
    · exact ⟨_, List.mem_cons_self, hr⟩
    · obtain ⟨y, hy, hr'⟩ := ih hx
      exact ⟨y, List.mem_cons_of_mem _ hy, hr'⟩

namespace IndexDocument.Reordered

variable {doc doc' : IndexDocument} {c : ClassInfo}

theorem exists_class (h : doc.Reordered doc') (hc : c ∈ doc.classes) :
    ∃ c' ∈ doc'.classes, c.Reordered c' := by
  obtain ⟨cs, hp, hr⟩ := h.classes
  exact exists_of_forall₂ hr (hp.mem_iff.mp hc)

theorem exists_class' (h : doc.Reordered doc') (hc : c ∈ doc'.classes) :
    ∃ c' ∈ doc.classes, c.Reordered c' := by
  obtain ⟨cs, hp, hr⟩ := h.classes
  have hr' : List.Forall₂ ClassInfo.Reordered doc'.classes cs :=
    (hr.imp fun _ _ => ClassInfo.Reordered.symm).flip
  obtain ⟨c', hc', hr⟩ := exists_of_forall₂ hr' hc
  exact ⟨c', hp.mem_iff.mpr hc', hr⟩

end IndexDocument.Reordered

/-- Candidates that are the same but for their order and how often they are named. -/
structure Candidates.Same (c c' : Candidates) : Prop where
  mem_roots (t : TypeRef) : t ∈ c.roots ↔ t ∈ c'.roots
  contract : c.contract = c'.contract
  isCustom (t : TypeRef) : c.isCustom t = c'.isCustom t

/-! ## Indexes -/

theorem find?_perm {α : Type} {key : α → String} {xs ys : List α} (h : xs.Perm ys)
    (hn : (xs.map key).Nodup) (k : String) :
    xs.find? (key · == k) = ys.find? (key · == k) := by
  have hfind : ∀ (zs : List α) (a : α), (zs.map key).Nodup →
      (zs.find? (key · == k) = some a ↔ a ∈ zs ∧ key a = k) := by
    intro zs a hz
    constructor
    · intro ha
      exact ⟨List.mem_of_find?_eq_some ha, by simpa using List.find?_some ha⟩
    · rintro ⟨ha, hk⟩
      cases hb : zs.find? (key · == k) with
      | none => exact absurd hk (by simpa using List.find?_eq_none.mp hb a ha)
      | some b =>
        have hkb : key b = k := by simpa using List.find?_some hb
        rw [List.inj_on_of_nodup_map hz (List.mem_of_find?_eq_some hb) ha (hkb.trans hk.symm)]
  ext a
  rw [hfind xs a hn, hfind ys a ((h.map key).nodup_iff.mp hn), h.mem_iff]

namespace Index

variable {doc doc' : IndexDocument} {ix ix' : Index}

theorem ofDocument_eq_ok (h : ofDocument doc = .ok ix) :
    ix.classes = doc.classes.map ClassInfo.resolved ∧ ix.packages = doc.packages ∧
      ix.endpoints = doc.endpoints ∧ ix.handlers = doc.handlers := by
  rw [ofDocument] at h
  split at h
  · cases h
  · cases h
    exact ⟨rfl, rfl, rfl, rfl⟩

theorem class?_reordered
    (hd : ∀ c ∈ doc.classes, ∃ c' ∈ doc'.classes, c.Reordered c') (h : ofDocument doc = .ok ix)
    (h' : ofDocument doc' = .ok ix') {n : ClassName} {c : ClassInfo} (hc : ix.class? n = some c) :
    ∃ c', ix'.class? n = some c' ∧ c.Reordered c' := by
  have hm := mem_of_class? hc
  rw [(ofDocument_eq_ok h).1] at hm
  obtain ⟨d, hdoc, rfl⟩ := List.mem_map.mp hm
  obtain ⟨d', hdoc', hr⟩ := hd d hdoc
  have hr := hr.resolved
  have hm' : d'.resolved ∈ ix'.classes := by
    rw [(ofDocument_eq_ok h').1]
    exact List.mem_map_of_mem hdoc'
  have hname : d'.resolved.name = n := hr.name.trans (name_of_class? hc)
  exact ⟨d'.resolved, hname ▸ class?_of_mem hm', hr⟩

/-- **Reordered documents describe reordered indexes.** -/
theorem reordered_ofDocument (hd : doc.Reordered doc')
    (hp : (doc.packages.map (·.name)).Nodup) (h : ofDocument doc = .ok ix)
    (h' : ofDocument doc' = .ok ix') : ix.Reordered ix' := by
  refine ⟨class?_reordered (fun c => hd.exists_class) h h',
    class?_reordered (fun c => hd.exists_class') h' h, fun n => ?_⟩
  rw [packageOf?, packageOf?, (ofDocument_eq_ok h).2.1, (ofDocument_eq_ok h').2.1]
  cases n.package? with
  | none => rfl
  | some p =>
    refine find?_perm ?_ ?_ p
    · exact (List.reverse_perm _).trans (hd.packages.trans (List.reverse_perm _).symm)
    · rw [List.map_reverse]
      exact List.nodup_reverse.mpr hp

theorem candidates_ofDocument (hd : doc.Reordered doc') (h : ofDocument doc = .ok ix)
    (h' : ofDocument doc' = .ok ix') : ix.candidates.Same ix'.candidates := by
  obtain ⟨-, -, he, hh⟩ := ofDocument_eq_ok h
  obtain ⟨-, -, he', hh'⟩ := ofDocument_eq_ok h'
  refine ⟨fun t => ?_, ?_, fun t => ?_⟩
  · simp only [candidates, he, he', List.mem_filterMap, hd.mem_endpoints]
  · simp only [candidates, hh, hh', hd.contract]
  · simp only [candidates, hh, hh', hd.mem_handlers]

end Index

/-! ## Generations -/

namespace Schema

variable {s s' : Schema} {ix ix' : Index} {c c' : Candidates} {memo : Memo} {eager : Bool}

theorem agree_of_reordered (h : ix.Reordered ix') (settings : Settings) :
    Agrees ⟨ix, settings⟩ ⟨ix', settings⟩ where
  settings := rfl
  isEnum n := by
    rw [isEnum, isEnum]
    cases hc : ix.class? n with
    | none => rw [h.unknown hc]
    | some c =>
      obtain ⟨c', hc', hr⟩ := h.known hc
      obtain ⟨_, rfl, -⟩ := hr
      rw [hc']
      rfl
  inspect? := h.inspect?

/-- What is to be built depends on the set of candidates only. -/
theorem plan?_congr (hs : s.settings = s'.settings) (hc : c.Same c') : s.plan? c = s'.plan? c' := by
  rw [plan?, plan?, hs, hc.contract, funext hc.isCustom, TypeRef.sortedSet_congr hc.mem_roots]

theorem Agrees.buildAll (h : s.Agrees s') (roots : List (TypeRef × UnitId)) (memo : Memo) :
    s.buildAll eager roots memo = s'.buildAll eager roots memo := by
  induction roots generalizing memo with
  | nil => rfl
  | cons x rest ih =>
    obtain ⟨root, id⟩ := x
    simp only [Schema.buildAll, h.unit, ih]

theorem Agrees.collect (h : s.Agrees s') (rs : List (TypeRef × Option SerializerUnit)) (o : Outcome)
    (memo : Memo) : s.collect rs o memo = s'.collect rs o memo := by
  induction rs generalizing o memo with
  | nil => rfl
  | cons x rest ih =>
    obtain ⟨root, _ | u⟩ := x
    · simp only [Schema.collect, h.resolve, ih]
    · exact ih _ _

theorem Agrees.generate (h : s.Agrees s') (hc : c.Same c') :
    s.generate c eager memo = s'.generate c' eager memo := by
  rw [Schema.generate, Schema.generate, plan?_congr h.settings hc]
  simp only [h.buildAll, h.collect, inactive, h.settings, hc.contract]

/-- **Reordered documents give the same outcome.** The units, the manifest and the fault, and what
is remembered afterwards, are the same under the same settings. -/
theorem generate_reordered {doc doc' : IndexDocument} (settings : Settings) (eager : Bool)
    (memo : Memo) (hd : doc.Reordered doc') (hp : (doc.packages.map (·.name)).Nodup)
    (h : Index.ofDocument doc = .ok ix) (h' : Index.ofDocument doc' = .ok ix') :
    (Schema.mk ix settings).generate ix.candidates eager memo =
      (Schema.mk ix' settings).generate ix'.candidates eager memo :=
  (agree_of_reordered (Index.reordered_ofDocument hd hp h h') settings).generate
    (Index.candidates_ofDocument hd h h')

namespace Shapes

/-- A named shape with an area, which two interfaces ask for. -/
def square : ClassInfo where
  name := ⟨"com.acme.Square"⟩
  interfaces := [⟨"com.acme.Shape"⟩, ⟨"com.acme.Named"⟩]
  fields := [{ name := "area", type := .prim .int, visibility := .anywhere }]

/-- An interface whose annotation bears on the properties below it. -/
def shape : ClassInfo where
  name := ⟨"com.acme.Shape"⟩
  kind := .interface
  annotations := [⟨.nillable, []⟩]

/-- Another interface. -/
def named : ClassInfo where
  name := ⟨"com.acme.Named"⟩
  kind := .interface

/-- Endpoints that return the class and one of its interfaces. -/
def endpoints : List Endpoint := [⟨"one", .cls square.name⟩, ⟨"any", .cls shape.name⟩]

/-- A document of three classes in two packages. -/
def document : IndexDocument where
  classes := [square, shape, named]
  packages := [⟨"com.acme", []⟩, ⟨"com.acme.more", []⟩]
  endpoints

/-- The document the other way round, with an interface and an endpoint named twice. -/
def reversed : IndexDocument where
  classes := [named, shape, { square with
    interfaces := [⟨"com.acme.Named"⟩, ⟨"com.acme.Shape"⟩, ⟨"com.acme.Named"⟩] }]
  packages := [⟨"com.acme.more", []⟩, ⟨"com.acme", []⟩]
  endpoints := endpoints.reverse ++ endpoints

theorem document_reordered : document.Reordered reversed where
  classes := by
    refine ⟨[named, shape, square], (List.reverse_perm [named, shape, square]), ?_⟩
    refine .cons (.refl _) (.cons (.refl _) (.cons ⟨_, rfl, fun n => ?_⟩ .nil))
    simp only [square, List.mem_cons]
    tauto
  packages := .swap _ _ _
  mem_endpoints e := by simp only [document, reversed, List.mem_append, List.mem_reverse, or_self]
  contract := rfl
  mem_handlers _ := Iff.rfl

theorem generate_reordered_shapes :
    ∃ ix ix', Index.ofDocument document = .ok ix ∧ Index.ofDocument reversed = .ok ix' ∧
      document.Reordered reversed ∧ (document.packages.map (·.name)).Nodup ∧
      (Schema.mk ix {}).generate ix.candidates false {} =
        (Schema.mk ix' {}).generate ix'.candidates false {} :=
  ⟨_, _, rfl, rfl, document_reordered, by decide,
    generate_reordered {} false {} document_reordered (by decide) rfl rfl⟩

end Shapes

end Schema

end JsonBinding
