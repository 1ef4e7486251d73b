import JsonBinding.Proofs.Reflection.Dates
import JsonBinding.Proofs.SerializerUnit.Faithful

/-!
# Dates that are left to the generic writer

A unit leaves the value of a deferred property to the generic writer by its type alone. The date
format of the property is not passed on.

* **`deferred_dates_iff`**: when what is left to the generic writer is written as the generic writer
  writes it within its owner.
* `logbook`: a class with dates in a deferred property, which are written differently.
-/

namespace JsonBinding.Schema

variable {s : Schema} {memo : Memo} {root : TypeRef} {id : UnitId} {u : SerializerUnit}
  {f : ObjectFunction} {p : Property}

theorem exists_leaf (hr : s.Reached memo) (hu : (s.unit root id memo).1 = .ok (some u))
    (hf : f ∈ u.program.functions) (hp : s.Defers (.cls f.name) p) :
    ∃ e, .writeUnhandled e p.type ∈ Stmt.allOf f.body := by
  obtain ⟨rfl, hcode⟩ := programCode_of_unit hr hu
  obtain ⟨n, m, hfunction⟩ := hcode.function hf
  exact Stmt.mem_leaves_iff.mp
    ((hfunction.mem_leaves_iff (hcode.needed f hf).2).mpr ⟨p, hp, rfl⟩)

/-- **A deferred property keeps its date format just when this writes dates as the settings do**, or
when its type holds no dates. -/
theorem deferred_dates_iff (s : Schema) {memo : Memo} {root : TypeRef} {id : UnitId}
    {u : SerializerUnit} {f : ObjectFunction} {p : Property} (hr : s.Reached memo)
    (hu : (s.unit root id memo).1 = .ok (some u)) (hf : f ∈ u.program.functions)
    (hp : s.Defers (.cls f.name) p) :
    (∃ e, .writeUnhandled e p.type ∈ Stmt.allOf f.body) ∧
    ((∀ (v : Json) text, (s.writeUnhandled v p.type).written.1 = .complete text ↔
      (s.reflect v p.type (some p.annotations)).written.1 = .complete text) ↔
    (p.type.HoldsDates → ∀ text, s.dateText none text = s.dateText (some p.annotations) text)) :=
  ⟨exists_leaf hr hu hf hp, written_alike_iff⟩

namespace Logbook

/-- Calendars, the days of which go by anything at all. -/
abbrev calendars : TypeRef :=
  .array (.app ⟨"java.util.Map"⟩ [.cls ⟨"java.lang.Object"⟩, .cls ⟨"java.time.LocalDate"⟩])

/-- A class whose instances hold calendars with a date format. -/
def log : ClassInfo where
  name := ⟨"com.acme.Log"⟩
  fields := [{ name := "days", type := calendars, visibility := .anywhere,
               annotations := [Tree.dayFirst] }]

end Logbook

/-- The schema of the logbook. -/
def logbook : Schema := { index := { classes := [Logbook.log], nodup_names := by decide } }

namespace Logbook

/-- A calendar with one day. -/
def dayOf (text : String) : Json := .arr [.obj [("start", .str text)]]

/-- The calendars of a log. -/
def days : Property := ⟨"days", "days", false, calendars, .field "days", [(.field, Tree.dayFirst)]⟩

theorem properties_log : logbook.properties (logbook.index.inspect log) = [days] := by
  cbv

theorem class?_log : logbook.index.class? log.name = some log := rfl

theorem variant?_log : logbook.variant? (.cls log.name) = some .object :=
  variant?_of_own (by simp [log, ClassName.isPlatform]) rfl

theorem impossibility?_log : (logbook.index.inspect log).impossibility? = none := by cbv

theorem hasProperty_log {p : Property} :
    logbook.HasProperty (.cls log.name) p ↔ p = days := by
  constructor
  · rintro ⟨n, c, hn, -, hc, hp⟩
    cases hn
    cases class?_log.symm.trans hc
    simpa [properties_log] using hp
  · rintro rfl
    refine ⟨_, log, rfl, shape?_of_class? variant?_log class?_log, class?_log, ?_⟩
    rw [properties_log]
    exact List.mem_singleton_self _

theorem not_blocked_log : ¬ logbook.Blocked (.cls log.name) := by
  refine not_blocked_of_parts (fun h => ?_) fun u h => ?_
  · have hf := h.by_form
    rw [variant?_log] at hf
    simp only [Option.some.injEq, reduceCtorEq, false_and, or_self, false_or, true_and] at hf
    obtain ⟨n, hn, hi⟩ := hf
    cases hn
    exact hi log class?_log impossibility?_log
  · have hp := h.by_form
    rw [variant?_log] at hp
    simp only [Option.some.injEq, reduceCtorEq, false_and, or_self, false_or, true_and] at hp
    obtain ⟨p, hp, hd, rfl⟩ := hp
    cases hasProperty_log.mp hp
    cases hd

/-- What the days of a calendar go by cannot be written as a key, so that calendars are deferred. -/
theorem defers_days : logbook.Defers (.cls log.name) days := by
  refine ⟨hasProperty_log.mpr rfl, rfl, _, .single (.element (.inr rfl) rfl), .badKey rfl ?_⟩
  cbv

theorem holdsDates : calendars.HoldsDates := .element rfl (.value rfl (.date (by decide)))

theorem exists_unit : ∃ u, (logbook.unit (.cls log.name) ⟨"LogSerializer"⟩ {}).1 = .ok (some u) ∧
    ∃ f ∈ u.program.functions, f.name = log.name := by
  have hdates : logbook.index.HasDates :=
    Tree.hasDates_of_bears fun a ha => by simpa [Index.Bears, logbook, log] using ha
  obtain ⟨p, hp, hu⟩ :=
    unit_of_dated (dated_of_hasDates hdates) .start not_blocked_log ⟨"LogSerializer"⟩
  exact ⟨_, hu, (hp.object_function .refl variant?_log).2⟩

theorem document_dayOf {a? : Option AnnotationSet} {text shown : String}
    (h : logbook.dateText a? text = some shown) :
    (logbook.document (dayOf text) (some calendars) a?).toOption = some (dayOf shown) := by
  rw [dayOf, toOption_items (.inl rfl) rfl, toOption_entries rfl,
    document_date (by decide) rfl, toOption_date]
  simp [Json.string?, h, dayOf]

theorem dateText_plain : logbook.dateText none "2024-02-29" = some "2024-02-29" := rfl

theorem dateText_days :
    logbook.dateText (some days.annotations) "2024-02-29" = some "29.02.2024" := by
  cbv

theorem deferred_dates_iff_days : logbook.Reached {} ∧ ∃ u f,
    (logbook.unit (.cls log.name) ⟨"LogSerializer"⟩ {}).1 = .ok (some u) ∧
    f ∈ u.program.functions ∧ logbook.Defers (.cls f.name) days ∧
    (∃ e, .writeUnhandled e days.type ∈ Stmt.allOf f.body) ∧
    ¬ ∀ (v : Json) text, (logbook.writeUnhandled v days.type).written.1 = .complete text ↔
      (logbook.reflect v days.type (some days.annotations)).written.1 = .complete text := by
  obtain ⟨u, hu, f, hf, hname⟩ := exists_unit
  have hp : logbook.Defers (.cls f.name) days := hname ▸ defers_days
  obtain ⟨hleaf, halike⟩ := deferred_dates_iff logbook .start hu hf hp
  refine ⟨.start, u, f, hu, hf, hp, hleaf, fun h => ?_⟩
  have := halike.mp h holdsDates "2024-02-29"
  rw [dateText_plain, dateText_days] at this
  simp at this

/-- A day is written in ISO form where its property has another format. -/
theorem lost_format : ∃ u f e,
    (logbook.unit (.cls log.name) ⟨"LogSerializer"⟩ {}).1 = .ok (some u) ∧
    f ∈ u.program.functions ∧ logbook.Defers (.cls f.name) days ∧
    days.annotations.get? .dateFormat = some Tree.dayFirst ∧
    .writeUnhandled e days.type ∈ Stmt.allOf f.body ∧
    (logbook.writeUnhandled (dayOf "2024-02-29") days.type).written.1 =
      .complete "[\x7b\"start\":\"2024-02-29\"\x7d]" ∧
    (logbook.reflect (dayOf "2024-02-29") days.type (some days.annotations)).written.1 =
      .complete "[\x7b\"start\":\"29.02.2024\"\x7d]" := by
  obtain ⟨u, hu, f, hf, hname⟩ := exists_unit
  have hp : logbook.Defers (.cls f.name) days := hname ▸ defers_days
  obtain ⟨e, he⟩ := exists_leaf .start hu hf hp
  refine ⟨u, f, e, hu, hf, hp, rfl, he, ?_, ?_⟩
  · refine written_complete_iff.mpr ?_
    rw [show days.type = calendars from rfl, document_dayOf dateText_plain]
    cbv
  · refine written_complete_iff.mpr ?_
    rw [show days.type = calendars from rfl, document_dayOf dateText_days]
    cbv

end Logbook

end JsonBinding.Schema
