import JsonBinding.Proofs.Generation.Entries
import JsonBinding.Proofs.Program.Steady
import JsonBinding.Proofs.SerializerUnit.Outcome

/-!
# What becomes of root types

What becomes of each root type of a generation does not depend on what was resolved before; only the
reasons that are found for those without a unit do.

* `Schema.attempt`: what becomes of a root, and `Schema.results`: of some roots up to the first
  fault.
* `Schema.explained`: the reasons found for some roots, one after the other.
* `buildAll_eager`, `buildAll_lazy`: what is built, whatever was resolved before.
* `collect_eq`: what is collected, the units apart from the reasons.
-/

namespace JsonBinding

namespace Schema

variable {s : Schema} {memo memo' : Memo} {root t : TypeRef} {id : UnitId}

/-! ## Units -/

theorem Exact.level_eq {r r' : Resolution} (h : s.Exact t r) (h' : s.Exact t r') :
    r.support.level = r'.support.level := by
  cases hl : r.support.level with
  | unsupported => exact (h'.unsupported.mpr (h.unsupported.mp hl)).symm
  | withUnhandled => exact (h'.withUnhandled.mpr (h.withUnhandled.mp hl)).symm
  | fully => exact (h'.fully.mpr (h.fully.mp hl)).symm

/-- The unit of a root does not depend on what was resolved before. -/
theorem unit_steady (hr : s.Reached memo) (hr' : s.Reached memo') (root : TypeRef) (id : UnitId) :
    (s.unit root id memo).1 = (s.unit root id memo').1 := by
  by_cases hb : s.Blocked root
  · cases hm : s.missingRoot? root with
    | some name => rw [unit_of_missing hm, unit_of_missing hm]
    | none => rw [unit_of_blocked hr hm hb, unit_of_blocked hr' hm hb]
  · obtain ⟨v, hv⟩ := exists_formOf hb
    rw [unit_of_supported hr hv, unit_of_supported hr' hv]
    have hl := (hr.exact_resolve root).level_eq (hr'.exact_resolve root)
    have hp := (steady_program (s := s) v root { memo := (s.resolve root memo).2 }
      { memo := (s.resolve root memo').2 } ⟨hr.resolve root, hr'.resolve root, rfl, rfl⟩).1
    simp only [hl, hp]

variable (s) in
/-- What becomes of a root. -/
def attempt (x : TypeRef × UnitId) : Attempt := (x.1, (s.unit x.1 x.2 {}).1)

theorem attempt_eq (hr : s.Reached memo) (x : TypeRef × UnitId) :
    s.attempt x = (x.1, (s.unit x.1 x.2 memo).1) := by
  rw [attempt, unit_steady .start hr]

theorem buildAll_eager (hr : s.Reached memo) (roots : List (TypeRef × UnitId)) :
    (s.buildAll true roots memo).1 = roots.map s.attempt ∧
      s.Reached (s.buildAll true roots memo).2 := by
  induction roots generalizing memo with
  | nil => exact ⟨rfl, hr⟩
  | cons x rest ih =>
    have hx := attempt_eq hr x
    have hr' := hr.unit x.1 x.2
    rcases hu : s.unit x.1 x.2 memo with ⟨built, memo₁⟩
    rw [hu] at hx hr'
    obtain ⟨h, hr''⟩ := ih hr'
    simp only [buildAll, hu]
    cases built with
    | error e =>
      exact ⟨by rw [List.map_cons, hx, ← h], hr''⟩
    | ok u? =>
      exact ⟨by rw [List.map_cons, hx, ← h], hr''⟩

variable (s) in
/-- What becomes of some roots, or the first fault among them. -/
def results (roots : List (TypeRef × UnitId)) :
    Except Fault (List (TypeRef × Option SerializerUnit)) :=
  (roots.map s.attempt).mapM fun (root, built) => built.map (root, ·)

theorem buildAll_lazy (hr : s.Reached memo) (roots : List (TypeRef × UnitId)) :
    ((s.buildAll false roots memo).1.mapM fun (root, built) => built.map (root, ·)) =
      s.results roots ∧ s.Reached (s.buildAll false roots memo).2 := by
  induction roots generalizing memo with
  | nil => exact ⟨rfl, hr⟩
  | cons x rest ih =>
    have hx := attempt_eq hr x
    have hr' := hr.unit x.1 x.2
    rcases hu : s.unit x.1 x.2 memo with ⟨built, memo₁⟩
    rw [hu] at hx hr'
    obtain ⟨h, hr''⟩ := ih hr'
    rw [results] at h ⊢
    simp only [buildAll, hu, List.map_cons, hx]
    cases built with
    | error e => exact ⟨rfl, hr'⟩
    | ok u? =>
      simp only [List.mapM_cons]
      exact ⟨by rw [h], hr''⟩

variable (s) in
open Classical in
/-- The roots without support. -/
noncomputable def unsupported (roots : List (TypeRef × UnitId)) : List TypeRef :=
  (roots.map (·.1)).filter fun t => s.Blocked t

/-- The roots without a unit. -/
def withoutUnit (rs : List (TypeRef × Option SerializerUnit)) : List TypeRef :=
  (rs.filter (·.2.isNone)).map (·.1)

theorem isNone_of_unit {u? : Option SerializerUnit} (h : (s.unit root id {}).1 = .ok u?) :
    u?.isNone = true ↔ s.Blocked root := by
  by_cases hb : s.Blocked root
  · cases hm : s.missingRoot? root with
    | some name =>
      rw [unit_of_missing hm] at h
      cases h
    | none =>
      rw [unit_of_blocked .start hm hb] at h
      cases h
      simp [hb]
  · rcases unit_program id (Reached.start (s := s)) hb with ⟨p, -, hp⟩ | ⟨-, e, he⟩
    · rw [hp] at h
      cases h
      simp [hb]
    · rw [he] at h
      cases h

theorem results_cons_eq_ok {x : TypeRef × UnitId} {rest : List (TypeRef × UnitId)}
    {rs : List (TypeRef × Option SerializerUnit)} (h : s.results (x :: rest) = .ok rs) :
    ∃ u? rs', (s.unit x.1 x.2 {}).1 = .ok u? ∧ s.results rest = .ok rs' ∧
      rs = (x.1, u?) :: rs' := by
  rw [results, List.map_cons, List.mapM_cons, attempt] at h
  cases hu : (s.unit x.1 x.2 {}).1 with
  | error e =>
    rw [hu] at h
    cases h
  | ok u? =>
    rw [hu] at h
    change (s.results rest >>= fun rs' => pure ((x.1, u?) :: rs')) = .ok rs at h
    cases hrest : s.results rest with
    | error e =>
      rw [hrest] at h
      cases h
    | ok rs' =>
      rw [hrest] at h
      cases h
      exact ⟨u?, rs', rfl, rfl, rfl⟩

theorem withoutUnit_results {roots : List (TypeRef × UnitId)}
    {rs : List (TypeRef × Option SerializerUnit)} (h : s.results roots = .ok rs) :
    withoutUnit rs = s.unsupported roots := by
  induction roots generalizing rs with
  | nil => cases h; rfl
  | cons x rest ih =>
    obtain ⟨u?, rs', hu, hrest, rfl⟩ := results_cons_eq_ok h
    have hrest := ih hrest
    rw [withoutUnit, unsupported] at hrest ⊢
    cases u? with
    | none =>
      have hb : s.Blocked x.1 := (isNone_of_unit hu).mp rfl
      simpa [hb] using hrest
    | some u =>
      have hb : ¬ s.Blocked x.1 := fun hb => nomatch (isNone_of_unit hu).mpr hb
      simpa [hb] using hrest

/-! ## Outcomes -/

end Schema

/-- The exclusion of a root for a reason. -/
def Exclusion.of (root : TypeRef) : Option Reason → Exclusion
  | some reason => ⟨reason.text, reason.failingType⟩
  | none => ⟨"not generated", root.text⟩

namespace Outcome

/-- The outcome with some more exclusions. -/
def excluding (o : Outcome) (es : List (String × Exclusion)) : Outcome :=
  { o with manifest := { o.manifest with notGenerated := enter o.manifest.notGenerated es } }

/-- The outcome with the units among some results. -/
def including (o : Outcome) : List (TypeRef × Option SerializerUnit) → Outcome
  | [] => o
  | (_, some u) :: rest => including ⟨o.units ++ [u], o.manifest.addUnit u⟩ rest
  | (_, none) :: rest => including o rest

/-- The outcome without the reasons of its exclusions. -/
def unexplained (o : Outcome) : Outcome :=
  { o with manifest := { o.manifest with
    notGenerated := o.manifest.notGenerated.map (Prod.map id fun _ => ⟨"", ""⟩) } }

theorem excluding_excluding (o : Outcome) (es es' : List (String × Exclusion)) :
    (o.excluding es).excluding es' = o.excluding (es ++ es') := by
  rw [excluding, excluding, excluding, enter, enter, enter, List.foldl_append]

theorem including_excluding (o : Outcome) (es : List (String × Exclusion))
    (rs : List (TypeRef × Option SerializerUnit)) :
    (o.excluding es).including rs = (o.including rs).excluding es := by
  induction rs generalizing o with
  | nil => rfl
  | cons x rest ih =>
    obtain ⟨root, _ | u⟩ := x
    · exact ih o
    · rw [including, including, ← ih]
      congr 1
      simp only [excluding, Manifest.addUnit]
      split <;> rfl

theorem notGenerated_including (o : Outcome) (rs : List (TypeRef × Option SerializerUnit)) :
    (o.including rs).manifest.notGenerated = o.manifest.notGenerated := by
  induction rs generalizing o with
  | nil => rfl
  | cons x rest ih =>
    obtain ⟨root, _ | u⟩ := x
    · exact ih o
    · rw [including, ih, Manifest.addUnit]
      split <;> rfl

theorem excluding_inj {o : Outcome} {es es' : List (String × Exclusion)} :
    o.excluding es = o.excluding es' ↔
      enter o.manifest.notGenerated es = enter o.manifest.notGenerated es' := by
  constructor
  · intro h
    exact congrArg (·.manifest.notGenerated) h
  · intro h
    rw [excluding, excluding, h]

theorem unexplained_excluding {o : Outcome} {es es' : List (String × Exclusion)}
    (h : es.map (·.1) = es'.map (·.1)) :
    (o.excluding es).unexplained = (o.excluding es').unexplained := by
  have hmap : es.map (Prod.map id fun _ => (⟨"", ""⟩ : Exclusion)) =
      es'.map (Prod.map id fun _ => ⟨"", ""⟩) := by
    have := congrArg (List.map fun key => (key, (⟨"", ""⟩ : Exclusion))) h
    rwa [List.map_map, List.map_map] at this
  simp only [unexplained, excluding, map_enter, hmap]

end Outcome

namespace Schema

variable {s : Schema} {memo memo' : Memo} {root t : TypeRef} {id : UnitId}

variable (s) in
/-- The reasons found for some roots, one after the other. -/
def explained : List TypeRef → Memo → List (String × Exclusion)
  | [], _ => []
  | root :: rest, memo =>
    (root.text, Exclusion.of root (s.resolve root memo).1.support.reason?) ::
      explained rest (s.resolve root memo).2

theorem collect_eq (rs : List (TypeRef × Option SerializerUnit)) (o : Outcome) (memo : Memo) :
    (s.collect rs o memo).1 = (o.including rs).excluding (s.explained (withoutUnit rs) memo) := by
  induction rs generalizing o memo with
  | nil => rfl
  | cons x rest ih =>
    obtain ⟨root, _ | u⟩ := x
    · rw [collect]
      show (s.collect rest _ (s.resolve root memo).2).1 = _
      rw [ih]
      have hfirst : ∀ reason?, ({ o with manifest := (o.manifest.addExclusion root reason?) } :
          Outcome) = o.excluding [(root.text, Exclusion.of root reason?)] := by
        intro reason?
        cases reason? <;> rfl
      rw [hfirst, Outcome.including_excluding, Outcome.excluding_excluding]
      rfl
    · exact ih _ memo

end Schema

end JsonBinding
