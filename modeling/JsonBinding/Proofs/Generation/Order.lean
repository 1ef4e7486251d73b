import JsonBinding.Proofs.Generation.Results
import JsonBinding.Proofs.Support.Exactness

/-!
# The order of builds

The units of a generation may be built in any order: only the reasons why roots have no unit can
depend on it.

* `Schema.generateIn`: a generation that builds in some order and collects in the order of the plan.
* `Schema.found`: the reason that goes into the manifest under the name of a root.
* **`generateIn_eq_iff`**: when a generation in some order comes to the same as one in the order of
  the plan.
* `generateIn_ne_generate_both`: two classes for which it does not.
-/

namespace JsonBinding.Schema

variable {s : Schema} {memo : Memo} {c : Candidates} {plan : Plan}
  {order roots : List (TypeRef × UnitId)}

/-! ## Generations in some order -/

section

variable (s)

/-- Enters what became of the roots of a plan. -/
def entered (plan : Plan) (x : List Attempt × Memo) : Except Fault Outcome × Memo :=
  match x.1.mapM fun (root, built) => built.map (root, ·) with
  | .error e => (.error e, x.2)
  | .ok built =>
    let (o, memo) := s.collect built { manifest := plan.manifest } x.2
    (.ok o, memo)

/-- What became of some roots when they are built in some order. -/
def buildIn (order roots : List (TypeRef × UnitId)) (memo : Memo) : List Attempt × Memo :=
  let (attempts, memo) := s.buildAll true order memo
  (roots.filterMap fun x => (order.zip attempts).lookup x, memo)

/-- A generation whose units are built in some order and entered in that of the plan. -/
def generateIn (c : Candidates) (order : List (TypeRef × UnitId)) (memo : Memo) :
    Except Fault Outcome × Memo :=
  match s.plan? c with
  | none => (.ok (s.inactive c), memo)
  | some plan => s.entered plan (s.buildIn order plan.roots memo)

/-- The reason that is found for the roots of a name. -/
def found (roots : List TypeRef) (memo : Memo) (name : String) : Option Exclusion :=
  (s.explained roots memo).reverse.lookup name

end

theorem generate_eq {eager : Bool} : s.generate c eager memo =
    match s.plan? c with
    | none => (.ok (s.inactive c), memo)
    | some plan => s.entered plan (s.buildAll eager plan.roots memo) := rfl

theorem lookup_zip_map {α β : Type} [BEq α] [LawfulBEq α] {f : α → β} {xs : List α} {a : α}
    (ha : a ∈ xs) : (xs.zip (xs.map f)).lookup a = some (f a) := by
  induction xs with
  | nil => cases ha
  | cons x xs ih =>
    rw [List.map_cons, List.zip_cons_cons, List.lookup_cons]
    by_cases h : a = x
    · simp [h]
    · rw [beq_eq_false_iff_ne.mpr h]
      exact ih ((List.mem_cons.mp ha).resolve_left h)

theorem buildIn_eq (hr : s.Reached memo) (ho : order.Perm roots) :
    s.buildIn order roots memo = (roots.map s.attempt, (s.buildAll true order memo).2) := by
  refine Prod.ext ?_ rfl
  show (roots.filterMap fun x => (order.zip (s.buildAll true order memo).1).lookup x) = _
  have hl : ∀ x ∈ roots, (order.zip (order.map s.attempt)).lookup x = (some ∘ s.attempt) x :=
    fun x hx => lookup_zip_map (ho.mem_iff.mpr hx)
  rw [(buildAll_eager hr order).1, List.filterMap_congr hl, List.filterMap_eq_map]

/-- A generation in the order of the plan is one that builds everything. -/
theorem generateIn_roots (hr : s.Reached memo) (hp : s.plan? c = some plan) :
    s.generateIn c plan.roots memo = s.generate c true memo := by
  rw [generateIn, generate_eq, hp]
  show s.entered plan _ = s.entered plan _
  rw [buildIn_eq hr (List.Perm.refl _), ← (buildAll_eager hr plan.roots).1]

/-! ## Outcomes -/

theorem notGenerated_plan? (hp : s.plan? c = some plan) : plan.manifest.notGenerated = [] := by
  rw [plan?] at hp
  split at hp <;> cases hp
  rfl

/-- What is entered, the units apart from the reasons. -/
theorem entered_eq {x : List Attempt × Memo}
    (hx : (x.1.mapM fun (root, built) => built.map (root, ·)) = s.results plan.roots) :
    (s.entered plan x).1 = (s.results plan.roots).map fun rs =>
      (({ manifest := plan.manifest } : Outcome).including rs).excluding
        (s.explained (s.unsupported plan.roots) x.2) := by
  rw [entered, hx]
  cases hrs : s.results plan.roots with
  | error e => rfl
  | ok rs =>
    show Except.ok (s.collect rs _ x.2).1 = Except.ok _
    rw [collect_eq, withoutUnit_results hrs]

theorem generate_of_plan? (hr : s.Reached memo) (hp : s.plan? c = some plan) :
    (s.generate c false memo).1 = (s.results plan.roots).map fun rs =>
      (({ manifest := plan.manifest } : Outcome).including rs).excluding
        (s.explained (s.unsupported plan.roots) (s.buildAll false plan.roots memo).2) := by
  rw [generate_eq, hp]
  exact entered_eq (buildAll_lazy hr plan.roots).1

theorem generateIn_of_plan? (hr : s.Reached memo) (hp : s.plan? c = some plan)
    (ho : order.Perm plan.roots) :
    (s.generateIn c order memo).1 = (s.results plan.roots).map fun rs =>
      (({ manifest := plan.manifest } : Outcome).including rs).excluding
        (s.explained (s.unsupported plan.roots) (s.buildAll true order memo).2) := by
  rw [generateIn, hp]
  show (s.entered plan _).1 = _
  rw [buildIn_eq hr ho]
  exact entered_eq rfl

/-! ## Reasons -/

theorem mem_unsupported {t : TypeRef} :
    t ∈ s.unsupported roots ↔ t ∈ roots.map (·.1) ∧ s.Blocked t := by
  simp [unsupported]

theorem map_fst_explained (ts : List TypeRef) (memo : Memo) :
    (s.explained ts memo).map (·.1) = ts.map TypeRef.text := by
  induction ts generalizing memo with
  | nil => rfl
  | cons t rest ih =>
    rw [explained, List.map_cons, List.map_cons, ih]

/-- The reasons found for straight types do not depend on what was resolved before. -/
theorem explained_of_straight {ts : List TypeRef} {memo' : Memo} (hr : s.Reached memo)
    (hr' : s.Reached memo') (h : ∀ t ∈ ts, s.Blocked t ∧ s.Straight t) :
    s.explained ts memo = s.explained ts memo' := by
  induction ts generalizing memo memo' with
  | nil => rfl
  | cons t rest ih =>
    obtain ⟨hb, hs⟩ := h t List.mem_cons_self
    obtain ⟨r, ht, he⟩ := hr.explains hb hs
    obtain ⟨r', ht', he'⟩ := hr'.explains hb hs
    cases he.unique he'
    rw [explained, explained, ht, ht', ih (hr.resolve t) (hr'.resolve t)
      fun u hu => h u (List.mem_cons_of_mem _ hu)]

/-- Outcomes with the same units are the same when the same is found under every name. -/
theorem excluding_eq_iff {o : Outcome} (ho : o.manifest.notGenerated = []) {ts : List TypeRef}
    {memo' : Memo} : o.excluding (s.explained ts memo) = o.excluding (s.explained ts memo') ↔
      ∀ name, s.found ts memo name = s.found ts memo' name := by
  rw [Outcome.excluding_inj, ho, enter_eq_iff]
  rfl

theorem generateIn_iff_found (hr : s.Reached memo) (hp : s.plan? c = some plan)
    (ho : order.Perm plan.roots) :
    (s.generateIn c order memo).1 = (s.generate c false memo).1 ↔
      (∃ e, (s.generate c false memo).1 = .error e) ∨
      ∀ name, s.found (s.unsupported plan.roots) (s.buildAll true order memo).2 name =
        s.found (s.unsupported plan.roots) (s.buildAll false plan.roots memo).2 name := by
  rw [generate_of_plan? hr hp, generateIn_of_plan? hr hp ho]
  cases s.results plan.roots with
  | error e => exact ⟨fun _ => .inl ⟨e, rfl⟩, fun _ => rfl⟩
  | ok rs =>
    have hn := (Outcome.notGenerated_including { manifest := plan.manifest } rs).trans
      (notGenerated_plan? hp)
    simp only [Except.map, Except.ok.injEq, excluding_eq_iff hn]
    simp

theorem unexplained_generateIn (hr : s.Reached memo) (hp : s.plan? c = some plan)
    (ho : order.Perm plan.roots) :
    (s.generateIn c order memo).1.map Outcome.unexplained =
      (s.generate c false memo).1.map Outcome.unexplained := by
  rw [generate_of_plan? hr hp, generateIn_of_plan? hr hp ho]
  cases s.results plan.roots with
  | error e => rfl
  | ok rs =>
    refine congrArg Except.ok (Outcome.unexplained_excluding ?_)
    rw [map_fst_explained, map_fst_explained]

theorem generateIn_of_straight (hr : s.Reached memo) (hp : s.plan? c = some plan)
    (ho : order.Perm plan.roots) (hs : ∀ t ∈ s.unsupported plan.roots, s.Straight t) :
    (s.generateIn c order memo).1 = (s.generate c false memo).1 := by
  rw [generate_of_plan? hr hp, generateIn_of_plan? hr hp ho, explained_of_straight
    (buildAll_eager hr order).2 (buildAll_lazy hr plan.roots).2
    fun t ht => ⟨(mem_unsupported.mp ht).2, hs t ht⟩]

/-- **What the order of builds does to a generation.** In whatever order the units are built, the
faults, the units and the roots without one are those of the order of the plan. The generations come
to the same just when there is a fault or the same reason is found under the name of every root
without support, which is so when none of these comes back to itself. -/
theorem generateIn_eq_iff (hr : s.Reached memo) (c : Candidates)
    (ho : ∀ plan, s.plan? c = some plan → order.Perm plan.roots) :
    (s.generateIn c order memo).1.map Outcome.unexplained =
      (s.generate c false memo).1.map Outcome.unexplained ∧
    ((s.generateIn c order memo).1 = (s.generate c false memo).1 ↔
      ∀ plan, s.plan? c = some plan → (∃ e, (s.generate c false memo).1 = .error e) ∨
        ∀ name, s.found (s.unsupported plan.roots) (s.buildAll true order memo).2 name =
          s.found (s.unsupported plan.roots) (s.buildAll false plan.roots memo).2 name) ∧
    ((∀ plan, s.plan? c = some plan → ∀ t ∈ s.unsupported plan.roots, s.Straight t) →
      (s.generateIn c order memo).1 = (s.generate c false memo).1) := by
  cases hp : s.plan? c with
  | none =>
    rw [generate_eq, generateIn, hp]
    exact ⟨rfl, ⟨fun _ _ h => (nomatch h), fun _ => rfl⟩, fun _ => rfl⟩
  | some plan =>
    have ho := ho plan hp
    refine ⟨unexplained_generateIn hr hp ho, ?_, fun hs => ?_⟩
    · rw [generateIn_iff_found hr hp ho]
      exact ⟨fun h _ he => Option.some.inj he ▸ h, fun h => h plan rfl⟩
    · exact generateIn_of_straight hr hp ho (hs plan rfl)

/-! ## A circle of classes -/

namespace Circle

/-- Both classes of the circle. -/
def both : Candidates where
  roots := [.cls first.name, .cls second.name]

/-- The first class and its unit name. -/
def firstRoot : TypeRef × UnitId := (.cls first.name, ⟨"jsonb.serializers.ASerializer"⟩)

/-- The second class and its unit name. -/
def secondRoot : TypeRef × UnitId := (.cls second.name, ⟨"jsonb.serializers.BSerializer"⟩)

theorem plan?_both : circle.plan? both = some ⟨[firstRoot, secondRoot], { enabled := true }⟩ := by
  cbv

theorem perm_both (plan : Plan) (hp : circle.plan? both = some plan) :
    [secondRoot, firstRoot].Perm plan.roots := by
  rw [plan?_both] at hp
  cases hp
  exact List.Perm.swap _ _ _

theorem unit_both {x : TypeRef × UnitId} (hx : x ∈ [firstRoot, secondRoot])
    (hr : circle.Reached memo) :
    circle.unit x.1 x.2 memo = (.ok none, (circle.resolve x.1 memo).2) := by
  simp only [List.mem_cons, List.not_mem_nil, or_false] at hx
  rcases hx with rfl | rfl
  · exact unit_of_blocked hr (by simp [missingRoot?, firstRoot, class?_first]) blocked_first
  · exact unit_of_blocked hr (by simp [missingRoot?, secondRoot, class?_second]) blocked_second

theorem buildAll_both {eager : Bool} {x y : TypeRef × UnitId} {r : Resolution}
    (hx : x ∈ [firstRoot, secondRoot]) (hy : y ∈ [firstRoot, secondRoot])
    (h : (circle.resolve x.1 {}).2.find? y.1 = some r) :
    (circle.buildAll eager [x, y] {}).2 = (circle.resolve x.1 {}).2 := by
  have hux := unit_both hx .start
  have huy := unit_both hy (.resolve x.1 .start)
  rw [resolve_of_find? h] at huy
  simp only [buildAll, hux, huy]

theorem found_both {r r' : Resolution} (h : memo.find? firstRoot.1 = some r)
    (h' : memo.find? secondRoot.1 = some r') :
    circle.found (circle.unsupported [firstRoot, secondRoot]) memo "com.acme.A" =
      some (Exclusion.of firstRoot.1 r.support.reason?) := by
  have hu : circle.unsupported [firstRoot, secondRoot] = [firstRoot.1, secondRoot.1] := by
    simp [unsupported, firstRoot, secondRoot, blocked_first, blocked_second]
  rw [hu, found, explained, explained, explained, resolve_of_find? h, resolve_of_find? h']
  rfl

theorem found_thread {eager : Bool} :
    (circle.found (circle.unsupported [firstRoot, secondRoot])
      (circle.buildAll eager [firstRoot, secondRoot] {}).2 "com.acme.A").map (·.failingType) =
      some "java.lang.Thread" := by
  obtain ⟨h, hm⟩ := holder_first.resolve holder_second (by decide) (by decide) (by decide)
  rw [buildAll_both (.head _) (.tail _ (.head _)) hm, found_both (find?_resolve firstRoot.1 {}) hm]
  have h : (circle.resolve firstRoot.1 {}).1.support = _ := h
  rw [h]
  rfl

theorem found_object {eager : Bool} :
    (circle.found (circle.unsupported [firstRoot, secondRoot])
      (circle.buildAll eager [secondRoot, firstRoot] {}).2 "com.acme.A").map (·.failingType) =
      some "java.lang.Object" := by
  obtain ⟨-, hm⟩ := holder_second.resolve holder_first (by decide) (by decide) (by decide)
  have hm : (circle.resolve secondRoot.1 {}).2.find? firstRoot.1 = _ := hm
  rw [buildAll_both (.tail _ (.head _)) (.head _) hm, found_both hm (find?_resolve secondRoot.1 {})]
  rfl

theorem results_both : circle.results [firstRoot, secondRoot] =
    .ok [(firstRoot.1, none), (secondRoot.1, none)] := by
  have h₁ := unit_both (.head _) .start
  have h₂ := unit_both (.tail _ (.head _)) .start
  rw [results, List.map_cons, List.map_cons, attempt, attempt, h₁, h₂]
  rfl

theorem generateIn_ne_generate_both :
    (circle.generateIn both [secondRoot, firstRoot] {}).1 ≠ (circle.generate both false {}).1 := by
  rw [ne_eq, generateIn_iff_found .start plan?_both (perm_both _ plan?_both),
    generate_of_plan? .start plan?_both, results_both]
  rintro (⟨e, he⟩ | hfound)
  · cases he
  · have hthread := @found_thread false
    rw [← hfound, found_object] at hthread
    exact absurd hthread (by decide)

/-- The platform classes that the lists besides are of. -/
def besides : Candidates where
  roots := [.cls ⟨"java.lang.Object"⟩, .cls ⟨"java.lang.Thread"⟩]

/-- A platform class and its unit name. -/
def objectRoot : TypeRef × UnitId :=
  (.cls ⟨"java.lang.Object"⟩, ⟨"jsonb.serializers.ObjectSerializer"⟩)

/-- Another platform class and its unit name. -/
def threadRoot : TypeRef × UnitId :=
  (.cls ⟨"java.lang.Thread"⟩, ⟨"jsonb.serializers.ThreadSerializer"⟩)

theorem plan?_besides :
    circle.plan? besides = some ⟨[objectRoot, threadRoot], { enabled := true }⟩ := by
  cbv

theorem perm_besides (plan : Plan) (hp : circle.plan? besides = some plan) :
    [threadRoot, objectRoot].Perm plan.roots := by
  rw [plan?_besides] at hp
  cases hp
  exact List.Perm.swap _ _ _

theorem straight_besides (plan : Plan) (hp : circle.plan? besides = some plan) :
    ∀ t ∈ circle.unsupported plan.roots, circle.Straight t := by
  rw [plan?_besides] at hp
  cases hp
  intro t ht
  obtain ⟨ht, -⟩ := mem_unsupported.mp ht
  simp only [objectRoot, threadRoot, List.map_cons, List.map_nil, List.mem_cons,
    List.not_mem_nil, or_false] at ht
  rcases ht with rfl | rfl
  · exact straight_of_variant?_none (variant?_platform (.head _)).2
  · exact straight_of_variant?_none (variant?_platform (.tail _ (.head _))).2

theorem generateIn_eq_iff_both :
    circle.Reached {} ∧ (∀ plan, circle.plan? both = some plan →
      [secondRoot, firstRoot].Perm plan.roots) ∧
    (circle.generateIn both [secondRoot, firstRoot] {}).1.map Outcome.unexplained =
      (circle.generate both false {}).1.map Outcome.unexplained ∧
    (circle.generateIn besides [threadRoot, objectRoot] {}).1 =
      (circle.generate besides false {}).1 :=
  ⟨.start, perm_both, (generateIn_eq_iff .start both perm_both).1,
    (generateIn_eq_iff .start besides perm_besides).2.2 straight_besides⟩

end Circle

end JsonBinding.Schema
