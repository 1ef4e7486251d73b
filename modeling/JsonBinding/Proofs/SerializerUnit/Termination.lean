import JsonBinding.Proofs.Program.Steady
import JsonBinding.Proofs.SerializerUnit.Outcome
import JsonBinding.Proofs.Support.Termination

/-!
# How long a build goes on

A build takes up the classes that it requested one after the other, and each of them may request
more. Carried out with a bound on the number of rounds, and without any measure, it ends as it does
without the bound as soon as there is a round for every class among the types that the resolution of
the root can open.

* `Schema.functionsWithin`, `Schema.programWithin`, `Schema.unitWithin`: builds in a bounded number
  of rounds, with the classes whose turn comes.
* `Schema.Turns`: how such a build goes when it ends within its bound.
* `Schema.turns_functionsWithin`: the rounds that the functions of a program take.
* **`Schema.build_ends`**: a build ends, and so does the resolution that it starts with.
-/

namespace JsonBinding.Schema

open Build

variable (s : Schema)

/-! ## Builds in a bounded number of rounds -/

/-- What a build gives, with the classes whose turn came. -/
abbrev Outcome (α : Type) : Type := List ClassName × Except Fault α × BuildState

/-- The functions of the classes requested and of those that they request, but for those built, in
no more than `rounds` rounds. -/
def functionsWithin (c : Place) :
    (rounds : Nat) → List ClassName → BuildState → Option (Outcome (List ObjectFunction))
  | 0, built, st =>
    match st.next? built with
    | none => some ([], .ok [], st)
    | some _ => none
  | rounds + 1, built, st =>
    match st.next? built with
    | none => some ([], .ok [], st)
    | some name =>
      match (s.objectFunction name c).run.run st with
      | (.error e, st) => some ([name], .error e, st)
      | (.ok f, st) => do
        let (names, fs, st) ← functionsWithin c rounds (name :: built) st
        pure (name :: names, fs.map (f :: ·), st)

/-- The program for a type of a form, in no more than `rounds` rounds. -/
def programWithin (rounds : Nat) (v : Variant) (t : TypeRef) (memo : Memo) :
    Option (Outcome Program) :=
  match (s.writeNotNull v (.root t)).run.run { memo } with
  | (.error e, st) => some ([], .error e, st)
  | (.ok entry, st) => do
    let (names, fs, st) ← s.functionsWithin (.root t) rounds [] st
    pure (names, fs.map (⟨entry, ·⟩), st)

/-- The unit for a root type, with a resolution of the root of a bounded depth and with a bounded
number of rounds. -/
def unitWithin (depth rounds : Nat) (root : TypeRef) (id : UnitId) (memo : Memo) :
    Option (List ClassName × Except Fault (Option SerializerUnit) × Memo) :=
  match s.missingRoot? root with
  | some name => some ([], .error (.classNotFound name.text), memo)
  | none => do
    let (found, _) ← (s.resolveWithin depth [] root memo).run []
    if found.result.support.isSupported then
      match found.result.variant? with
      | none => some ([], .error (.mismatch "root" root.text), found.memo)
      | some v => do
        let (names, built, st) ← s.programWithin rounds v root found.memo
        let unit := do sealed ⟨id, root, found.result.support.level, ← built⟩
        pure (names, unit.map some, st.memo)
    else some ([], .ok none, found.memo)

/-! ## Rounds -/

variable {s} {c : Place} {built : List ClassName} {st : BuildState} {name : ClassName}

theorem run_bind {α β : Type} (x : Build α) (f : α → Build β) (st : BuildState) :
    (x >>= f).run.run st =
      match x.run.run st with
      | (.error e, st) => (.error e, st)
      | (.ok a, st) => (f a).run.run st := by
  change ExceptT.bindCont f (x.run.run st).1 (x.run.run st).2 = _
  rcases x.run.run st with ⟨e | a, st⟩ <;> rfl

theorem functions_of_done (h : st.next? built = none) :
    (s.functions c built).run.run st = (.ok [], st) := by
  rw [run_functions, h]
  rfl

theorem functions_of_next {info : ClassInfo} (h : st.next? built = some name)
    (hc : s.index.class? name = some info) : (s.functions c built).run.run st =
      match (s.objectFunction name c).run.run st with
      | (.error e, st) => (.error e, st)
      | (.ok f, st) =>
        (((s.functions c (name :: built)).run.run st).1.map (f :: ·),
          ((s.functions c (name :: built)).run.run st).2) := by
  rw [run_functions, h, functionsFrom, hc]
  dsimp only
  rw [run_bind]
  rcases (s.objectFunction name c).run.run st with ⟨e | f, st⟩
  · rfl
  · dsimp only
    rw [run_bind]
    rcases (s.functions c (name :: built)).run.run st with ⟨e | fs, st⟩ <;> rfl

/-- How a build in a bounded number of rounds goes when it ends: as the build without the bound,
with a turn for each of some classes, which are distinct and not among those built. -/
structure Turns {α : Type} (P : ClassName → Prop) (built : List ClassName)
    (bounded? : Option (Outcome α)) (full : Except Fault α × BuildState)
    (functions : α → List ObjectFunction) (names : List ClassName) : Prop where
  ends : bounded? = some (names, full)
  nodup : (built.reverse ++ names).Nodup
  known : ∀ k ∈ names, P k
  functions : ∀ a, full.1 = .ok a → (functions a).map (·.name) = names

theorem turns_of_done {P : ClassName → Prop} {rounds : Nat} (hb : st.Built built)
    (hn : st.next? built = none) : Turns P built (s.functionsWithin c rounds built st)
      ((s.functions c built).run.run st) id [] := by
  have hends : s.functionsWithin c rounds built st = some ([], .ok [], st) := by
    cases rounds <;> rw [functionsWithin, hn]
  rw [functions_of_done hn, hends]
  refine ⟨rfl, ?_, List.forall_mem_nil _, fun a ha => by cases ha; rfl⟩
  rw [List.append_nil, hb.done hn]
  exact hb.1

/-- The classes built are the first ones of those requested, and the class whose turn comes is the
one behind them. -/
theorem built_of_next (hb : st.Built built) (hn : st.next? built = some name) :
    st.Built (name :: built) :=
  hb.cons hn (show st.requested = BuildState.enlist st.requested [] from rfl)

/-- The class whose turn comes is not among those built. -/
theorem nodup_of_next (hb : st.Built built) (hn : st.next? built = some name) :
    (built.reverse ++ [name]).Nodup := by
  have hb' := built_of_next hb hn
  rw [← List.reverse_cons]
  exact hb'.1.sublist hb'.2.sublist

theorem length_lt_of_next {classes : List ClassName} (hb : st.Built built)
    (hn : st.next? built = some name) (hc : ∀ k ∈ st.requested, k ∈ classes) :
    built.length < classes.dedup.length := by
  have hb' := built_of_next hb hn
  have hle := length_le_of_nodup (hb'.1.sublist hb'.2.sublist) fun k hk => hc k (hb'.2.subset hk)
  simpa using hle

section Functions

variable {P : ClassName → Prop} (c : Place) (hobj : ∀ k, P k → s.formOf (.cls k) = some .object)
  (hstep : ∀ n f m, P f.name → s.FunctionCode n f m → ∀ k ∈ Stmt.callees f.body, P k)

include hobj hstep

theorem built_objectFunction (hr : s.Reached st.memo) (hb : st.Built built)
    (hP : ∀ k ∈ st.requested, P k) (hn : st.next? built = some name) {f : ObjectFunction}
    {st' : BuildState} (hf : (s.objectFunction name c).run.run st = (.ok f, st')) :
    s.Reached st'.memo ∧ f.name = name ∧ st'.Built (name :: built) ∧ ∀ k ∈ st'.requested, P k := by
  have hname := hP name (BuildState.Built.mem hn)
  obtain ⟨hr', h⟩ := ensures_objectFunction (c := c) hr (hobj name hname)
  rw [hf] at hr' h
  obtain ⟨rfl, hcode, hq⟩ := h
  refine ⟨hr', rfl, hb.cons hn hq, fun k hk => ?_⟩
  rw [hq, BuildState.mem_enlist] at hk
  exact hk.elim (hP k) (hstep _ f _ hname hcode k)

/-- **The functions of a program are built in as many rounds as there are classes.** -/
theorem turns_functionsWithin {classes : List ClassName} (hclasses : ∀ k, P k → k ∈ classes)
    (rounds : Nat) {built : List ClassName} {st : BuildState}
    (hrounds : classes.dedup.length ≤ rounds + built.length) (hr : s.Reached st.memo)
    (hb : st.Built built) (hP : ∀ k ∈ st.requested, P k) :
    ∃ names, Turns P built (s.functionsWithin c rounds built st)
      ((s.functions c built).run.run st) id names := by
  -- there is a round less where one more of the classes is built
  induction rounds generalizing built st with
  | zero =>
    cases hn : st.next? built with
    | none => exact ⟨[], turns_of_done hb hn⟩
    | some name =>
      have := length_lt_of_next hb hn fun k hk => hclasses k (hP k hk)
      omega
  | succ rounds ih =>
    cases hn : st.next? built with
    | none => exact ⟨[], turns_of_done hb hn⟩
    | some name =>
      have hname := hP name (BuildState.Built.mem hn)
      obtain ⟨_, info, h, hc, -⟩ := class?_of_formOf (hobj name hname)
      cases h
      rw [functions_of_next hn hc, functionsWithin, hn]
      dsimp only
      rcases hf : (s.objectFunction name c).run.run st with ⟨e | f, st'⟩
      · exact ⟨[name], rfl, nodup_of_next hb hn, by simpa using hname, fun _ h => by cases h⟩
      · obtain ⟨hr', rfl, hb', hP'⟩ := built_objectFunction c hobj hstep hr hb hP hn hf
        obtain ⟨names, hends, hnodup, hknown, hnames⟩ :=
          ih (by rw [List.length_cons]; omega) hr' hb' hP'
        refine ⟨f.name :: names, ?_, by simpa using hnodup,
          List.forall_mem_cons.mpr ⟨hname, hknown⟩, fun fs h => ?_⟩
        · dsimp only
          rw [hends]
          rfl
        · dsimp only at h
          cases hrest : ((s.functions c (f.name :: built)).run.run st').1 with
          | error e => rw [hrest] at h; cases h
          | ok rest =>
            rw [hrest] at h
            cases h
            exact congrArg (f.name :: ·) (hnames rest hrest)

end Functions

/-! ## Units -/

variable {memo : Memo} {root : TypeRef} {id : UnitId} {v : Variant} {k : ClassName}

/-- The classes that a type needs are among the types that its resolution can open. -/
theorem Needs.mem_surroundings (h : s.Needs root k) : .cls k ∈ s.surroundings root := by
  have hC := s.encloses_surroundings root
  obtain ⟨h, -⟩ := h
  generalize TypeRef.cls k = t at h
  induction h with
  | refl => exact s.self_mem_surroundings root
  | tail _ hpart ih =>
    cases hpart.1 with
    | element _ hu => exact hC.element ih hu
    | value hu => exact hC.value ih hu
    | property hp _ =>
      obtain ⟨_, c, rfl, -, hc, hp⟩ := hp
      exact hC.property (Index.mem_of_class? hc) hp

theorem mem_classesIn {ts : List TypeRef} (h : .cls k ∈ ts) : k ∈ TypeRef.classesIn ts :=
  List.mem_filterMap.mpr ⟨_, h, rfl⟩

/-- A program is built in as many rounds as there are classes. -/
theorem turns_programWithin (hr : s.Reached memo) (hf : s.formOf root = some v) {rounds : Nat}
    (hrounds : (TypeRef.classesIn (s.surroundings root)).dedup.length ≤ rounds) :
    ∃ names, Turns (s.Needs root) [] (s.programWithin rounds v root memo)
      ((s.program v root).run.run { memo }) (·.functions) names := by
  obtain ⟨hr', h⟩ := ensures_entry memo hr hf (E := False)
  rw [program, run_bind, programWithin]
  rcases hentry : (s.writeNotNull v (.root root)).run.run { memo } with ⟨e | entry, st⟩
  · rw [hentry] at h
    exact h.elim
  · rw [hentry] at hr' h
    obtain ⟨-, -, hb, hP⟩ := h
    obtain ⟨names, hends, hnodup, hknown, hnames⟩ := turns_functionsWithin (.root root)
      (fun k hk => hk.2) (fun _ _ _ hk hcode => hcode.needs_of_needs hk)
      (fun k hk => mem_classesIn hk.mem_surroundings) rounds (by simpa using hrounds) hr' hb hP
    dsimp only
    rw [run_bind, hends]
    rcases hfs : (s.functions (.root root) []).run.run st with ⟨e | fs, st'⟩
    · exact ⟨names, rfl, hnodup, hknown, fun _ h => by cases h⟩
    · refine ⟨names, rfl, hnodup, hknown, fun p hp => ?_⟩
      cases hp
      exact hnames fs (by rw [hfs])

theorem eq_of_sealed {p : Program} {level : SupportLevel} {u : SerializerUnit}
    (h : ((Except.ok p).bind fun p => sealed ⟨id, root, level, p⟩).map some = .ok (some u)) :
    u = ⟨id, root, level, p⟩ := by
  change (sealed ⟨id, root, level, p⟩).map some = .ok (some u) at h
  rw [sealed] at h
  split_ifs at h <;> cases h
  rfl

theorem turns_unitWithin (id : UnitId) (hr : s.Reached memo) {depth rounds : Nat}
    {met : List (List TypeRef)}
    (hdepth : (s.resolveWithin depth [] root memo).run [] = some (s.resolveIn [] root memo, met))
    (hrounds : (TypeRef.classesIn (s.surroundings root)).dedup.length ≤ rounds) :
    ∃ names, s.unitWithin depth rounds root id memo = some (names, s.unit root id memo) ∧
      names.Nodup ∧ (∀ k ∈ names, s.Needs root k) ∧
      ∀ u, (s.unit root id memo).1 = .ok (some u) → u.program.functions.map (·.name) = names := by
  rw [unitWithin]
  cases hm : s.missingRoot? root with
  | some name =>
    rw [unit_of_missing hm]
    exact ⟨[], rfl, List.nodup_nil, List.forall_mem_nil _, fun _ h => by cases h⟩
  | none =>
    have he := hr.exact_resolve root
    change s.Exact root (s.resolveIn [] root memo).result at he
    simp only [hdepth, Option.bind_eq_bind, Option.bind_some]
    by_cases hb : s.Blocked root
    · rw [if_neg (by rw [he.isSupported_iff]; exact fun h => h hb), unit_of_blocked hr hm hb]
      exact ⟨[], rfl, List.nodup_nil, List.forall_mem_nil _, fun _ h => by cases h⟩
    · obtain ⟨v, hv⟩ := exists_formOf hb
      obtain ⟨names, hends, hnodup, hknown, hnames⟩ :=
        turns_programWithin (hr.resolve root) hv hrounds
      rw [if_pos (he.isSupported_iff.mpr hb), unit_of_supported hr hv]
      simp only [he.variant?_eq, hv]
      change ∃ names, (s.programWithin rounds v root (s.resolve root memo).2).bind _ = _ ∧ _
      rw [hends]
      refine ⟨names, rfl, hnodup, hknown, fun u hu => ?_⟩
      cases hp : ((s.program v root).run.run { memo := (s.resolve root memo).2 }).1 with
      | error e =>
        simp only [hp] at hu
        cases hu
      | ok p =>
        simp only [hp] at hu
        rw [eq_of_sealed hu]
        exact hnames p hp

/-- **A build ends, and so does the resolution that it starts with.** -/
theorem build_ends (hr : s.Reached memo) (root : TypeRef) (id : UnitId) :
    (∃ found met, (s.resolveWithin ((s.surroundings root).dedup.length + 1) [] root memo).run [] =
        some (found, met) ∧ (found.result, found.memo) = s.resolve root memo ∧
      ∀ opened ∈ met, opened.Nodup ∧ opened ⊆ s.surroundings root) ∧
    ∃ names, s.unitWithin ((s.surroundings root).dedup.length + 1)
        (TypeRef.classesIn (s.surroundings root)).dedup.length root id memo =
        some (names, s.unit root id memo) ∧
      names.Nodup ∧ (∀ k ∈ names, .cls k ∈ s.surroundings root) ∧
      ∀ u, (s.unit root id memo).1 = .ok (some u) →
        u.program.functions.map (·.name) = names ∧
        u.program.functions.length ≤ (TypeRef.classesIn (s.surroundings root)).dedup.length := by
  obtain ⟨met, hmet, hdepth⟩ := exists_resolveWithin root memo (s := s)
  obtain ⟨names, hends, hnodup, hknown, hnames⟩ := turns_unitWithin id hr hdepth le_rfl
  refine ⟨⟨_, met, hdepth, rfl, hmet⟩, names, hends, hnodup,
    fun k hk => (hknown k hk).mem_surroundings, fun u hu => ⟨hnames u hu, ?_⟩⟩
  have hle := length_le_of_nodup hnodup fun k hk => mem_classesIn (hknown k hk).mem_surroundings
  rwa [← hnames u hu, List.length_map] at hle

/-! ## The tree -/

namespace Tree

theorem surroundings_node : tree.surroundings (.cls node.name) =
    [.cls node.name, nodes, .cls node.name, .cls ⟨"java.time.LocalDate"⟩,
      .cls ⟨"java.lang.Object"⟩] := by
  have hclasses : tree.index.classes = [node] := rfl
  rw [surroundings, hclasses, List.flatMap_cons, properties_node]
  cbv

/-- Nodes hold nodes, and yet their unit is built in as many rounds as there are classes around. -/
theorem build_ends_tree :
    tree.Reached (tree.resolve nodes {}).2 ∧
    (∃ found met, (tree.resolveWithin 5 [] (.cls node.name) (tree.resolve nodes {}).2).run [] =
      some (found, met)) ∧
    ∃ names, tree.unitWithin 5 3 (.cls node.name) ⟨"NodeSerializer"⟩ (tree.resolve nodes {}).2 =
        some (names,
          tree.unit (.cls node.name) ⟨"NodeSerializer"⟩ (tree.resolve nodes {}).2) ∧
      ∃ u, (tree.unit (.cls node.name) ⟨"NodeSerializer"⟩ (tree.resolve nodes {}).2).1 =
        .ok (some u) ∧ u.program.functions.length ≤ 3 := by
  have hr : tree.Reached (tree.resolve nodes {}).2 := .resolve _ .start
  have htypes : (tree.surroundings (.cls node.name)).dedup.length = 4 := by
    rw [surroundings_node]
    decide
  have hclasses : (TypeRef.classesIn (tree.surroundings (.cls node.name))).dedup.length = 3 := by
    rw [surroundings_node]
    decide
  obtain ⟨p, -, hu⟩ :=
    unit_of_dated (dated_of_hasDates hasDates) hr not_blocked_node ⟨"NodeSerializer"⟩
  obtain ⟨⟨found, met, hresolve, -, -⟩, names, hbuild, -, -, hfunctions⟩ :=
    build_ends hr (.cls node.name) ⟨"NodeSerializer"⟩
  rw [htypes] at hresolve hbuild
  rw [hclasses] at hbuild hfunctions
  exact ⟨hr, ⟨found, met, hresolve⟩, names, hbuild, _, hu, (hfunctions _ hu).2⟩

end Tree

end JsonBinding.Schema
