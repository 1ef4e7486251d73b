import JsonBinding.Proofs.Program.Descent
import JsonBinding.Proofs.SerializerUnit.Faithful

/-!
# How long a run goes on

A unit runs with a limit on how deep its calls may nest, and comes nowhere near it: a function that
is called by another one is run on a proper part of the value of that one. What a unit would do
beyond so many calls as the value goes deep makes no difference.

* `Schema.Stacked`: the calls that lie in one another when a run comes to a call;
  `executes_iff_stacked`.
* `Schema.callOr`, `Schema.runOr`: runs of a unit that do anything whatever beyond a limit.
* `Stacked.pairwise`, `Stacked.part`, `Stacked.length_le`: the values of calls that lie in one
  another.
* `runOr_eq`: runs do the same, whatever their limits, when the value goes less deep.
* **`run_ends`**: a run ends within as many calls as the value goes deep, and one.
-/

namespace JsonBinding.Schema

open Relation (ReflTransGen TransGen)
open Writing

variable (s : Schema)

/-! ## Stacks of calls -/

/-- The calls that lie in one another when a run of a unit on a value comes to the first one of
them, the innermost call first. Calls in it may nest only so deep. -/
inductive Stacked (u : SerializerUnit) (v : Json) : Nat → List Call → Prop
  | entry {call : Call} :
    Stmt.Comes ⟨s.callWithin u (u.callLimit v), s.writeUnhandled⟩ v call u.program.entry [] {} →
    Stacked u v (u.callLimit v) [call]
  | nested {depth : Nat} {outer call : Call} {stack : List Call} {f : ObjectFunction} :
    Stacked u v (depth + 1) (outer :: stack) → u.program.function? outer.name = some f →
    Stmt.Comes ⟨s.callWithin u depth, s.writeUnhandled⟩ outer.value call f.body [] outer.before →
    Stacked u v depth (call :: outer :: stack)

variable {s} {memo : Memo} {root : TypeRef} {id : UnitId} {u : SerializerUnit} {v x : Json}
  {depth : Nat} {call : Call} {stack : List Call}

/-- The calls that a run comes to are those on top of its stacks. -/
theorem executes_iff_stacked :
    s.Executes u v depth call ↔ ∃ stack, s.Stacked u v depth (call :: stack) := by
  constructor
  · intro h
    induction h with
    | entry h => exact ⟨[], .entry h⟩
    | nested _ hf hc ih =>
      obtain ⟨stack, ih⟩ := ih
      exact ⟨_, .nested ih hf hc⟩
  · rintro ⟨stack, h⟩
    induction stack generalizing depth call with
    | nil =>
      cases h with
      | entry h => exact .entry h
    | cons outer stack ih =>
      cases h with
      | nested h hf hc => exact .nested (ih h) hf hc

theorem Stacked.depth_add (h : s.Stacked u v depth stack) :
    depth + stack.length = u.callLimit v + 1 := by
  induction h with
  | entry => rfl
  | nested _ _ _ ih =>
    simp only [List.length_cons] at ih ⊢
    omega

theorem ProgramCode.part_of_comes {around : Surroundings} {o : Output}
    (hu : s.ProgramCode root u.program) (h : Stmt.Comes around v call u.program.entry [] o) :
    ReflTransGen Json.Holds v call.value := by
  obtain ⟨_, _, _, -, hcode, -⟩ := hu.code
  exact hcode.part_of_comes rfl h

/-- A unit without functions comes to no call. -/
theorem ProgramCode.functions_ne_nil {around : Surroundings} {o : Output}
    (hu : s.ProgramCode root u.program) (h : Stmt.Comes around v call u.program.entry [] o) :
    u.program.functions ≠ [] := by
  obtain ⟨f, hf, -⟩ := List.mem_map.mp (hu.entry h.mem_callees)
  exact List.ne_nil_of_mem hf

theorem ProgramCode.inner_of_comes {around : Surroundings} {k : ClassName} {f : ObjectFunction}
    {o : Output} (hu : s.ProgramCode root u.program) (hf : u.program.function? k = some f)
    (h : Stmt.Comes around x call f.body [] o) : TransGen Json.Holds x call.value := by
  obtain ⟨_, _, hcode⟩ := hu.function (List.mem_of_find?_eq_some hf)
  exact hcode.part_of_comes h

/-- A call that lies in another one is of a proper part of the value of that one. -/
theorem Stacked.pairwise (hu : s.ProgramCode root u.program) (h : s.Stacked u v depth stack) :
    stack.Pairwise fun inner outer => TransGen Json.Holds outer.value inner.value := by
  induction h with
  | entry => exact List.pairwise_singleton _ _
  | nested _ hf hc ih =>
    have hpart := hu.inner_of_comes hf hc
    refine List.pairwise_cons.mpr ⟨fun further hm => ?_, ih⟩
    rcases List.mem_cons.mp hm with rfl | hm
    · exact hpart
    · exact (List.rel_of_pairwise_cons ih hm).trans hpart

theorem Stacked.part (hu : s.ProgramCode root u.program) (h : s.Stacked u v depth stack) :
    ∀ call ∈ stack, ReflTransGen Json.Holds v call.value := by
  induction h with
  | entry hc =>
    intro call hm
    cases List.mem_singleton.mp hm
    exact hu.part_of_comes hc
  | nested _ hf hc ih =>
    refine List.forall_mem_cons.mpr ⟨?_, ih⟩
    exact (ih _ List.mem_cons_self).trans (hu.inner_of_comes hf hc).to_reflTransGen

/-- Calls that lie in one another are of values that go less and less deep. -/
theorem Stacked.length_le (hu : s.ProgramCode root u.program) (h : s.Stacked u v depth stack) :
    stack.length ≤ v.depth + 1 := by
  -- the depths of the values are distinct numbers that the depth of the whole bounds
  have hnodup : (stack.map (·.value.depth)).Nodup := by
    rw [List.nodup_iff_pairwise_ne, List.pairwise_map]
    exact (h.pairwise hu).imp fun hin => (Json.depth_lt_of_transGen hin).ne
  have hle : stack.map (·.value.depth) ⊆ List.range (v.depth + 1) := by
    intro d hd
    obtain ⟨call, hm, rfl⟩ := List.mem_map.mp hd
    exact List.mem_range.mpr
      (Nat.lt_succ_of_le (Json.depth_le_of_reflTransGen (h.part hu call hm)))
  simpa using (List.Nodup.subperm hnodup hle).length_le

/-! ## Beyond the limit -/

variable (s) in
/-- Runs the function of a class on a value, and does anything whatever for calls that are
deeper. -/
def callOr (u : SerializerUnit) (beyond : ClassName → Json → Writing Unit) :
    Nat → ClassName → Json → Writing Unit
  | 0, name, v => beyond name v
  | depth + 1, name, v =>
    match u.program.function? name with
    | some f => discard (Stmt.runAll ⟨callOr u beyond depth, s.writeUnhandled⟩ v f.body [])
    | none => .fail (.undefinedCall u.id.text name.text)

variable (s) in
/-- Runs a unit on a value, and does anything whatever for calls that are deeper than a limit. -/
def runOr (u : SerializerUnit) (beyond : ClassName → Json → Writing Unit) (limit : Nat)
    (v : Json) : Writing Unit :=
  if v.isNull then .fail (.shape s!"a non-null `{u.root}`" v)
  else discard (Stmt.runAll ⟨s.callOr u beyond limit, s.writeUnhandled⟩ v u.program.entry [])

theorem callWithin_eq_callOr (depth : Nat) :
    s.callWithin u depth = s.callOr u (fun _ _ => .fail (.callDepth u.id.text)) depth := by
  induction depth with
  | zero => rfl
  | succ depth ih =>
    funext name v
    cases hf : u.program.function? name <;> simp only [callWithin, callOr, hf, ih]

/-- A run of a unit fails beyond its limit. -/
theorem run_eq_runOr (u : SerializerUnit) (v : Json) :
    s.run u v = s.runOr u (fun _ _ => .fail (.callDepth u.id.text)) (u.callLimit v) v := by
  rw [run, runOr, callWithin_eq_callOr]

variable {beyond beyond' : ClassName → Json → Writing Unit} {limit limit' : Nat}

theorem discard_congr {x y : Writing Locals} {o : Output} (h : x o = y o) :
    discard x o = discard y o := by
  rw [discard_eq, discard_eq, bind_apply, bind_apply, h]

/-- **A function does the same on a value**, whatever the limits and whatever lies beyond them, when
the value goes less deep. -/
theorem callOr_eq (hu : s.ProgramCode root u.program) {k : ClassName} {o : Output}
    (hd : x.depth < limit) (hd' : x.depth < limit') :
    s.callOr u beyond limit k x o = s.callOr u beyond' limit' k x o := by
  -- both limits go down by one where the value goes down by at least one
  induction limit generalizing limit' k x o with
  | zero => exact absurd hd (Nat.not_lt_zero _)
  | succ limit ih =>
    cases limit' with
    | zero => exact absurd hd' (Nat.not_lt_zero _)
    | succ limit' =>
      rw [callOr, callOr]
      cases hf : u.program.function? k with
      | none => rfl
      | some f =>
        refine discard_congr (Stmt.runAll_congr (by rfl) f.body fun call hc => ?_)
        have := Json.depth_lt_of_transGen (hu.inner_of_comes hf hc)
        exact ih (by omega) (by omega)

/-- **A unit does the same on a value**, whatever the limits and whatever lies beyond them, when the
value goes less deep or the unit has no function. -/
theorem runOr_eq (hu : s.ProgramCode root u.program)
    (hd : u.program.functions ≠ [] → v.depth < limit)
    (hd' : u.program.functions ≠ [] → v.depth < limit') :
    s.runOr u beyond limit v = s.runOr u beyond' limit' v := by
  rw [runOr, runOr]
  split_ifs
  · rfl
  · funext o
    refine discard_congr (Stmt.runAll_congr (by rfl) u.program.entry fun call hc => ?_)
    have hf := hu.functions_ne_nil hc
    have hle := Json.depth_le_of_reflTransGen (hu.part_of_comes hc)
    exact callOr_eq hu (hle.trans_lt (hd hf)) (hle.trans_lt (hd' hf))

/-- The limit on the calls of a unit with a function is beyond the depth of a value. -/
theorem depth_lt_callLimit (h : u.program.functions ≠ []) (v : Json) :
    v.depth < u.callLimit v := by
  obtain ⟨f, hf⟩ := List.exists_mem_of_ne_nil _ h
  exact (Nat.lt_succ_of_le v.depth_le_size).trans_le
    (callLimit_deep (List.mem_map_of_mem hf) v)

theorem Stacked.depth_pos (hu : s.ProgramCode root u.program) (h : s.Stacked u v depth stack) :
    0 < depth := by
  have hlimit : v.depth < u.callLimit v := by
    have hcalled := h
    induction hcalled with
    | entry hc => exact depth_lt_callLimit (hu.functions_ne_nil hc) v
    | nested hs _ _ ih => exact ih hs
  have hadd := h.depth_add
  have hle := h.length_le hu
  omega

/-- **A run of a unit ends.** Calls that lie in one another are of values that lie properly in one
another, the outermost one of a part of the value that the unit is run on, so that there is one more
of them at most than the value goes deep, and the limit is never reached. A run does the same with
any other limit beyond that depth, whatever it would do for calls that are deeper. -/
theorem run_ends (hr : s.Reached memo) (hu : (s.unit root id memo).1 = .ok (some u)) (v : Json) :
    (∀ depth stack, s.Stacked u v depth stack →
      (stack.Pairwise fun inner outer => TransGen Json.Holds outer.value inner.value) ∧
      (∀ call ∈ stack, ReflTransGen Json.Holds v call.value) ∧
      stack.length ≤ v.depth + 1 ∧ 0 < depth) ∧
    ∀ beyond limit, v.depth < limit → s.runOr u beyond limit v = s.run u v := by
  obtain ⟨rfl, hp⟩ := programCode_of_unit hr hu
  refine ⟨fun depth stack h => ⟨h.pairwise hp, h.part hp, h.length_le hp, h.depth_pos hp⟩,
    fun beyond limit hlimit => ?_⟩
  rw [run_eq_runOr]
  exact runOr_eq hp (fun _ => hlimit) fun hf => depth_lt_callLimit hf v

/-! ## The tree -/

namespace Tree

theorem formOf_nodes : tree.formOf nodes = some .collection :=
  formOf_eq_some_iff.mpr ⟨not_blocked (.inr rfl), variant?_nodes⟩

/-- The function of nodes begins with their children. -/
theorem body_node {f : ObjectFunction} {n m : Nat} (h : tree.FunctionCode n f m)
    (hf : f.name = node.name) : ∃ rest,
      f.body = .beginObject :: .bind n (.field .root "children") ::
        .ifNotNull (.var n) [.writeKey "children", .beginArray,
          .forEachElement (.var n) (n + 1) [.ifNotNull (.var (n + 1))
            [.callObject node.name (.var (n + 1))] [.writeNull]],
          .endArray] [] :: rest := by
  cases h with
  | @own name c _ _ written hc _ _ hw =>
    obtain rfl : name = node.name := hf
    cases class?_node.symm.trans hc
    rw [properties_node] at hw
    cases hw with
    | cons hp _ =>
      cases hp with
      | primitive ht => cases ht
      | nillable _ hn => cases hn
      | present _ _ hp =>
        cases hp with
        | optional hform => cases formOf_nodes.symm.trans hform
        | unhandled hform => cases formOf_nodes.symm.trans hform
        | handled hform _ hcode =>
          cases formOf_nodes.symm.trans hform
          cases hcode with
          | collection he hform hcode =>
            cases element?_nodes.symm.trans he
            cases formOf_node.symm.trans hform
            cases hcode
            exact ⟨_, rfl⟩
  | @narrowed name _ c _ _ _ hc _ hconcrete =>
    obtain rfl : name = node.name := hf
    cases class?_node.symm.trans hc
    have hnone : (tree.index.inspect node).concrete? = none := by cbv
    cases hnone.symm.trans hconcrete

theorem comes_child {around : Surroundings} {f : ObjectFunction} {n m : Nat}
    (h : tree.FunctionCode n f m) (hf : f.name = node.name) : ∃ o,
      Stmt.Comes around owned ⟨node.name, .obj [("due", .str "2024-02-29")], o⟩ f.body [] {} := by
  obtain ⟨rest, hbody⟩ := body_node h hf
  rw [hbody]
  apply Exists.intro
  refine .later rfl (.later rfl (.notNull Expr.eval_var rfl (.later rfl (.later rfl ?_))))
  refine @Stmt.Comes.element _ _ _ _ _ _ _ _ _ _ _ _ _ [] [] Expr.eval_var rfl rfl
    (.notNull Expr.eval_var rfl ?_)
  exact @Stmt.Comes.call _ _ ⟨node.name, .obj [("due", .str "2024-02-29")], _⟩ _ _ _ Expr.eval_var

/-- A node is written with a call for the node that it holds, and within four calls in one another
whatever lies beyond. -/
theorem run_ends_tree : tree.Reached {} ∧
    ∃ u, (tree.unit (.cls node.name) ⟨"NodeSerializer"⟩ {}).1 = .ok (some u) ∧
      (∃ depth inner outer, tree.Stacked u owned depth [inner, outer] ∧
        TransGen Json.Holds outer.value inner.value) ∧
      (∀ depth stack, tree.Stacked u owned depth stack → stack.length ≤ 4) ∧
      ∀ beyond, tree.runOr u beyond 4 owned = tree.run u owned := by
  obtain ⟨u, hu⟩ := exists_unit
  have hp := (programCode_of_unit .start hu).2
  obtain ⟨hstacks, hlimits⟩ := run_ends .start hu owned
  refine ⟨.start, u, hu, ?_, fun depth stack h => (hstacks depth stack h).2.2.1,
    fun beyond => hlimits beyond 4 (by decide)⟩
  have hentry : tree.Stacked u owned (u.callLimit owned) [⟨node.name, owned, {}⟩] :=
    .entry (hp.comes_root formOf_node owned)
  obtain ⟨depth, hdepth⟩ := Nat.exists_eq_succ_of_ne_zero (hstacks _ _ hentry).2.2.2.ne'
  rw [hdepth] at hentry
  obtain ⟨-, g, hg, hname⟩ := hp.object_function .refl variant?_node
  obtain ⟨f, hf, hmem⟩ := function?_of_mem (List.mem_map.mpr ⟨g, hg, hname⟩)
  obtain ⟨n, m, hcode⟩ := hp.function hmem
  obtain ⟨o, hcomes⟩ := comes_child hcode (by simpa using List.find?_some hf)
  have hnested := Stacked.nested hentry hf hcomes
  exact ⟨_, _, _, hnested, List.rel_of_pairwise_cons (hstacks _ _ hnested).1 List.mem_cons_self⟩

end Tree

end JsonBinding.Schema
