import JsonBinding.Proofs.Program.Faithful

/-!
# The functions that a run executes

* `Call`: a function that is run on a value, from what has been written by then.
* `Stmt.Comes`: the calls that a block comes to by itself.
* `Schema.Executes`: the calls that a run of a unit comes to, at any depth.
* **`Executes.succeeds`**: in a run that succeeds every call does.
-/

namespace JsonBinding

open Writing

/-- The function of a class that is run on a value, and what has been written before. -/
structure Call where
  name : ClassName
  value : Json
  before : Output

namespace Stmt

/-! ## The calls of a block -/

section Comes

variable (around : Surroundings) (root : Json) (call : Call)

/-- Whether a block, from some locals and what has been written, comes to a call. -/
inductive Comes : List Stmt → Locals → Output → Prop
  | call {e : Expr} {rest : List Stmt} {ls : Locals} : e.eval root ls = .ok call.value →
    Comes (.callObject call.name e :: rest) ls call.before
  | notNull {e : Expr} {yes no rest : List Stmt} {ls : Locals} {o : Output} {v : Json} :
    e.eval root ls = .ok v → v.isNull = false → Comes yes ls o →
    Comes (.ifNotNull e yes no :: rest) ls o
  | null {e : Expr} {yes no rest : List Stmt} {ls : Locals} {o : Output} {v : Json} :
    e.eval root ls = .ok v → v.isNull = true → Comes no ls o →
    Comes (.ifNotNull e yes no :: rest) ls o
  | present {e : Expr} {n : Nat} {yes no rest : List Stmt} {ls : Locals} {o : Output}
    {v c : Json} : e.eval root ls = .ok v → Host.content v = .ok (some c) →
    Comes yes ((n, .value c) :: ls) o → Comes (.ifPresent e n yes no :: rest) ls o
  | empty {e : Expr} {n : Nat} {yes no rest : List Stmt} {ls : Locals} {o : Output} {v : Json} :
    e.eval root ls = .ok v → Host.content v = .ok none → Comes no ls o →
    Comes (.ifPresent e n yes no :: rest) ls o
  | element {e : Expr} {n : Nat} {body rest : List Stmt} {ls ls' : Locals} {o o' : Output}
    {v item : Json} {done left : List Json} : e.eval root ls = .ok v →
    Host.elements v = .ok (done ++ item :: left) →
    done.foldlM (fun ls item => runAll around root body ((n, .value item) :: ls)) ls o =
      (.ok ls', o') →
    Comes body ((n, .value item) :: ls') o' → Comes (.forEachElement e n body :: rest) ls o
  | entry {e : Expr} {k n : Nat} {body rest : List Stmt} {ls ls' : Locals} {o o' : Output}
    {v : Json} {m : String × Json} {done left : Members} : e.eval root ls = .ok v →
    Host.entries v = .ok (done ++ m :: left) →
    done.foldlM (fun ls m => runAll around root body ((n, .value m.2) :: (k, .key m.1) :: ls)) ls
      o = (.ok ls', o') →
    Comes body ((n, .value m.2) :: (k, .key m.1) :: ls') o' →
    Comes (.forEachEntry e k n body :: rest) ls o
  | later {st : Stmt} {rest : List Stmt} {ls ls' : Locals} {o o' : Output} :
    run around root st ls o = (.ok ls', o') → Comes rest ls' o' → Comes (st :: rest) ls o

end Comes

variable {around : Surroundings} {root : Json} {call : Call} {body : List Stmt} {ls ls' : Locals}
  {o o' : Output}

/-- Where a loop that succeeds is at one of its rounds, and that this round succeeds. -/
theorem round_succeeds {α γ : Type} {step : α → γ → Writing α} {x : γ} {done left : List γ}
    {a b c : α} {o p q : Output} (h : (done ++ x :: left).foldlM step a o = (.ok b, p))
    (hd : done.foldlM step a o = (.ok c, q)) : ∃ d r, step c x q = (.ok d, r) := by
  induction done generalizing a o with
  | nil =>
    cases hd
    obtain ⟨d, r, hx, -⟩ := bind_eq_ok.mp h
    exact ⟨d, r, hx⟩
  | cons y done ih =>
    obtain ⟨a₁, o₁, hy, h⟩ := bind_eq_ok.mp h
    obtain ⟨a₂, o₂, hy', hd⟩ := bind_eq_ok.mp hd
    cases hy.symm.trans hy'
    exact ih h hd

/-- **A block that succeeds has each of its calls succeed.** -/
theorem Comes.succeeds (h : Comes around root call body ls o)
    (hr : runAll around root body ls o = (.ok ls', o')) :
    ∃ after, around.call call.name call.value call.before = (.ok (), after) := by
  induction h generalizing ls' o' with
  | call he =>
    obtain ⟨_, _, h, -⟩ := bind_eq_ok.mp hr
    rw [run, he, ofExcept_ok_bind] at h
    obtain ⟨_, after, h, -⟩ := bind_eq_ok.mp h
    exact ⟨after, h⟩
  | notNull he hv _ ih =>
    obtain ⟨_, _, h, -⟩ := bind_eq_ok.mp hr
    rw [run, he, ofExcept_ok_bind, hv, if_neg Bool.false_ne_true] at h
    exact ih h
  | null he hv _ ih =>
    obtain ⟨_, _, h, -⟩ := bind_eq_ok.mp hr
    rw [run, he, ofExcept_ok_bind, if_pos hv] at h
    exact ih h
  | present he hc _ ih | empty he hc _ ih =>
    obtain ⟨_, _, h, -⟩ := bind_eq_ok.mp hr
    rw [run, he, ofExcept_ok_bind, hc, ofExcept_ok_bind] at h
    exact ih h
  | element he hi hd _ ih | entry he hi hd _ ih =>
    obtain ⟨_, _, h, -⟩ := bind_eq_ok.mp hr
    rw [run, he, ofExcept_ok_bind, hi, ofExcept_ok_bind] at h
    obtain ⟨_, _, hround⟩ := round_succeeds h hd
    exact ih hround
  | later hst _ ih =>
    obtain ⟨_, _, h, hrest⟩ := bind_eq_ok.mp hr
    cases hst.symm.trans h
    exact ih hrest

end Stmt

namespace Schema

variable (s : Schema)

/-! ## The calls of a run -/

/-- Whether a run of a unit on a value comes to a call, in which calls may nest only so deep. -/
inductive Executes (u : SerializerUnit) (v : Json) : Nat → Call → Prop
  | entry {call : Call} :
    Stmt.Comes ⟨s.callWithin u (u.callLimit v), s.writeUnhandled⟩ v call u.program.entry [] {} →
    Executes u v (u.callLimit v) call
  | nested {depth : Nat} {outer call : Call} {f : ObjectFunction} :
    Executes u v (depth + 1) outer → u.program.function? outer.name = some f →
    Stmt.Comes ⟨s.callWithin u depth, s.writeUnhandled⟩ outer.value call f.body [] outer.before →
    Executes u v depth call

variable {s} {u : SerializerUnit} {v : Json} {depth : Nat} {call : Call}

theorem callWithin_eq_ok {k : ClassName} {x : Json} {o p : Output}
    (h : s.callWithin u (depth + 1) k x o = (.ok (), p)) : ∃ f,
    u.program.function? k = some f ∧ ∃ ls,
      Stmt.runAll ⟨s.callWithin u depth, s.writeUnhandled⟩ x f.body [] o = (.ok ls, p) := by
  rw [callWithin] at h
  cases hf : u.program.function? k with
  | none =>
    rw [hf] at h
    cases h
  | some f =>
    rw [hf] at h
    obtain ⟨ls, _, h, hp⟩ := bind_eq_ok.mp h
    cases hp
    exact ⟨f, rfl, ls, h⟩

/-- **In a run that succeeds every call does.** -/
theorem Executes.succeeds (h : s.Executes u v depth call) (hrun : (s.run u v {}).1 = .ok ()) :
    ∃ after, s.callWithin u depth call.name call.value call.before = (.ok (), after) := by
  induction h with
  | entry h =>
    rw [run] at hrun
    split_ifs at hrun
    · cases hrun
    · obtain ⟨_, _, hall, -⟩ := bind_eq_ok.mp (Prod.ext hrun rfl)
      exact h.succeeds hall
  | nested _ hf hc ih =>
    obtain ⟨after, hcall⟩ := ih
    obtain ⟨f, hf', ls, hall⟩ := callWithin_eq_ok hcall
    cases hf.symm.trans hf'
    exact hc.succeeds hall

theorem ProgramCode.comes_root {around : Surroundings} {n : ClassName}
    (hu : s.ProgramCode (.cls n) u.program) (hf : s.formOf (.cls n) = some .object) (v : Json) :
    Stmt.Comes around v ⟨n, v, {}⟩ u.program.entry [] {} := by
  have hentry : u.program.entry = [.callObject n .root] := by
    obtain ⟨form, k, m, hform, hc, -⟩ := hu.code
    cases hf.symm.trans hform
    generalize u.program.entry = entry at hc
    cases hc
    rfl
  rw [hentry]
  show Stmt.Comes _ _ ⟨n, v, {}⟩ [.callObject n .root] [] {}
  exact .call rfl

theorem ProgramCode.executes_root {n : ClassName} (hu : s.ProgramCode (.cls n) u.program)
    (hf : s.formOf (.cls n) = some .object) (v : Json) :
    s.Executes u v (u.callLimit v) ⟨n, v, {}⟩ :=
  .entry (hu.comes_root hf v)

end Schema

end JsonBinding
