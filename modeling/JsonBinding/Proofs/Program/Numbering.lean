import JsonBinding.Proofs.Program.Faithful
import JsonBinding.Proofs.Program.Scope

/-!
# The locals of a program

Locals are numbered through in the order in which they are bound, so that no two are the same, and
every one is used in its scope only.

* `Stmt.bound`: the locals that a block binds, in order.
* **`Code.bound_eq`**, **`FunctionsCode.bound_eq`**: the locals of the code are those from its first
  number on.
* **`Code.inScope`**, **`FunctionCode.inScope`**: the code keeps to the scopes of its locals.
-/

namespace JsonBinding

namespace Stmt

/-- The locals that a statement binds, without those inside of it. -/
def binds : Stmt → List Nat
  | .bind n _ => [n]
  | .ifPresent _ n _ _ => [n]
  | .forEachElement _ n _ => [n]
  | .forEachEntry _ k n _ => [k, n]
  | _ => []

/-- The locals that the statements of a block and those inside of them bind, in order. -/
def bound (body : List Stmt) : List Nat := (allOf body).flatMap binds

attribute [local simp] List.flatMap_cons

@[simp] theorem bound_nil : bound [] = [] := rfl

@[simp] theorem flatMap_allOf (body : List Stmt) : (allOf body).flatMap binds = bound body := rfl

@[simp] theorem bound_append (xs ys : List Stmt) : bound (xs ++ ys) = bound xs ++ bound ys := by
  rw [bound, allOf_append, List.flatMap_append, bound, bound]

@[simp] theorem bound_cons (st : Stmt) (rest : List Stmt) :
    bound (st :: rest) = (all st).flatMap binds ++ bound rest := by
  rw [bound, allOf, List.flatMap_append, bound]

attribute [simp] binds

@[simp] theorem bound_orNull (t : TypeRef) (e : Expr) (body : List Stmt) :
    bound (orNull t e body) = bound body := by
  unfold orNull
  split
  · rfl
  · simp

/-- The locals that hold values behind some statements of a block. -/
def opensAll (values : List Nat) (body : List Stmt) : List Nat := body.foldl opens values

theorem allInScope_append {values keys : List Nat} (xs ys : List Stmt) :
    allInScope values keys (xs ++ ys) =
      (allInScope values keys xs && allInScope (opensAll values xs) keys ys) := by
  induction xs generalizing values with
  | nil => rfl
  | cons x xs ih =>
    rw [List.cons_append, allInScope, allInScope, ih, Bool.and_assoc]
    rfl

theorem inScope_orNull {values keys : List Nat} {t : TypeRef} {e : Expr} {body : List Stmt}
    (he : e.within values = true) (h : allInScope values keys body = true) :
    allInScope values keys (orNull t e body) = true := by
  unfold orNull
  split
  · exact h
  · simp [allInScope, inScope, he, h]

end Stmt

/-! ## Numbers in a row -/

theorem range'_cons {n m : Nat} (h : n < m) :
    n :: List.range' (n + 1) (m - (n + 1)) = List.range' n (m - n) := by
  obtain ⟨k, rfl⟩ := Nat.exists_eq_add_of_lt h
  rw [show n + k + 1 - n = k + 1 by omega, show n + k + 1 - (n + 1) = k by omega, List.range'_succ]

theorem range'_append {n m k : Nat} (h : n ≤ m) (h' : m ≤ k) :
    List.range' n (m - n) ++ List.range' m (k - m) = List.range' n (k - n) := by
  obtain ⟨i, rfl⟩ := Nat.exists_eq_add_of_le h
  obtain ⟨j, rfl⟩ := Nat.exists_eq_add_of_le h'
  rw [show n + i - n = i by omega, show n + i + j - (n + i) = j by omega,
    show n + i + j - n = i + j by omega]
  simp

namespace Schema

attribute [local simp] List.flatMap_cons

variable {s : Schema} {e : Expr} {t : TypeRef} {a? : Option AnnotationSet} {v : Variant}
  {n m : Nat} {body : List Stmt} {p : Property} {values keys : List Nat}

/-! ## What is bound -/

/-- **The locals of the code of a value** are those from its first number on. -/
theorem Code.bound_eq (h : s.Code a? v e t n body m) : Stmt.bound body = List.range' n (m - n) := by
  induction h with
  | optional _ _ hc ih | collection _ _ hc ih =>
    rw [← range'_cons (Nat.lt_of_succ_le hc.le), ← ih]
    simp
  | @map e t u v n m body _ _ hc ih =>
    have hm := hc.le
    rw [← range'_cons (by omega), ← range'_cons (by omega), ← ih]
    simp
  | _ => simp

theorem PropertyCode.bound_eq (h : s.PropertyCode e p n body m) :
    Stmt.bound body = List.range' n (m - n) := by
  cases h with
  | primitive _ _ hc => simpa using hc.bound_eq
  | nillable _ _ hc =>
    cases hc with
    | handled _ hc =>
      rw [← range'_cons (Nat.lt_of_succ_le hc.le), ← hc.bound_eq]
      simp
    | unhandled => simp
  | present _ _ hc =>
    cases hc with
    | optional _ _ _ hc =>
      have hm := hc.le
      rw [← range'_cons (by omega), ← range'_cons (by omega), ← hc.bound_eq]
      simp
    | handled _ _ hc =>
      rw [← range'_cons (Nat.lt_of_succ_le hc.le), ← hc.bound_eq]
      simp
    | unhandled => simp

theorem PropertiesCode.le {ps : List Property} (h : s.PropertiesCode e ps n body m) : n ≤ m := by
  induction h with
  | nil => exact Nat.le_refl _
  | cons hc _ ih => exact Nat.le_trans hc.le ih

theorem PropertiesCode.bound_eq {ps : List Property} (h : s.PropertiesCode e ps n body m) :
    Stmt.bound body = List.range' n (m - n) := by
  induction h with
  | nil => simp
  | cons hc h ih => rw [Stmt.bound_append, hc.bound_eq, ih, range'_append hc.le h.le]

theorem FunctionCode.le {f : ObjectFunction} (h : s.FunctionCode n f m) : n ≤ m := by
  cases h with
  | own _ _ _ hw => exact hw.le
  | narrowed _ _ _ hw => exact Nat.le_of_succ_le hw.le

theorem FunctionCode.bound_eq {f : ObjectFunction} (h : s.FunctionCode n f m) :
    Stmt.bound f.body = List.range' n (m - n) := by
  cases h with
  | own _ _ _ hw => simpa using hw.bound_eq
  | narrowed _ _ _ hw =>
    rw [← range'_cons (Nat.lt_of_succ_le hw.le), ← hw.bound_eq]
    simp

theorem FunctionsCode.le {fs : List ObjectFunction} (h : s.FunctionsCode n fs m) : n ≤ m := by
  induction h with
  | nil => exact Nat.le_refl _
  | cons hc _ ih => exact Nat.le_trans hc.le ih

theorem FunctionsCode.bound_eq {fs : List ObjectFunction} (h : s.FunctionsCode n fs m) :
    (fs.flatMap fun f => Stmt.bound f.body) = List.range' n (m - n) := by
  induction h with
  | nil => simp
  | cons hc h ih => rw [List.flatMap_cons, hc.bound_eq, ih, range'_append hc.le h.le]

/-- **No local is bound twice in a program**: locals are numbered in the order in which they are
bound. -/
theorem ProgramCode.bound_eq {q : Program} (h : s.ProgramCode t q) :
    ∃ k, q.statements.flatMap Stmt.binds = List.range k := by
  obtain ⟨v, n, m, -, hc, hfs⟩ := h.code
  refine ⟨m, ?_⟩
  have hbodies : (q.functions.flatMap fun f => Stmt.allOf f.body).flatMap Stmt.binds =
      q.functions.flatMap fun f => Stmt.bound f.body := List.flatMap_assoc
  rw [Program.statements, List.flatMap_append, hbodies, hfs.bound_eq, List.range_eq_range',
    ← Nat.sub_zero m, ← range'_append (Nat.zero_le n) hfs.le, ← hc.bound_eq]
  rfl

/-! ## Scopes -/

theorem fresh_of_lt (h : ∀ i ∈ values ++ keys, i < n) (hm : n ≤ m) : m ∉ values ∧ m ∉ keys := by
  rw [← not_or, ← List.mem_append]
  exact fun hi => Nat.lt_irrefl m (Nat.lt_of_lt_of_le (h m hi) hm)

theorem lt_succ_of_lt (h : ∀ i ∈ values ++ keys, i < n) : ∀ i ∈ n :: values ++ keys, i < n + 1 := by
  intro i hi
  rcases List.mem_cons.mp hi with rfl | hi
  · exact Nat.lt_succ_self _
  · exact Nat.lt_succ_of_lt (h i hi)

theorem within_var : (Expr.var n).within (n :: values) = true := by
  simp [Expr.within]

theorem within_cons (h : e.within values = true) : e.within (n :: values) = true := by
  induction e with
  | root => rfl
  | var k => exact decide_eq_true (List.mem_cons_of_mem _ (of_decide_eq_true h))
  | getter _ _ ih | field _ _ ih | cast _ _ ih => exact ih h

theorem within_read (h : e.within values = true) (a : Accessor) :
    (a.read e).within values = true := by
  cases a <;> exact h

/-- **The code of a value keeps to the scopes of its locals**, whatever locals below its first
number it stands in the scopes of. -/
theorem Code.inScope (h : s.Code a? v e t n body m) (he : e.within values = true)
    (hn : ∀ i ∈ values ++ keys, i < n) : Stmt.allInScope values keys body = true := by
  induction h generalizing values keys with
  | @optional e t u v n m body _ _ _ ih =>
    have hbody := ih within_var (lt_succ_of_lt hn)
    simp [Stmt.allInScope, Stmt.inScope, he, hbody, fresh_of_lt hn (Nat.le_refl n)]
  | @collection e t u v n m body _ _ _ ih =>
    have hbody := Stmt.inScope_orNull (t := u) within_var (ih within_var (lt_succ_of_lt hn))
    simp [Stmt.allInScope, Stmt.inScope, Stmt.opens, he, hbody, fresh_of_lt hn (Nat.le_refl n)]
  | @map e t u v n m body _ _ _ ih =>
    have hkey : ∀ i ∈ values ++ n :: keys, i < n + 1 := by
      intro i hi
      exact lt_succ_of_lt hn i (by simpa [or_left_comm] using hi)
    have hbody := Stmt.inScope_orNull (t := u) within_var (ih within_var (lt_succ_of_lt hkey))
    simp [Stmt.allInScope, Stmt.inScope, Stmt.opens, he, hbody, fresh_of_lt hn (Nat.le_refl n),
      fresh_of_lt hn (Nat.le_succ n)]
  | _ => simp [Stmt.allInScope, Stmt.inScope, he]

theorem Code.opensAll_eq (h : s.Code a? v e t n body m) (values : List Nat) :
    Stmt.opensAll values body = values := by
  cases h <;> rfl

theorem NillableCode.inScope (h : s.NillableCode a? e t n body m) (he : e.within values = true)
    (hn : ∀ i ∈ values ++ keys, i < n) :
    Stmt.allInScope values keys body = true ∧ Stmt.opensAll values body = values := by
  cases h with
  | handled _ hc =>
    refine ⟨Stmt.inScope_orNull he (hc.inScope he hn), ?_⟩
    unfold Stmt.orNull
    split
    · exact hc.opensAll_eq values
    · rfl
  | unhandled => exact ⟨by simp [Stmt.allInScope, Stmt.inScope, he], rfl⟩

theorem PresentCode.inScope {key : String} (h : s.PresentCode a? key e t n body m)
    (he : e.within values = true) (hn : ∀ i ∈ values ++ keys, i < n) :
    Stmt.allInScope values keys body = true := by
  cases h with
  | optional _ _ _ hc =>
    have hcontent := hc.inScope within_var (lt_succ_of_lt hn)
    simp [Stmt.allInScope, Stmt.inScope, Stmt.opens, he, hcontent, fresh_of_lt hn (Nat.le_refl n)]
  | handled _ _ hc =>
    simp [Stmt.allInScope, Stmt.inScope, Stmt.opens, hc.inScope he hn]
  | unhandled => simp [Stmt.allInScope, Stmt.inScope, Stmt.opens, he]

theorem PropertyCode.inScope (h : s.PropertyCode e p n body m) (he : e.within values = true)
    (hn : ∀ i ∈ values ++ keys, i < n) : Stmt.allInScope values keys body = true ∧
      (Stmt.opensAll values body = values ∨
        Stmt.opensAll values body = n :: values ∧ n < m) := by
  have hread := within_read he p.accessor
  have hfresh := fresh_of_lt hn (Nat.le_refl n)
  have hn' := lt_succ_of_lt hn
  cases h with
  | primitive _ _ hc =>
    refine ⟨?_, .inl (hc.opensAll_eq values)⟩
    simp [Stmt.allInScope, Stmt.inScope, Stmt.opens, hc.inScope hread hn]
  | nillable _ _ hc =>
    obtain ⟨hvalue, hopens⟩ := hc.inScope within_var hn'
    refine ⟨?_, .inr ⟨hopens, Nat.lt_of_succ_le hc.le⟩⟩
    simp [Stmt.allInScope, Stmt.inScope, Stmt.opens, hread, hfresh, hvalue]
  | present _ _ hc =>
    have hpresent := hc.inScope within_var hn'
    refine ⟨?_, .inr ⟨rfl, Nat.lt_of_succ_le hc.le⟩⟩
    simp [Stmt.allInScope, Stmt.inScope, Stmt.opens, hread, hfresh, hpresent, Expr.within]

theorem PropertiesCode.inScope {ps : List Property} (h : s.PropertiesCode e ps n body m)
    (he : e.within values = true) (hn : ∀ i ∈ values ++ keys, i < n) :
    Stmt.allInScope values keys body = true := by
  induction h generalizing values with
  | nil => rfl
  | cons hc _ ih =>
    obtain ⟨hfirst, hopens⟩ := hc.inScope he hn
    rw [Stmt.allInScope_append, hfirst, Bool.true_and]
    have hle := hc.le
    rcases hopens with h | ⟨h, hlt⟩
    · rw [h]
      exact ih he fun i hi => Nat.lt_of_lt_of_le (hn i hi) hle
    · rw [h]
      exact ih (within_cons he) fun i hi => Nat.lt_of_lt_of_le (lt_succ_of_lt hn i hi) hlt

/-- **The function of a class keeps to the scopes of its locals.** -/
theorem FunctionCode.inScope {f : ObjectFunction} (h : s.FunctionCode n f m) :
    Stmt.allInScope [] [] f.body = true := by
  cases h with
  | own _ _ _ hw =>
    have hbody : Stmt.allInScope [] [] _ = true := hw.inScope rfl (by simp)
    simp [Stmt.allInScope, Stmt.inScope, Stmt.opens, Stmt.allInScope_append, hbody]
  | @narrowed name concrete c n m written _ _ _ hw =>
    have hbody : Stmt.allInScope [n] [] written = true := hw.inScope within_var (by simp)
    simp [Stmt.allInScope, Stmt.inScope, Stmt.opens, Stmt.allInScope_append, hbody, Expr.within]

end Schema

end JsonBinding
