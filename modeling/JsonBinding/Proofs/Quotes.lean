import JsonBinding.Proofs.Writing

/-!
# Faults without quotes

A fault of shape quotes the value that it is about. Two computations may do the same but for that.

* `Writing.unquoted`: a computation whose faults quote nothing.
* `unquoted_bind`: it is what its parts are without quotes.
* `unquoted_each`: parts with a part in place of another that does the same.
* **`written_unquoted`**: computations that do the same without quotes make the same document.
-/

namespace JsonBinding

/-- A fault without the value that it quotes. -/
def Fault.unquoted : Fault → Fault
  | .shape expected _ => .shape expected .null
  | f => f

namespace Writing

variable {α β γ : Type} {x : Writing α} {f g : α → Writing β}

/-- A computation whose faults quote no value. -/
def unquoted (x : Writing α) : Writing α := fun o => ((x o).1.mapError Fault.unquoted, (x o).2)

theorem unquoted_bind (x : Writing α) (f : α → Writing β) :
    (x >>= f).unquoted = x.unquoted >>= fun a => (f a).unquoted := by
  funext o
  rw [unquoted, bind_apply, bind_apply, unquoted]
  rcases x o with ⟨e | a, p⟩ <;> rfl

theorem unquoted_ofExcept {y y' : Except Fault γ} {f : γ → Writing β}
    (h : y.mapError Fault.unquoted = y'.mapError Fault.unquoted) :
    (ofExcept y >>= f).unquoted = (ofExcept y' >>= f).unquoted := by
  have hy : (ofExcept y).unquoted = (ofExcept y').unquoted := by
    funext o
    exact Prod.ext h rfl
  rw [unquoted_bind, unquoted_bind, hy]

theorem unquoted_behind (h : ∀ a, (f a).unquoted = (g a).unquoted) :
    (x >>= f).unquoted = (x >>= g).unquoted := by
  rw [unquoted_bind, unquoted_bind]
  exact congrArg _ (funext h)

/-- Only what comes next for the result of a computation matters. -/
theorem unquoted_result {a : α} (hx : ∀ o, ∃ o', x o = (.ok a, o'))
    (h : (f a).unquoted = (g a).unquoted) : (x >>= f).unquoted = (x >>= g).unquoted := by
  funext o
  obtain ⟨o', ho⟩ := hx o
  have := congrFun h o'
  simp only [unquoted, bind_apply, ho] at this ⊢
  exact this

theorem unquoted_each {xs ys : List γ} {a a' : γ} {f : γ → Writing Unit}
    (h : (f a).unquoted = (f a').unquoted) :
    (each (xs ++ a :: ys) fun c _ => f c).unquoted =
      (each (xs ++ a' :: ys) fun c _ => f c).unquoted := by
  induction xs with
  | nil =>
    show (f a >>= fun _ => each ys fun c _ => f c).unquoted =
      (f a' >>= fun _ => each ys fun c _ => f c).unquoted
    rw [unquoted_bind, unquoted_bind, h]
  | cons x xs ih => exact unquoted_behind fun _ => ih

theorem unquoted_each_congr {xs : List γ} {f g : γ → Writing Unit}
    (h : ∀ c ∈ xs, (f c).unquoted = (g c).unquoted) :
    (each xs fun c _ => f c).unquoted = (each xs fun c _ => g c).unquoted := by
  induction xs with
  | nil => rfl
  | cons x xs ih =>
    show (f x >>= fun _ => each xs fun c _ => f c).unquoted =
      (g x >>= fun _ => each xs fun c _ => g c).unquoted
    rw [unquoted_bind, unquoted_bind, h x List.mem_cons_self,
      ih fun c hc => h c (List.mem_cons_of_mem _ hc)]

/-- **Computations that do the same without quotes make the same document.** -/
theorem written_unquoted {x y : Writing Unit} (h : x.unquoted = y.unquoted) (text : String) :
    x.written.1 = .complete text ↔ y.written.1 = .complete text := by
  have key : ∀ z : Writing Unit,
      z.written.1 = .complete text ↔ z.unquoted.written.1 = .complete text := fun z => by
    rw [written, written, unquoted]
    rcases z {} with ⟨e | _, o⟩
    · exact ⟨fun h => (by cases h), fun h => (by cases h)⟩
    · exact Iff.rfl
  rw [key x, key y, h]

end Writing

end JsonBinding
