import JsonBinding.Json.Printer
import Mathlib.Tactic.SplitIfs

/-!
# Quoted texts

* `escapeChar_cases`: the three ways in which a character is written.
* **`quoted_injective`**: no two texts are quoted alike.
-/

namespace JsonBinding.Json

/-- The characters that are written as a backslash and a letter. -/
def shorts : List (Char × Char) :=
  [('"', '"'), ('\\', '\\'), (Char.ofNat 8, 'b'), (Char.ofNat 9, 't'), (Char.ofNat 10, 'n'),
    (Char.ofNat 12, 'f'), (Char.ofNat 13, 'r')]

/-- A character is written as it is, as a backslash and a letter, or by its number. -/
theorem escapeChar_cases (c : Char) :
    (∃ l, (c, l) ∈ shorts ∧ escapeChar c = ['\\', l]) ∨
    (c.toNat < 32 ∧
      escapeChar c = ['\\', 'u', '0', '0', hexDigit (c.toNat / 16), hexDigit c.toNat]) ∨
    (c ≠ '\\' ∧ escapeChar c = [c]) := by
  have hnat : ∀ n, c.toNat = n → c = Char.ofNat n := fun n h => by rw [← h, Char.ofNat_toNat]
  unfold escapeChar
  split_ifs with h₁ h₂ h₃ h₄ h₅ h₆ h₇ h₈
  · exact .inl ⟨_, by rw [h₁]; decide, rfl⟩
  · exact .inl ⟨_, by rw [h₂]; decide, rfl⟩
  · exact .inl ⟨_, by rw [hnat _ h₃]; decide, rfl⟩
  · exact .inl ⟨_, by rw [hnat _ h₄]; decide, rfl⟩
  · exact .inl ⟨_, by rw [hnat _ h₅]; decide, rfl⟩
  · exact .inl ⟨_, by rw [hnat _ h₆]; decide, rfl⟩
  · exact .inl ⟨_, by rw [hnat _ h₇]; decide, rfl⟩
  · exact .inr (.inl ⟨h₈, rfl⟩)
  · exact .inr (.inr ⟨h₂, rfl⟩)

theorem hexDigit_injective {a b : Nat} (h : hexDigit a = hexDigit b) : a % 16 = b % 16 := by
  have key : ∀ i j : Fin 16, Nat.digitChar i = Nat.digitChar j → i = j := by decide
  have := key ⟨a % 16, Nat.mod_lt _ (by decide)⟩ ⟨b % 16, Nat.mod_lt _ (by decide)⟩ h
  exact congrArg Fin.val this

theorem escapeChar_append_inj {c d : Char} {xs ys : List Char}
    (h : escapeChar c ++ xs = escapeChar d ++ ys) : c = d ∧ xs = ys := by
  have hshorts : ∀ a ∈ shorts, ∀ b ∈ shorts, a.2 = b.2 → a.1 = b.1 := by decide
  have hnumber : ∀ a ∈ shorts, a.2 ≠ 'u' := by decide
  rcases escapeChar_cases c with ⟨l, hl, hc⟩ | ⟨hc32, hc⟩ | ⟨hcs, hc⟩ <;>
    rcases escapeChar_cases d with ⟨l', hl', hd⟩ | ⟨hd32, hd⟩ | ⟨hds, hd⟩ <;>
    rw [hc, hd] at h <;> simp only [List.cons_append, List.nil_append, List.cons.injEq] at h
  · exact ⟨hshorts _ hl _ hl' h.2.1, h.2.2⟩
  · exact absurd h.2.1 (hnumber _ hl)
  · exact absurd h.1.symm hds
  · exact absurd h.2.1.symm (hnumber _ hl')
  · obtain ⟨-, -, -, -, h₁, h₂, h₃⟩ := h
    have h₁ := hexDigit_injective h₁
    have h₂ := hexDigit_injective h₂
    exact ⟨Char.toNat_inj.mp (by omega), h₃⟩
  · exact absurd h.1.symm hds
  · exact absurd h.1 hcs
  · exact absurd h.1 hcs
  · exact h

theorem escapeChar_ne_nil (c : Char) : escapeChar c ≠ [] := by
  rcases escapeChar_cases c with ⟨l, -, hc⟩ | ⟨-, hc⟩ | ⟨-, hc⟩ <;> simp [hc]

/-- **No two texts are quoted alike.** -/
theorem quoted_injective {a b : String} (h : quoted a = quoted b) : a = b := by
  have h := congrArg String.toList h
  simp only [quoted, String.toList_ofList, List.cons.injEq, true_and] at h
  have h := List.append_cancel_right h
  rw [← String.toList_inj]
  generalize a.toList = xs at h
  generalize b.toList = ys at h
  induction xs generalizing ys with
  | nil =>
    cases ys with
    | nil => rfl
    | cons d ys => exact absurd (List.append_eq_nil_iff.mp h.symm).1 (escapeChar_ne_nil d)
  | cons c xs ih =>
    cases ys with
    | nil => exact absurd (List.append_eq_nil_iff.mp h).1 (escapeChar_ne_nil c)
    | cons d ys =>
      rw [List.flatMap_cons, List.flatMap_cons] at h
      obtain ⟨rfl, hrest⟩ := escapeChar_append_inj h
      rw [ih ys hrest]

end JsonBinding.Json
