import JsonBinding.Bean
import Mathlib.Tactic.SplitIfs

/-!
# Names of getters

The name of a getter is a word and what stands behind it, which names the property and the member
of an instance of unknown class alike, unless it starts with an underscore.

* `Bean.Stem`: what stands behind the word of a getter; `exists_stem`: the name of a getter.
* `memberKey_of_stem`: the key of a member that is named like a getter.
* `Underscored`: names with an underscore behind the word of a getter.
* **`memberKey_cases`**: the two names that a getter gives.
-/

namespace JsonBinding

namespace Bean

variable {m m' : Method} {n n' name word : String} {stem rest : List Char} {c : Char}

theorem behind?_eq_some_iff :
    behind? word name = some stem ↔ name.toList = word.toList ++ stem := by
  rw [behind?, Option.ite_none_right_eq_some, List.isPrefixOf_iff_prefix, ← String.length_toList]
  constructor
  · rintro ⟨⟨rest, h⟩, hs⟩
    rw [← h, List.drop_left] at hs
    cases hs
    exact h.symm
  · intro h
    rw [h, List.drop_left]
    exact ⟨List.prefix_append _ _, rfl⟩

/-- Whether something stands behind the word of a getter in a name. -/
def Stem (name : String) (stem : List Char) : Prop :=
  behind? "get" name = some stem ∨ behind? "is" name = some stem

/-- A name starts with one of the two words at most. -/
theorem behind?_is (h : behind? "get" name = some stem) : behind? "is" name = none := by
  refine Option.eq_none_iff_forall_ne_some.mpr fun stem' h' => ?_
  have hstart := (behind?_eq_some_iff.mp h).symm.trans (behind?_eq_some_iff.mp h')
  simp at hstart

theorem Stem.unique (h : Stem name stem) (h' : Stem name rest) : stem = rest := by
  rcases h with h | h <;> rcases h' with h' | h'
  · exact Option.some.inj (h.symm.trans h')
  · cases (behind?_is h).symm.trans h'
  · cases (behind?_is h').symm.trans h
  · exact Option.some.inj (h.symm.trans h')

theorem stem_of_stem? (h : stem? m = some stem) : Stem m.name stem := by
  unfold stem? at h
  split at h
  · rename_i s hs
    cases h
    split_ifs at hs
    exact .inl hs
  · split_ifs at h
    exact .inr h

/-- **The name of a getter**: a word with a capital or an underscore behind it, which starts the
name of the property. -/
theorem exists_stem (h : property? m = some n) : ∃ c rest, Stem m.name (c :: rest) ∧
    (Text.isUppercase c = true ∨ c = '_') ∧ n = .ofList (decapitalize (c :: rest)) := by
  unfold property? at h
  split_ifs at h
  split at h
  · rename_i c rest hs
    split_ifs at h with hc
    cases h
    exact ⟨c, rest, stem_of_stem? hs, by simpa using hc, rfl⟩
  · cases h

/-- Getters of one name get properties of one name. -/
theorem property?_unique (h : property? m = some n) (h' : property? m' = some n')
    (hname : m.name = m'.name) : n = n' := by
  obtain ⟨c, rest, hs, -, rfl⟩ := exists_stem h
  obtain ⟨c', rest', hs', -, rfl⟩ := exists_stem h'
  rw [hs.unique (hname ▸ hs')]

/-- The key of a member that is named like a getter: what stands behind the word counts when it
starts with a capital. -/
theorem memberKey_of_stem (h : Stem name (c :: rest)) :
    memberKey name = if Text.isUppercase c then .ofList (decapitalize (c :: rest)) else name := by
  have hget : behind? "get" name = some (c :: rest) ∨
      behind? "get" name = none ∧ behind? "is" name = some (c :: rest) := by
    rcases h with h | h
    · exact .inl h
    · refine .inr ⟨Option.eq_none_iff_forall_ne_some.mpr fun stem hg => ?_, h⟩
      cases (behind?_is hg).symm.trans h
  unfold memberKey
  dsimp only
  rcases hget with hg | ⟨hg, hi⟩
  · rw [hg, behind?_is hg]
    by_cases hc : Text.isUppercase c <;> simp [Option.filter_some, hc]
  · rw [hg, hi]
    by_cases hc : Text.isUppercase c <;> simp [Option.filter_some, hc]

theorem decapitalize_underscore (rest : List Char) : decapitalize ('_' :: rest) = '_' :: rest := by
  have hlower : Text.lowerChar '_' = ['_'] := by decide
  have hupper : Text.isUppercase '_' = false := by decide
  cases rest with
  | nil => exact hlower
  | cons d rest => simp [decapitalize, hlower, hupper]

/-- Whether a name is the word of a getter with an underscore behind it. -/
def Underscored (name : String) : Prop := ∃ rest, name = "get_" ++ rest ∨ name = "is_" ++ rest

theorem underscored_iff (h : Stem name (c :: rest)) : Underscored name ↔ c = '_' := by
  have hword : ∀ {word : String} {t : String}, name = word ++ "_" ++ t ↔
      behind? word name = some ('_' :: t.toList) := by
    intro word t
    rw [behind?_eq_some_iff, ← String.toList_inj]
    simp
  constructor
  · rintro ⟨t, ht | ht⟩
    · cases h.unique (.inl (hword.mp ht))
      rfl
    · cases h.unique (.inr (hword.mp ht))
      rfl
  · rintro rfl
    refine ⟨.ofList rest, h.imp (fun hs => ?_) fun hs => ?_⟩
    · exact hword.mpr (by rw [hs, String.toList_ofList])
    · exact hword.mpr (by rw [hs, String.toList_ofList])

/-- A getter with an underscore behind its word gives its own name to a member, and the rest of it to
its property; any other getter gives both the same name. -/
theorem memberKey_cases (h : property? m = some n) :
    ¬ Underscored m.name ∧ memberKey m.name = n ∨
      Underscored m.name ∧ memberKey m.name = m.name ∧ Stem m.name n.toList := by
  obtain ⟨c, rest, hs, hc, rfl⟩ := exists_stem h
  rw [underscored_iff hs, memberKey_of_stem hs]
  rcases hc with hc | rfl
  · have hne : c ≠ '_' := by
      rintro rfl
      revert hc
      decide
    exact .inl ⟨hne, if_pos hc⟩
  · rw [String.toList_ofList, decapitalize_underscore]
    exact .inr ⟨rfl, if_neg (by decide), hs⟩

theorem Stem.ne (h : Stem name n.toList) : name ≠ n := by
  have hlength : ∀ {word : String}, behind? word name = some n.toList →
      name.toList.length = word.toList.length + n.toList.length := fun hw => by
    rw [behind?_eq_some_iff.mp hw, List.length_append]
  rintro rfl
  rcases h with h | h <;> simpa using hlength h

end Bean

end JsonBinding
