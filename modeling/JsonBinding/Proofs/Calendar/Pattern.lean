import JsonBinding.Calendar.Rendering
import Mathlib

/-!
# The grammar of date patterns

A specifier is the letter of a number, with a sign in front or without, or one of the spelled words
(`Pattern.Specifier`); a pattern is characters and specifiers behind per cent signs
(`Pattern.Spells`). No letter of a number is a sign, no spelled word starts with a sign or such a
letter, and no word starts with another, so what is read is what is spelled
(`ofChars?_eq_some_iff`).

An item of a pattern is rendered for every stamp with a date, a time and an offset, unless it asks
for an offset of any spelling (`Item.text?_isSome_iff`). That item has one spelling
(`anyOffset_mem_iff`).
-/

namespace JsonBinding.Calendar

namespace Pattern

/-! ## Specifiers -/

/-- The characters of a specifier and the items that they stand for. -/
inductive Specifier : List Char → List Item → Prop where
  | number {c : Char} {n : Numeric} {fill : Fill} (h : (c, n, fill) ∈ numerics) :
    Specifier [c] [.numeric n fill]
  | signed {sign c : Char} {n : Numeric} {fill own : Fill} (hsign : fill? sign = some fill)
    (h : (c, n, own) ∈ numerics) : Specifier [sign, c] [.numeric n fill]
  | word {word : String} {items : List Item} (h : (word, items) ∈ spellings) :
    Specifier word.toList items

theorem lookup_numerics {c : Char} {e : Numeric × Fill} :
    numerics.lookup c = some e ↔ (c, e) ∈ numerics := by
  constructor
  · intro h
    obtain ⟨front, rest, hsplit, -⟩ := List.lookup_eq_some_iff.mp h
    simp [hsplit]
  · have hall : ∀ e ∈ numerics, numerics.lookup e.1 = some e.2 := by decide
    exact hall (c, e)

theorem fill?_numerics : ∀ e ∈ numerics, fill? e.1 = none := by decide

theorem head_spellings : ∀ e ∈ spellings,
    e.1.toList.head?.any fun c => fill? c = none ∧ numerics.lookup c = none := by decide

theorem prefixFree_spellings : ∀ e ∈ spellings, ∀ e' ∈ spellings,
    e.1.toList <+: e'.1.toList → e = e' := by decide +kernel

variable {s t word : List Char} {items : List Item} {n : Nat} {p q : Pattern}

theorem Specifier.specifier?_append (h : Specifier word items) (t : List Char) :
    specifier? (word ++ t) = some (items, word.length) := by
  cases h with
  | @number c n fill h => simp [specifier?, lookup_numerics.mpr h, fill?_numerics _ h]
  | @signed sign c n fill own hsign h => simp [specifier?, lookup_numerics.mpr h, hsign]
  | @word w items h =>
    obtain ⟨c, hc, hstart⟩ := (Option.any_eq_true _ _).mp (head_spellings _ h)
    obtain ⟨hsign, hletter⟩ := of_decide_eq_true hstart
    obtain ⟨rest, hw⟩ := List.head?_eq_some_iff.mp hc
    have hfind : spellings.find? (fun e => e.1.toList.isPrefixOf (w.toList ++ t)) =
        some (w, items) := by
      have hfound : ∃ e ∈ spellings, e.1.toList.isPrefixOf (w.toList ++ t) = true :=
        ⟨_, h, List.isPrefixOf_iff_prefix.mpr (List.prefix_append _ t)⟩
      obtain ⟨e, he⟩ := Option.isSome_iff_exists.mp (List.find?_isSome.mpr hfound)
      have hpre : e.1.toList <+: w.toList ++ t := by simpa using List.find?_some he
      have hmem := List.mem_of_find?_eq_some he
      rcases List.prefix_or_prefix_of_prefix hpre (List.prefix_append w.toList t) with hle | hle
      · rw [he, prefixFree_spellings e hmem _ h hle]
      · rw [he, prefixFree_spellings _ h e hmem hle]
    rw [hw, List.cons_append] at hfind ⊢
    simp [specifier?, hsign, hletter, hfind, ← String.length_toList, hw]

theorem specifier?_eq_some_iff : specifier? s = some (items, n) ↔
    ∃ word rest, Specifier word items ∧ s = word ++ rest ∧ word.length = n := by
  constructor
  · intro h
    cases s with
    | nil => simp [specifier?] at h
    | cons c rest =>
      rw [specifier?] at h
      split at h
      · rename_i fill _ hfill
        cases rest with
        | nil => cases h
        | cons letter rest =>
          obtain ⟨⟨number, own⟩, hletter, heq⟩ := Option.map_eq_some_iff.mp h
          cases heq
          exact ⟨[c, letter], rest, .signed hfill (lookup_numerics.mp hletter), rfl, rfl⟩
      · rename_i number fill _ hletter
        cases h
        exact ⟨[c], rest, .number (lookup_numerics.mp hletter), rfl, rfl⟩
      · obtain ⟨⟨word, items'⟩, hfind, heq⟩ := Option.map_eq_some_iff.mp h
        cases heq
        have hpre : word.toList <+: c :: rest := by simpa using List.find?_some hfind
        obtain ⟨t, ht⟩ := hpre
        have hword := List.mem_of_find?_eq_some hfind
        exact ⟨word.toList, t, .word hword, ht.symm, String.length_toList⟩
  · rintro ⟨word, rest, h, rfl, rfl⟩
    exact h.specifier?_append rest

/-! ## Patterns -/

/-- A text and the items that it spells. -/
inductive Spells : List Char → Pattern → Prop where
  | nil : Spells [] []
  | literal {c : Char} {s : List Char} {p : Pattern} (hc : c ≠ '%') (h : Spells s p) :
    Spells (c :: s) (.literal c :: p)
  | specifier {word s : List Char} {items : List Item} {p : Pattern} (hword : Specifier word items)
    (h : Spells s p) : Spells ('%' :: (word ++ s)) (items ++ p)

/-- What is spelled in front is read whatever stands behind it. -/
theorem Spells.ofChars?_append (h : Spells s p) (t : List Char) :
    ofChars? (s ++ t) = (ofChars? t).map (p ++ ·) := by
  induction h with
  | nil => simp
  | literal hc h ih => simp [ofChars?, hc, ih, Function.comp_def]
  | specifier hword h ih =>
    simp [ofChars?, hword.specifier?_append, ih, Function.comp_def]

theorem ofChars?_eq_some_iff : ofChars? s = some p ↔ Spells s p := by
  constructor
  · intro h
    fun_induction ofChars? s generalizing p with
    | case1 =>
      cases h
      exact .nil
    | case2 rest items n hitems ih =>
      obtain ⟨q, hq, rfl⟩ := Option.map_eq_some_iff.mp h
      obtain ⟨word, rest, hword, rfl, rfl⟩ := specifier?_eq_some_iff.mp hitems
      rw [List.drop_left] at hq ih
      exact .specifier hword (ih hq)
    | case3 => cases h
    | case4 c rest hc ih =>
      obtain ⟨q, hq, rfl⟩ := Option.map_eq_some_iff.mp h
      exact .literal hc (ih hq)
  · intro h
    simpa [ofChars?] using h.ofChars?_append []

/-! ## The offset of any spelling -/

theorem anyOffset_mem_spellings : ∀ e ∈ spellings, .mark .anyOffset ∈ e.2 ↔ e.1 = "#z" := by decide

theorem Specifier.anyOffset_mem_iff (h : Specifier word items) :
    .mark .anyOffset ∈ items ↔ word = "#z".toList := by
  cases h with
  | number => simp
  | @signed sign c n fill own hsign h =>
    refine iff_of_false (by simp) fun hspelled => ?_
    obtain rfl : sign = '#' := (List.cons.inj hspelled).1
    simp [fill?] at hsign
  | word h => rw [anyOffset_mem_spellings _ h, String.toList_inj]

/-- A pattern asks for an offset of any spelling just where the specifier of that item follows what
is a pattern by itself. -/
theorem Spells.anyOffset_mem_iff (h : Spells s p) : .mark .anyOffset ∈ p ↔
    ∃ front rest, s = front ++ "%#z".toList ++ rest ∧ (ofChars? front).isSome := by
  constructor
  · intro hmem
    induction h with
    | nil => cases hmem
    | @literal c s p hc h ih =>
      obtain ⟨front, rest, rfl, hfront⟩ := ih (by simpa using hmem)
      obtain ⟨q, hq⟩ := Option.isSome_iff_exists.mp hfront
      exact ⟨c :: front, rest, rfl, by simp [ofChars?, hc, hq]⟩
    | @specifier word s items p hword h ih =>
      rcases List.mem_append.mp hmem with hitems | hitems
      · exact ⟨[], s, by rw [hword.anyOffset_mem_iff.mp hitems]; rfl, by simp [ofChars?]⟩
      · obtain ⟨front, rest, rfl, hfront⟩ := ih hitems
        obtain ⟨q, hq⟩ := Option.isSome_iff_exists.mp hfront
        refine ⟨'%' :: (word ++ front), rest, by simp, ?_⟩
        rw [ofChars?_eq_some_iff.mpr (.specifier hword (ofChars?_eq_some_iff.mp hq))]
        rfl
  · rintro ⟨front, rest, rfl, hfront⟩
    obtain ⟨q, hq⟩ := Option.isSome_iff_exists.mp hfront
    have hword : Specifier "#z".toList [.mark .anyOffset] := .word (by decide)
    have hread := ofChars?_eq_some_iff.mpr h
    rw [List.append_assoc, (ofChars?_eq_some_iff.mp hq).ofChars?_append] at hread
    obtain ⟨q', hq', rfl⟩ := Option.map_eq_some_iff.mp hread
    have hmark : ofChars? ("%#z".toList ++ rest) = (ofChars? rest).map ([.mark .anyOffset] ++ ·) :=
      ((Spells.specifier hword .nil).ofChars?_append rest)
    obtain ⟨q'', -, rfl⟩ := Option.map_eq_some_iff.mp (hmark.symm.trans hq')
    simp

end Pattern

/-! ## Rendering -/

section Rendering

variable (date : Date) (time : Time) (offset : Int)

theorem Item.text?_isSome_iff {item : Item} :
    (item.text? ⟨some date, some time, some offset⟩).isSome ↔ item ≠ .mark .anyOffset := by
  cases item with
  | literal => simp [Item.text?]
  | numeric n => cases n <;> simp [Item.text?, Numeric.text?]
  | mark m => cases m <;> simp [Item.text?, Mark.text?]

theorem Pattern.render?_isSome_iff {p : Pattern} :
    (p.render? ⟨some date, some time, some offset⟩).isSome ↔ .mark .anyOffset ∉ p := by
  rw [Pattern.render?, Option.isSome_map]
  induction p with
  | nil => simp
  | cons item p ih =>
    rw [List.mapM_cons, List.mem_cons, not_or, ← ih, ← ne_eq, ne_comm, ← Item.text?_isSome_iff]
    cases item.text? ⟨some date, some time, some offset⟩ <;>
      cases p.mapM (Item.text? ⟨some date, some time, some offset⟩) <;> simp

end Rendering

end JsonBinding.Calendar
