import JsonBinding.TypeRef.Signature
import Mathlib.Data.List.TakeWhile
import Mathlib.Tactic.SplitIfs

/-!
# The grammar of signatures

A signature is a type between spacing. A type is a base with bracket pairs behind it; a base is a
question mark, with a bound or without, or a name, with type arguments or without.

* `TypeRef.IsType` and its companions: the grammar, with the type that each derivation denotes.
* `name?_sound`, `brackets_sound`, `boundMark?_sound`, **`front?_sound`**: what is read is
  derivable.
* `name?_complete`, `brackets_complete`, `boundMark?_complete`, **`IsType.complete`**: what is
  derivable is read to its end, though every optional part is taken at once.
* **`ofText_eq_ok_iff`**: a text denotes a type just when the grammar derives it as one.
-/

namespace JsonBinding.TypeRef

open Text (skipSpacing isSpacing)

/-! ## The grammar -/

/-- Any number of the four blanks. -/
def Spacing (w : List Char) : Prop := ∀ c ∈ w, isSpacing c = true

/-- A part of a name: one character of names or more. -/
def NamePart (i : List Char) : Prop := i ≠ [] ∧ ∀ c ∈ i, isNameChar c = true

/-- A name: parts with dots between them. -/
inductive Name : List Char → Prop
  | part {i : List Char} : NamePart i → Name i
  | dot {i n : List Char} : NamePart i → Name n → Name (i ++ '.' :: n)

/-- So many bracket pairs, with spacing in front of each. -/
inductive BracketPairs : List Char → Nat → Prop
  | nil : BracketPairs [] 0
  | cons {w k : List Char} {n : Nat} : Spacing w → BracketPairs k n →
    BracketPairs (w ++ '[' :: ']' :: k) (n + 1)

/-- The word for a bound, with spacing on both sides. -/
inductive BoundMark : List Char → Prop
  | mk {w w' : List Char} {word : String} : w ≠ [] → Spacing w → word ∈ ["extends", "super"] →
    w' ≠ [] → Spacing w' → BoundMark (w ++ word.toList ++ w')

mutual

/-- A type: a base with bracket pairs behind it. -/
inductive IsType : List Char → TypeRef → Prop
  /-- Every pair makes an array. -/
  | base {b k : List Char} {t : TypeRef} {n : Nat} : IsBase b t → BracketPairs k n →
    IsType (b ++ k) (arrays t n)
  /-- Pairs behind a bound belong to the bound, which is dropped. -/
  | bound {b k : List Char} {n : Nat} : IsBound b → BracketPairs k n → IsType (b ++ k) .wildcard

/-- A base that is no wildcard with a bound. -/
inductive IsBase : List Char → TypeRef → Prop
  | wildcard : IsBase ['?'] .wildcard
  | prim (p : Primitive) : IsBase p.name.toList (.prim p)
  | cls {n : List Char} : Name n → (∀ p : Primitive, p.name.toList ≠ n) →
    IsBase n (.cls ⟨.ofList n⟩)
  | app {n w a : List Char} {ts : List TypeRef} : Name n → Spacing w → IsArguments a ts →
    IsBase (n ++ w ++ '<' :: (a ++ ['>'])) (.app ⟨.ofList n⟩ ts)

/-- A wildcard with a bound. -/
inductive IsBound : List Char → Prop
  | mk {m u : List Char} {t : TypeRef} : BoundMark m → IsType u t → IsBound ('?' :: (m ++ u))

/-- Type arguments between their brackets. -/
inductive IsArguments : List Char → List TypeRef → Prop
  | mk {w u a w' : List Char} {t : TypeRef} {ts : List TypeRef} : Spacing w → IsType u t →
    IsFurther a ts → Spacing w' → IsArguments (w ++ u ++ a ++ w') (t :: ts)

/-- Further type arguments, each behind a comma. -/
inductive IsFurther : List Char → List TypeRef → Prop
  | nil : IsFurther [] []
  | cons {w w' u a : List Char} {t : TypeRef} {ts : List TypeRef} : Spacing w → Spacing w' →
    IsType u t → IsFurther a ts → IsFurther (w ++ ',' :: (w' ++ u) ++ a) (t :: ts)

end

/-- A signature: a type between spacing. -/
def IsSignature (s : List Char) (t : TypeRef) : Prop :=
  ∃ w u w', Spacing w ∧ IsType u t ∧ Spacing w' ∧ s = w ++ u ++ w'

/-! ## Spacing -/

theorem skipSpacing_append {w : List Char} (hw : Spacing w) (r : List Char) :
    skipSpacing (w ++ r) = skipSpacing r := List.dropWhile_append_of_pos hw

theorem skipSpacing_of_not {c : Char} (hc : isSpacing c = false) (r : List Char) :
    skipSpacing (c :: r) = c :: r := List.dropWhile_cons_of_neg (by simp [hc])

theorem exists_spacing (s : List Char) : ∃ w, Spacing w ∧ w ++ skipSpacing s = s :=
  ⟨s.takeWhile isSpacing, fun _ h => List.mem_takeWhile_imp h, List.takeWhile_append_dropWhile⟩

theorem exists_spacing_of_eq {s r : List Char} (h : skipSpacing s = r) :
    ∃ w, Spacing w ∧ w ++ r = s := h ▸ exists_spacing s

theorem isSpacing_of_isNameChar {c : Char} (h : isNameChar c = true) : isSpacing c = false := by
  refine Bool.eq_false_iff.mpr fun hs => ?_
  simp only [isSpacing, Bool.or_eq_true, decide_eq_true_eq] at hs
  rcases hs with ((rfl | rfl) | rfl) | rfl <;> exact absurd h (by decide)

/-- Whether the first character behind spacing, when there is one, is one of a few. -/
def Before (cs s : List Char) : Prop := ∀ c ∈ (skipSpacing s).head?, c ∈ cs

theorem Before.append {cs w r : List Char} (hw : Spacing w) (h : Before cs r) :
    Before cs (w ++ r) := by
  rwa [Before, skipSpacing_append hw]

theorem Before.cons {cs : List Char} {c : Char} (hc : isSpacing c = false) (hm : c ∈ cs)
    (r : List Char) : Before cs (c :: r) := by
  rw [Before, skipSpacing_of_not hc]
  rintro _ ⟨⟩
  exact hm

theorem Before.mono {cs cs' r : List Char} (h : Before cs r) (hs : cs ⊆ cs') : Before cs' r :=
  fun c hc => hs (h c hc)

/-! ## Names -/

theorem Name.cons {c : Char} {n : List Char} (hc : isNameChar c = true) (h : Name n) :
    Name (c :: n) := by
  have hpart : ∀ {i}, NamePart i → NamePart (c :: i) := fun hi =>
    ⟨List.cons_ne_nil _ _, List.forall_mem_cons.mpr ⟨hc, hi.2⟩⟩
  cases h with
  | part hi => exact .part (hpart hi)
  | dot hi hn => exact .dot (hpart hi) hn

theorem namePart_singleton {c : Char} (hc : isNameChar c = true) : NamePart [c] :=
  ⟨List.cons_ne_nil _ _, by simpa using hc⟩

theorem name_nameTail (s : List Char) {c : Char} (hc : isNameChar c = true) :
    Name (c :: (nameTail s).1) := by
  fun_induction nameTail s generalizing c with
  | case1 => exact .part (namePart_singleton hc)
  | case2 d s hd n r hr ih =>
    rw [hr] at ih
    exact .cons hc (ih hd)
  | case3 d hd e s he n r hr ih =>
    rw [hr] at ih
    obtain ⟨rfl, he⟩ := he
    exact .dot (namePart_singleton hc) (ih he)
  | case4 | case5 => exact .part (namePart_singleton hc)

theorem name?_sound {s n : List Char} {r : Rest s} (h : name? s = some (n, r)) :
    Name n ∧ n ++ r.1 = s := by
  cases s with
  | nil => cases h
  | cons c s =>
    rw [name?] at h
    split_ifs at h with hc
    cases h
    exact ⟨name_nameTail s hc, congrArg (c :: ·) (nameTail_append s)⟩

theorem nameTail_append_of_part {i : List Char} (hi : ∀ c ∈ i, isNameChar c = true)
    (s : List Char) : nameTail (i ++ s) = (i ++ (nameTail s).1, (nameTail s).2) := by
  induction i with
  | nil => rfl
  | cons c i ih =>
    obtain ⟨hc, hi⟩ := List.forall_mem_cons.mp hi
    rw [List.cons_append, nameTail.eq_def]
    simp [hc, ih hi]

/-- A name ends in front of spacing and of the punctuation of signatures. -/
theorem nameTail_of_before {r : List Char} (h : Before ['[', '<', ',', '>'] r) :
    nameTail r = ([], r) := by
  cases r with
  | nil => rfl
  | cons c r =>
    have hc : isNameChar c = false ∧ c ≠ '.' := by
      cases hs : isSpacing c with
      | true =>
        refine ⟨Bool.eq_false_iff.mpr fun hn => ?_, ?_⟩
        · cases hs.symm.trans (isSpacing_of_isNameChar hn)
        · rintro rfl
          cases hs
      | false =>
        have hm := h c (by rw [skipSpacing_of_not hs]; rfl)
        simp only [List.mem_cons, List.not_mem_nil, or_false] at hm
        rcases hm with rfl | rfl | rfl | rfl <;> decide
    rw [nameTail.eq_def]
    cases r <;> simp [hc]

theorem name?_complete {s n r : List Char} (hn : Name n) (hr : Before ['[', '<', ',', '>'] r)
    (hs : n ++ r = s) : ∃ r', name? s = some (n, r') ∧ r'.1 = r := by
  have hread : ∃ c m, n = c :: m ∧ isNameChar c = true ∧ nameTail (m ++ r) = (m, r) := by
    clear hs
    induction hn with
    | @part i hi =>
      obtain ⟨hne, hi⟩ := hi
      obtain ⟨c, m, rfl⟩ := List.exists_cons_of_ne_nil hne
      obtain ⟨hc, hm⟩ := List.forall_mem_cons.mp hi
      refine ⟨c, m, rfl, hc, ?_⟩
      rw [nameTail_append_of_part hm, nameTail_of_before hr, List.append_nil]
    | @dot i n hi _ ih =>
      obtain ⟨d, m', rfl, hd, hread⟩ := ih
      obtain ⟨hne, hi⟩ := hi
      obtain ⟨c, m, rfl⟩ := List.exists_cons_of_ne_nil hne
      obtain ⟨hc, hm⟩ := List.forall_mem_cons.mp hi
      refine ⟨c, m ++ '.' :: d :: m', rfl, hc, ?_⟩
      have hdot : isNameChar '.' = false := by decide
      rw [List.append_assoc, nameTail_append_of_part hm, List.cons_append, List.cons_append,
        nameTail.eq_def]
      simp [hdot, hd, hread]
  obtain ⟨c, m, rfl, hc, hm⟩ := hread
  subst hs
  refine ⟨⟨r, by simp only [List.length_append, List.length_cons]; omega⟩, ?_, rfl⟩
  simp [name?, hc, hm]

/-! ## Bracket pairs -/

theorem brackets_sound (s : List Char) :
    ∃ k, BracketPairs k (brackets s).1 ∧ k ++ (brackets s).2.1 = s := by
  fun_induction brackets s with
  | case1 s r hs _ _ ih =>
    obtain ⟨k, hk, he⟩ := ih
    obtain ⟨w, hw, hws⟩ := exists_spacing_of_eq hs
    have hread : w ++ '[' :: ']' :: k ++ (brackets r).2.1 = s := by
      rw [List.append_assoc, List.cons_append, List.cons_append, he, hws]
    exact ⟨_, .cons hw hk, hread⟩
  | case2 => exact ⟨[], .nil, rfl⟩

theorem BracketPairs.before {k r : List Char} {n : Nat} (hk : BracketPairs k n)
    (hr : Before [',', '>'] r) : Before ['[', ',', '>'] (k ++ r) := by
  cases hk with
  | nil => exact hr.mono (by simp)
  | cons hw _ =>
    rw [List.append_assoc]
    exact .append hw (.cons (by decide) (by simp) _)

theorem BracketPairs.append {k k' : List Char} {n n' : Nat} (hk : BracketPairs k n)
    (hk' : BracketPairs k' n') : BracketPairs (k ++ k') (n + n') := by
  induction hk with
  | nil => simpa using hk'
  | @cons w k n hw _ ih =>
    rw [List.append_assoc, Nat.succ_add]
    exact .cons hw ih

theorem brackets_complete {s k r : List Char} {n : Nat} (hk : BracketPairs k n)
    (hr : Before [',', '>'] r) (hs : k ++ r = s) :
    (brackets s).1 = n ∧ (brackets s).2.1 = r := by
  subst hs
  induction hk with
  | nil =>
    rw [List.nil_append, brackets]
    split
    · rename_i r' hr'
      have hm := hr '[' (by rw [hr']; rfl)
      simp at hm
    · exact ⟨rfl, rfl⟩
  | @cons w k n hw _ ih =>
    have hs : skipSpacing (w ++ '[' :: ']' :: k ++ r) = '[' :: ']' :: (k ++ r) := by
      rw [List.append_assoc, skipSpacing_append hw]
      exact skipSpacing_of_not (by decide) _
    rw [brackets]
    split
    · rename_i r' hr'
      rw [hs] at hr'
      cases hr'
      exact ⟨congrArg (· + 1) ih.1, ih.2⟩
    · rename_i hne
      exact absurd hs (hne _)

/-! ## Bounds -/

theorem behind?_sound {word s : List Char} {r : RestOrAll s} (h : behind? word s = some r) :
    word ++ r.1 = s := by
  induction word generalizing s with
  | nil =>
    cases h
    rfl
  | cons c word ih =>
    cases s with
    | nil => cases h
    | cons d s =>
      rw [behind?] at h
      split_ifs at h with hcd
      obtain ⟨r', hr', he⟩ := Option.map_eq_some_iff.mp h
      rw [hcd, ← he, List.cons_append, ih hr']

theorem behind?_complete {word s r : List Char} (hs : word ++ r = s) :
    ∃ r', behind? word s = some r' ∧ r'.1 = r := by
  subst hs
  induction word with
  | nil => exact ⟨_, rfl, rfl⟩
  | cons c word ih =>
    obtain ⟨r', ih, he⟩ := ih
    exact ⟨⟨r'.1, Nat.le_succ_of_le r'.2⟩, by simp [behind?, ih], he⟩

theorem behindSpacing?_sound {s : List Char} {r : Rest s} (h : behindSpacing? s = some r) :
    ∃ w, w ≠ [] ∧ Spacing w ∧ w ++ r.1 = s := by
  cases s with
  | nil => cases h
  | cons c s =>
    rw [behindSpacing?] at h
    split_ifs at h with hc
    cases h
    obtain ⟨w, hw, hs⟩ := exists_spacing s
    exact ⟨c :: w, List.cons_ne_nil _ _, List.forall_mem_cons.mpr ⟨hc, hw⟩, congrArg _ hs⟩

theorem behindSpacing?_complete {s w r : List Char} (hne : w ≠ []) (hw : Spacing w)
    (hr : skipSpacing r = r) (hs : w ++ r = s) : ∃ r', behindSpacing? s = some r' ∧ r'.1 = r := by
  obtain ⟨c, w, rfl⟩ := List.exists_cons_of_ne_nil hne
  obtain ⟨hc, hw⟩ := List.forall_mem_cons.mp hw
  subst hs
  have hskip : skipSpacing (w ++ r) = r := by rw [skipSpacing_append hw, hr]
  refine ⟨⟨skipSpacing (w ++ r), Nat.lt_succ_of_le (Text.length_skipSpacing_le _)⟩, ?_, hskip⟩
  simp [behindSpacing?, hc]

theorem boundMark?_sound {s : List Char} {r : Rest s} (h : boundMark? s = some r) :
    ∃ m, BoundMark m ∧ m ++ r.1 = s := by
  obtain ⟨r₁, h₁, h⟩ := Option.bind_eq_some_iff.mp h
  obtain ⟨r₂, h₂, h⟩ := Option.bind_eq_some_iff.mp h
  obtain ⟨r₃, h₃, h⟩ := Option.map_eq_some_iff.mp h
  obtain ⟨w, hne, hw, hs⟩ := behindSpacing?_sound h₁
  obtain ⟨w', hne', hw', hs'⟩ := behindSpacing?_sound h₃
  obtain ⟨word, hm, hword⟩ : ∃ word ∈ ["extends", "super"], word.toList ++ r₂.1 = r₁.1 := by
    rcases Option.or_eq_some_iff.mp h₂ with h₂ | ⟨-, h₂⟩
    · exact ⟨_, .head _, behind?_sound h₂⟩
    · exact ⟨_, .tail _ (.head _), behind?_sound h₂⟩
  refine ⟨_, .mk hne hw hm hne' hw', ?_⟩
  rw [← h, List.append_assoc, hs', List.append_assoc, hword, hs]

theorem BoundMark.start {m : List Char} (hm : BoundMark m) (r : List Char) :
    ∃ w c r', m ++ r = w ++ c :: r' ∧ Spacing w ∧ (c = 'e' ∨ c = 's') := by
  cases hm with
  | mk _ hw hword =>
    simp only [List.mem_cons, List.not_mem_nil, or_false] at hword
    rcases hword with rfl | rfl
    · exact ⟨_, 'e', _, by rw [List.append_assoc, List.append_assoc]; rfl, hw, .inl rfl⟩
    · exact ⟨_, 's', _, by rw [List.append_assoc, List.append_assoc]; rfl, hw, .inr rfl⟩

theorem boundMark?_complete {s m r : List Char} (hm : BoundMark m) (hr : skipSpacing r = r)
    (hs : m ++ r = s) : ∃ r', boundMark? s = some r' ∧ r'.1 = r := by
  cases hm with
  | @mk w w' word hne hw hword hne' hw' =>
    rw [List.append_assoc, List.append_assoc] at hs
    simp only [List.mem_cons, List.not_mem_nil, or_false] at hword
    have hstart : skipSpacing (word.toList ++ (w' ++ r)) = word.toList ++ (w' ++ r) := by
      rcases hword with rfl | rfl <;> exact skipSpacing_of_not (by decide) _
    obtain ⟨r₁, h₁, he₁⟩ := behindSpacing?_complete hne hw hstart hs
    obtain ⟨r₂, h₂, he₂⟩ := behind?_complete he₁.symm
    obtain ⟨r₃, h₃, he₃⟩ := behindSpacing?_complete hne' hw' hr he₂.symm
    have hor : (behind? "extends".toList r₁.1).or (behind? "super".toList r₁.1) = some r₂ := by
      rcases hword with rfl | rfl
      · rw [h₂, Option.some_or]
      · have hnone : behind? "extends".toList r₁.1 = none := by
          refine Option.eq_none_iff_forall_ne_some.mpr fun r' hr' => ?_
          cases (behind?_sound hr').trans he₁
        rw [hnone, Option.none_or, h₂]
    refine ⟨⟨r₃.1, by have := r₁.2; have := r₂.2; have := r₃.2; omega⟩, ?_, he₃⟩
    rw [boundMark?, h₁, Option.bind_some, hor, Option.bind_some, h₃]
    rfl

/-- No word for a bound stands in front of the punctuation of signatures. -/
theorem boundMark?_of_before {s : List Char} (hs : Before ['[', ',', '>'] s) :
    boundMark? s = none := by
  refine Option.eq_none_iff_forall_ne_some.mpr fun r hr => ?_
  obtain ⟨m, hm, he⟩ := boundMark?_sound hr
  obtain ⟨w, c, r', hc, hw, hcs⟩ := hm.start r.1
  have hspace : isSpacing c = false := by rcases hcs with rfl | rfl <;> decide
  have hmem := hs c (by rw [← he, hc, skipSpacing_append hw, skipSpacing_of_not hspace]; rfl)
  rcases hcs with rfl | rfl <;> simp at hmem

/-! ## What is read is derivable -/

theorem brackets_rest (s : List Char) : (brackets (brackets s).2.1).1 = 0 := by
  fun_induction brackets s with
  | case1 s r hs _ _ ih => exact ih
  | case2 s hs =>
    rw [brackets]
    split
    · rename_i r hr
      exact absurd hr (hs r)
    · rfl

/-- No bracket pair stands behind what is read as a type. -/
theorem brackets_of_front? {s : List Char} {t : TypeRef} {r : Rest s}
    (h : front? s = some (t, r)) : (brackets r.1).1 = 0 := by
  rw [front?, Option.map_eq_some_iff] at h
  obtain ⟨⟨_, r'⟩, -, he⟩ := h
  cases he
  exact brackets_rest r'.1

theorem isBase_plain {n : List Char} (hn : Name n) :
    IsBase n ((Primitive.ofName? (.ofList n)).elim (.cls ⟨.ofList n⟩) .prim) := by
  cases hp : Primitive.ofName? (.ofList n) with
  | none =>
    refine .cls hn fun p hpn => ?_
    rw [← hpn, String.ofList_toList, Primitive.ofName?_name] at hp
    cases hp
  | some p =>
    have hname : p.name = .ofList n := by simpa using List.find?_some hp
    have hbase := IsBase.prim p
    rwa [hname, String.toList_ofList] at hbase

mutual

theorem front?_sound {s : List Char} {t : TypeRef} {r : Rest s} (h : front? s = some (t, r)) :
    ∃ u, IsType u t ∧ u ++ r.1 = s := by
  rw [front?, Option.map_eq_some_iff] at h
  obtain ⟨⟨t, r'⟩, hb, he⟩ := h
  cases he
  obtain ⟨k, hk, hkr⟩ := brackets_sound r'.1
  rcases base?_sound hb with ⟨b, hbase, hs⟩ | ⟨b, rfl, hbound, hnone, hs⟩
  · exact ⟨_, .base hbase hk, by rw [List.append_assoc, hkr, hs]⟩
  · refine ⟨_, ?_, by rw [List.append_assoc, hkr, hs]⟩
    rw [hnone]
    exact .bound hbound hk
termination_by 3 * s.length + 1

theorem base?_sound {s : List Char} {t : TypeRef} {r : Rest s} (h : base? s = some (t, r)) :
    (∃ b, IsBase b t ∧ b ++ r.1 = s) ∨
      ∃ b, t = .wildcard ∧ IsBound b ∧ (brackets r.1).1 = 0 ∧ b ++ r.1 = s := by
  rw [base?.eq_def] at h
  split at h
  · rename_i s'
    split at h
    · rename_i r' hmark
      have hlt : r'.1.length < s'.length := r'.2
      split at h
      · rename_i v r'' hfront
        cases h
        obtain ⟨m, hm, hms⟩ := boundMark?_sound hmark
        obtain ⟨u, hu, hus⟩ := front?_sound hfront
        have hrest := brackets_of_front? hfront
        refine .inr ⟨_, rfl, .mk hm hu, hrest, ?_⟩
        rw [List.cons_append, List.append_assoc, hus, hms]
      · cases h
        exact .inl ⟨_, .wildcard, rfl⟩
    · cases h
      exact .inl ⟨_, .wildcard, rfl⟩
  · split at h
    · cases h
    · rename_i n r' hn
      obtain ⟨hname, hns⟩ := name?_sound hn
      dsimp only at h
      split at h
      · rename_i s' hs
        obtain ⟨w, hw, hws⟩ := exists_spacing_of_eq hs
        have hlt : s'.length < s.length := by
          have := congrArg List.length hws
          have := r'.2
          rw [List.length_append, List.length_cons] at *
          omega
        split at h
        · rename_i args r'' hargs
          cases h
          obtain ⟨a, ha, has⟩ := arguments?_sound hargs
          refine .inl ⟨_, .app hname hw ha, ?_⟩
          simp only [List.append_assoc, List.cons_append, List.nil_append, has, hws, hns]
        · cases h
          exact .inl ⟨n, isBase_plain hname, hns⟩
      · cases h
        exact .inl ⟨n, isBase_plain hname, hns⟩
termination_by 3 * s.length
decreasing_by
  · subst_vars
    rw [List.length_cons]
    omega
  · omega

theorem arguments?_sound {s : List Char} {ts : List TypeRef} {r : Rest s}
    (h : arguments? s = some (ts, r)) : ∃ a, IsArguments a ts ∧ a ++ '>' :: r.1 = s := by
  rw [arguments?] at h
  dsimp only at h
  split at h
  · cases h
  · rename_i t r' hfront
    split at h
    · rename_i r'' hr
      cases h
      have hle : (skipSpacing s).length ≤ s.length := Text.length_skipSpacing_le s
      have hlt : r'.1.length < (skipSpacing s).length := r'.2
      obtain ⟨w, hw, hws⟩ := exists_spacing s
      obtain ⟨u, hu, hus⟩ := front?_sound hfront
      obtain ⟨a, ha, has⟩ := moreArguments_sound r'.1
      obtain ⟨w', hw', hws'⟩ := exists_spacing_of_eq hr
      refine ⟨_, .mk hw hu ha hw', ?_⟩
      rw [List.append_assoc, hws', List.append_assoc, has, List.append_assoc, hus, hws]
    · cases h
termination_by 3 * s.length + 2

theorem moreArguments_sound (s : List Char) :
    ∃ a, IsFurther a (moreArguments s).1 ∧ a ++ (moreArguments s).2.1 = s := by
  rw [moreArguments]
  split
  · rename_i s' hs
    obtain ⟨w, hw, hws⟩ := exists_spacing_of_eq hs
    have hlt : s'.length < s.length := by
      rw [← hws, List.length_append, List.length_cons]
      omega
    have hle : (skipSpacing s').length ≤ s'.length := Text.length_skipSpacing_le s'
    dsimp only
    split
    · exact ⟨[], .nil, rfl⟩
    · rename_i t r hfront
      have hlt' : r.1.length < (skipSpacing s').length := r.2
      obtain ⟨w', hw', hws'⟩ := exists_spacing s'
      obtain ⟨u, hu, hus⟩ := front?_sound hfront
      obtain ⟨a, ha, has⟩ := moreArguments_sound r.1
      refine ⟨_, .cons hw hw' hu ha, ?_⟩
      simp only [List.append_assoc, List.cons_append, has, hus, hws', hws]
  · exact ⟨[], .nil, rfl⟩
termination_by 3 * s.length + 2

end

/-! ## What is derivable is read -/

theorem name_prim (p : Primitive) : Name p.name.toList := by
  have hne : p.name.toList ≠ [] := by cases p <;> simp [Primitive.name]
  have hall : p.name.toList.all isNameChar = true := by cases p <;> rfl
  exact .part ⟨hne, List.all_eq_true.mp hall⟩

theorem Name.start {n : List Char} (h : Name n) : ∃ c m, n = c :: m ∧ isNameChar c = true := by
  have hpart : ∀ {i m : List Char}, NamePart i → ∃ c m', i ++ m = c :: m' ∧ isNameChar c = true :=
    fun {i m} hi => by
      obtain ⟨c, i', rfl⟩ := List.exists_cons_of_ne_nil hi.1
      exact ⟨c, i' ++ m, rfl, hi.2 c List.mem_cons_self⟩
  cases h with
  | part hi => simpa using hpart (m := []) hi
  | dot hi _ => exact hpart hi

theorem IsFurther.before {a r : List Char} {ts : List TypeRef} (h : IsFurther a ts)
    (hr : Before ['>'] r) : Before [',', '>'] (a ++ r) := by
  cases h with
  | nil => exact hr.mono (by simp)
  | cons hw _ _ _ =>
    rw [List.append_assoc, List.append_assoc]
    exact .append hw (.cons (by decide) (by simp) _)

theorem IsType.skipSpacing {u : List Char} {t : TypeRef} (h : IsType u t) (r : List Char) :
    Text.skipSpacing (u ++ r) = u ++ r := by
  have hname : ∀ {n : List Char} (m : List Char), Name n →
      Text.skipSpacing (n ++ m) = n ++ m := fun m hn => by
    obtain ⟨c, n', rfl, hc⟩ := hn.start
    exact skipSpacing_of_not (isSpacing_of_isNameChar hc) _
  cases h with
  | base hb _ =>
    rw [List.append_assoc]
    cases hb with
    | wildcard => exact skipSpacing_of_not (by decide) _
    | prim p => exact hname _ (name_prim p)
    | cls hn _ => exact hname _ hn
    | app hn _ _ =>
      rw [List.append_assoc, List.append_assoc]
      exact hname _ hn
  | bound hb _ =>
    cases hb
    exact skipSpacing_of_not (by decide) _

theorem base?_of_question {s : List Char} (h : boundMark? s = none) :
    ∃ r, base? ('?' :: s) = some (.wildcard, r) ∧ r.1 = s := by
  rw [base?, h]
  exact ⟨_, rfl, rfl⟩

theorem base?_of_bound {s : List Char} {t : TypeRef} {r : Rest s} {r' : Rest r.1}
    (h : boundMark? s = some r) (hf : front? r.1 = some (t, r')) :
    ∃ r₁, base? ('?' :: s) = some (.wildcard, r₁) ∧ r₁.1 = r'.1 := by
  rw [base?, h]
  dsimp only
  rw [hf]
  exact ⟨_, rfl, rfl⟩

theorem base?_of_name {s n : List Char} {r : Rest s} (hn : name? s = some (n, r))
    (hr : ∀ r', skipSpacing r.1 ≠ '<' :: r') :
    base? s = some ((Primitive.ofName? (.ofList n)).elim (.cls ⟨.ofList n⟩) .prim, r) := by
  rw [base?.eq_def]
  split
  · have hquestion : isNameChar '?' = false := by decide
    rw [name?, hquestion] at hn
    cases hn
  · rw [hn]
    dsimp only
    split
    · rename_i r' h
      exact absurd h (hr r')
    · rfl

theorem base?_of_arguments {s n r' : List Char} {r : Rest s} {ts : List TypeRef} {r'' : Rest r'}
    (hn : name? s = some (n, r)) (hr : skipSpacing r.1 = '<' :: r')
    (ha : arguments? r' = some (ts, r'')) :
    ∃ r₁, base? s = some (.app ⟨.ofList n⟩ ts, r₁) ∧ r₁.1 = r''.1 := by
  rw [base?.eq_def]
  split
  · have hquestion : isNameChar '?' = false := by decide
    rw [name?, hquestion] at hn
    cases hn
  · rw [hn]
    dsimp only
    split
    · rename_i r₁ h
      cases hr.symm.trans h
      rw [ha]
      exact ⟨_, rfl, rfl⟩
    · rename_i hne
      exact absurd hr (hne r')

theorem base?_name_complete {s n r : List Char} (hn : Name n) (hr : Before ['[', ',', '>'] r)
    (hs : n ++ r = s) : ∃ r', base? s =
      some ((Primitive.ofName? (.ofList n)).elim (.cls ⟨.ofList n⟩) .prim, r') ∧ r'.1 = r := by
  obtain ⟨r', hread, he⟩ := name?_complete hn (hr.mono (by simp)) hs
  refine ⟨r', base?_of_name hread fun r'' h => ?_, he⟩
  have hm := hr '<' (by rw [← he, h]; rfl)
  simp at hm

theorem arguments?_of_front {s r' : List Char} {t : TypeRef} {r : Rest (skipSpacing s)}
    (hf : front? (skipSpacing s) = some (t, r))
    (hr : skipSpacing (moreArguments r.1).2.1 = '>' :: r') :
    ∃ r₁, arguments? s = some (t :: (moreArguments r.1).1, r₁) ∧ r₁.1 = r' := by
  rw [arguments?, hf]
  dsimp only
  split
  · rename_i r'' h
    cases hr.symm.trans h
    exact ⟨_, rfl, rfl⟩
  · rename_i hne
    exact absurd hr (hne _)

theorem moreArguments_of_front {s s' : List Char} {t : TypeRef} {r : Rest (skipSpacing s')}
    (hs : skipSpacing s = ',' :: s') (hf : front? (skipSpacing s') = some (t, r)) :
    (moreArguments s).1 = t :: (moreArguments r.1).1 ∧
      (moreArguments s).2.1 = (moreArguments r.1).2.1 := by
  rw [moreArguments]
  split
  · rename_i s'' h
    cases hs.symm.trans h
    dsimp only
    rw [hf]
    exact ⟨rfl, rfl⟩
  · rename_i hne
    exact absurd hs (hne _)

mutual

/-- A type is read to its end, with the bracket pairs behind it. -/
theorem IsType.complete {u : List Char} {t : TypeRef} : IsType u t →
    ∀ ⦃s k r : List Char⦄ ⦃n : Nat⦄, BracketPairs k n → Before [',', '>'] r → u ++ (k ++ r) = s →
    ∃ t' r', front? s = some (t', r') ∧ r'.1 = r ∧ (n = 0 → t' = t)
  | @IsType.base b k₀ t n₀ hb hk₀ => by
    intro s k r n hk hr hs
    have hpairs := hk₀.append hk
    have hs' : b ++ (k₀ ++ k ++ r) = s := by simpa only [List.append_assoc] using hs
    obtain ⟨r', hbase, he⟩ := hb.complete (hpairs.before hr) hs'
    obtain ⟨hn, hrest⟩ := brackets_complete hpairs hr he.symm
    refine ⟨_, _, by rw [front?, hbase]; rfl, hrest, fun hzero => ?_⟩
    rw [hn, hzero, Nat.add_zero]
  | @IsType.bound b k₀ n₀ hb hk₀ => by
    intro s k r n hk hr hs
    have hpairs := hk₀.append hk
    have hs' : b ++ (k₀ ++ k ++ r) = s := by simpa only [List.append_assoc] using hs
    obtain ⟨r', hbase, he⟩ := hb.complete hpairs hr hs'
    obtain ⟨hn, hrest⟩ := brackets_complete .nil hr he.symm
    refine ⟨_, _, by rw [front?, hbase]; rfl, hrest, fun _ => ?_⟩
    rw [hn]
    rfl

theorem IsBase.complete {b : List Char} {t : TypeRef} : IsBase b t → ∀ ⦃s r : List Char⦄,
    Before ['[', ',', '>'] r → b ++ r = s → ∃ r', base? s = some (t, r') ∧ r'.1 = r
  | .wildcard => by
    intro s r hr hs
    subst hs
    exact base?_of_question (boundMark?_of_before hr)
  | .prim p => by
    intro s r hr hs
    have hread := base?_name_complete (name_prim p) hr hs
    rwa [String.ofList_toList, Primitive.ofName?_name] at hread
  | @IsBase.cls n hn hp => by
    intro s r hr hs
    have hread := base?_name_complete hn hr hs
    have hnone : Primitive.ofName? (.ofList n) = none := by
      refine List.find?_eq_none.mpr fun p _ hpn => ?_
      rw [beq_iff_eq] at hpn
      exact hp p (by rw [hpn, String.toList_ofList])
    rwa [hnone] at hread
  | @IsBase.app n w a ts hn hw ha => by
    intro s r hr hs
    have hs' : n ++ (w ++ '<' :: (a ++ '>' :: r)) = s := by
      simpa only [List.append_assoc, List.cons_append, List.nil_append] using hs
    obtain ⟨r₁, hread, he⟩ :=
      name?_complete hn (.append hw (.cons (by decide) (by simp) _)) hs'
    have hopen : skipSpacing r₁.1 = '<' :: (a ++ '>' :: r) := by
      rw [he, skipSpacing_append hw]
      exact skipSpacing_of_not (by decide) _
    obtain ⟨r₂, hargs, he₂⟩ := ha.complete rfl
    obtain ⟨r₃, hbase, he₃⟩ := base?_of_arguments hread hopen hargs
    exact ⟨r₃, hbase, he₃.trans he₂⟩

/-- A wildcard with a bound is read to its end, with the bracket pairs behind it. -/
theorem IsBound.complete {b : List Char} : IsBound b → ∀ ⦃s k r : List Char⦄ ⦃n : Nat⦄,
    BracketPairs k n → Before [',', '>'] r → b ++ (k ++ r) = s →
    ∃ r', base? s = some (.wildcard, r') ∧ r'.1 = r
  | @IsBound.mk m u t hm hu => by
    intro s k r n hk hr hs
    subst hs
    obtain ⟨r₁, hmark, he₁⟩ := boundMark?_complete (r := u ++ (k ++ r)) hm (hu.skipSpacing _) rfl
    obtain ⟨t', r₂, hfront, he₂, -⟩ := hu.complete hk hr he₁.symm
    obtain ⟨r₃, hbase, he₃⟩ := base?_of_bound hmark hfront
    rw [List.cons_append, List.append_assoc]
    exact ⟨r₃, hbase, he₃.trans he₂⟩

theorem IsArguments.complete {a : List Char} {ts : List TypeRef} : IsArguments a ts →
    ∀ ⦃s r : List Char⦄, a ++ '>' :: r = s → ∃ r', arguments? s = some (ts, r') ∧ r'.1 = r
  | @IsArguments.mk w u a w' t ts hw hu ha hw' => by
    intro s r hs
    have hs' : skipSpacing s = u ++ ([] ++ (a ++ (w' ++ '>' :: r))) := by
      rw [← hs]
      simp only [List.append_assoc, List.nil_append]
      rw [skipSpacing_append hw, hu.skipSpacing]
    have hclose : Before ['>'] (w' ++ '>' :: r) := .append hw' (.cons (by decide) (by simp) _)
    obtain ⟨t', r₁, hfront, he₁, ht⟩ := hu.complete .nil (ha.before hclose) hs'.symm
    obtain ⟨hts, hrest⟩ := ha.complete hclose he₁.symm
    have hend : skipSpacing (w' ++ '>' :: r) = '>' :: r := by
      rw [skipSpacing_append hw']
      exact skipSpacing_of_not (by decide) _
    rw [← hrest] at hend
    obtain ⟨r₂, hargs, he₂⟩ := arguments?_of_front hfront hend
    exact ⟨r₂, by rw [hargs, hts, ht rfl], he₂⟩

theorem IsFurther.complete {a : List Char} {ts : List TypeRef} : IsFurther a ts →
    ∀ ⦃s r : List Char⦄, Before ['>'] r → a ++ r = s →
    (moreArguments s).1 = ts ∧ (moreArguments s).2.1 = r
  | .nil => by
    intro s r hr hs
    subst hs
    rw [List.nil_append, moreArguments]
    split
    · rename_i s' hs
      have hm := hr ',' (by rw [hs]; rfl)
      simp at hm
    · exact ⟨rfl, rfl⟩
  | @IsFurther.cons w w' u a t ts hw hw' hu ha => by
    intro s r hr hs
    have hcomma : skipSpacing s = ',' :: (w' ++ (u ++ (a ++ r))) := by
      rw [← hs]
      simp only [List.append_assoc, List.cons_append]
      rw [skipSpacing_append hw]
      exact skipSpacing_of_not (by decide) _
    have hstart : u ++ ([] ++ (a ++ r)) = skipSpacing (w' ++ (u ++ (a ++ r))) := by
      rw [skipSpacing_append hw', hu.skipSpacing, List.nil_append]
    obtain ⟨t', r₁, hfront, he₁, ht⟩ := hu.complete .nil (ha.before hr) hstart
    obtain ⟨hts, hrest⟩ := ha.complete hr he₁.symm
    obtain ⟨hall, hend⟩ := moreArguments_of_front hcomma hfront
    exact ⟨by rw [hall, hts, ht rfl], hend.trans hrest⟩

end

/-! ## Signatures -/

theorem isSignature_of_ofText {s : String} {t : TypeRef} (h : ofText s = .ok t) :
    IsSignature s.toList t := by
  rw [ofText] at h
  cases hf : front? (skipSpacing s.toList) with
  | none =>
    rw [hf] at h
    cases h
  | some x =>
    obtain ⟨u, r⟩ := x
    rw [hf] at h
    dsimp only at h
    split at h
    · rename_i hr
      cases h
      obtain ⟨w, hw, hws⟩ := exists_spacing s.toList
      obtain ⟨v, hv, hvs⟩ := front?_sound hf
      obtain ⟨w', hw', hws'⟩ := exists_spacing_of_eq hr
      refine ⟨w, v, w', hw, hv, hw', ?_⟩
      rw [List.append_nil] at hws'
      rw [hws', List.append_assoc, hvs, hws]
    · cases h

theorem IsSignature.ofText {s : String} {t : TypeRef} (h : IsSignature s.toList t) :
    ofText s = .ok t := by
  obtain ⟨w, u, w', hw, hu, hw', hs⟩ := h
  have hend : skipSpacing w' = [] := by
    have := skipSpacing_append hw' []
    rwa [List.append_nil] at this
  have hstart : u ++ ([] ++ w') = skipSpacing s.toList := by
    rw [hs, List.append_assoc, skipSpacing_append hw, hu.skipSpacing, List.nil_append]
  have hbefore : Before [',', '>'] w' := by
    rw [Before, hend]
    exact fun _ hc => nomatch hc
  obtain ⟨t', r, hf, hr, ht⟩ := hu.complete .nil hbefore hstart
  rw [TypeRef.ofText, hf, ht rfl]
  dsimp only
  rw [hr, hend]

/-- **A text denotes a type just when the grammar derives it as one.** -/
theorem ofText_eq_ok_iff (s : String) (t : TypeRef) :
    TypeRef.ofText s = .ok t ↔ IsSignature s.toList t :=
  ⟨isSignature_of_ofText, IsSignature.ofText⟩

end JsonBinding.TypeRef
