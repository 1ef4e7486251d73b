import JsonBinding.Proofs.TypeRef.Grammar

/-!
# The types that signatures denote

A signature denotes a type without type variables, the classes of which have names. The text of such
a type is a signature for it.

* `TypeRef.Legible`: the types that signatures denote; **`legible_ofText`** says so.
* `exists_further`, `Legible.exists_base`, **`ofText_text`**: the text of such a type denotes it.
* `TypeRef.Spelled`, `Legible.spelled`: the classes in a type that a signature denotes have names of
  letters, digits, underscores, dollar signs and dots.
* `ofText_of_name?`: what a name alone denotes.
-/

namespace JsonBinding.TypeRef

/-! ## Types that are denoted -/

/-- Types that signatures denote. -/
inductive Legible : TypeRef → Prop
  | prim (p : Primitive) : Legible (.prim p)
  | cls {n : ClassName} : Name n.text.toList →
    (∀ p : Primitive, p.name.toList ≠ n.text.toList) → Legible (.cls n)
  | array {t : TypeRef} : Legible t → Legible (.array t)
  | app {raw : ClassName} {args : List TypeRef} : Name raw.text.toList → args ≠ [] →
    (∀ t ∈ args, Legible t) → Legible (.app raw args)
  | wildcard : Legible .wildcard

theorem Legible.arrays {t : TypeRef} (h : Legible t) (n : Nat) : Legible (arrays t n) := by
  induction n with
  | zero => exact h
  | succ n ih => exact .array ih

mutual

theorem IsType.legible {u : List Char} {t : TypeRef} : IsType u t → Legible t
  | .base hb _ => hb.legible.arrays _
  | .bound _ _ => .wildcard

theorem IsBase.legible {b : List Char} {t : TypeRef} : IsBase b t → Legible t
  | .wildcard => .wildcard
  | .prim p => .prim p
  | .cls hn hp => .cls (by rwa [String.toList_ofList]) (by rwa [String.toList_ofList])
  | .app hn _ ha => .app (by rwa [String.toList_ofList]) ha.legible.1 ha.legible.2

theorem IsArguments.legible {a : List Char} {ts : List TypeRef} :
    IsArguments a ts → ts ≠ [] ∧ ∀ t ∈ ts, Legible t
  | .mk _ hu ha _ => ⟨List.cons_ne_nil _ _, List.forall_mem_cons.mpr ⟨hu.legible, ha.legible⟩⟩

theorem IsFurther.legible {a : List Char} {ts : List TypeRef} :
    IsFurther a ts → ∀ t ∈ ts, Legible t
  | .nil => List.forall_mem_nil _
  | .cons _ _ hu ha => List.forall_mem_cons.mpr ⟨hu.legible, ha.legible⟩

end

/-- **Signatures denote legible types.** -/
theorem legible_ofText {s : String} {t : TypeRef} (h : ofText s = .ok t) : Legible t := by
  obtain ⟨_, _, _, _, hu, -⟩ := isSignature_of_ofText h
  exact hu.legible

/-! ## Texts of types -/

theorem spacing_nil : Spacing [] := List.forall_mem_nil _

theorem spacing_blank : Spacing [' '] := List.forall_mem_singleton.mpr (by decide)

theorem exists_further {ts : List TypeRef} (t : TypeRef)
    (h : ∀ u ∈ ts, IsType u.text.toList u) :
    ∃ a, IsFurther a ts ∧ (argsText (t :: ts)).toList = t.text.toList ++ a := by
  induction ts generalizing t with
  | nil => exact ⟨[], .nil, by rw [argsText, List.append_nil]⟩
  | cons u ts ih =>
    obtain ⟨hu, hts⟩ := List.forall_mem_cons.mp h
    obtain ⟨a, ha, he⟩ := ih u hts
    refine ⟨_, .cons spacing_nil spacing_blank hu ha, ?_⟩
    rw [argsText, String.toList_append, String.toList_append, he]
    · simp
    · exact List.cons_ne_nil u ts

/-- The text of a type is a base with bracket pairs behind it, one for each dimension. -/
theorem Legible.exists_base {t : TypeRef} (h : Legible t) : ∃ b k u n,
    IsBase b u ∧ BracketPairs k n ∧ t.text.toList = b ++ k ∧ t = TypeRef.arrays u n := by
  induction h with
  | prim p => exact ⟨_, _, _, _, .prim p, .nil, by rw [text, List.append_nil], rfl⟩
  | @cls n hn hp =>
    refine ⟨_, _, _, _, .cls hn hp, .nil, by rw [text, List.append_nil], ?_⟩
    rw [String.ofList_toList]
    rfl
  | @array t _ ih =>
    obtain ⟨b, k, u, n, hb, hk, htext, rfl⟩ := ih
    refine ⟨b, _, u, n + 1, hb, hk.append (.cons spacing_nil .nil), ?_, rfl⟩
    rw [text, String.toList_append, htext, List.append_assoc]
    rfl
  | @app raw args hn hne _ ih =>
    obtain ⟨t, ts, rfl⟩ := List.exists_cons_of_ne_nil hne
    have hargs : ∀ u ∈ t :: ts, IsType u.text.toList u := fun u hu => by
      obtain ⟨b, k, v, n, hb, hk, htext, he⟩ := ih u hu
      rw [htext, he]
      exact .base hb hk
    obtain ⟨ht, hts⟩ := List.forall_mem_cons.mp hargs
    obtain ⟨a, ha, htext⟩ := exists_further t hts
    refine ⟨_, _, _, 0, .app hn spacing_nil (.mk spacing_nil ht ha spacing_nil), .nil, ?_, ?_⟩
    · rw [text, String.toList_append, String.toList_append, String.toList_append, htext]
      simp
    · rw [String.ofList_toList]
      rfl
  | wildcard => exact ⟨_, _, _, _, .wildcard, .nil, rfl, rfl⟩

/-- **The text of a type is a signature for it.** -/
theorem ofText_text {t : TypeRef} (h : Legible t) : ofText t.text = .ok t := by
  obtain ⟨b, k, u, n, hb, hk, htext, rfl⟩ := h.exists_base
  refine IsSignature.ofText ⟨[], _, [], spacing_nil, .base hb hk, spacing_nil, ?_⟩
  rw [htext, List.nil_append, List.append_nil]

/-! ## The characters of names -/

/-- Whether a text has the characters of a name. -/
def NameLike (s : List Char) : Prop := ∀ c ∈ s, isNameChar c = true ∨ c = '.'

theorem Name.nameLike {n : List Char} (h : Name n) : NameLike n := by
  induction h with
  | part hi => exact fun c hc => .inl (hi.2 c hc)
  | dot hi _ ih =>
    exact List.forall_mem_append.mpr
      ⟨fun c hc => .inl (hi.2 c hc), List.forall_mem_cons.mpr ⟨.inr rfl, ih⟩⟩

/-- Types whose classes have the characters of names. A type variable is no class. -/
inductive Spelled : TypeRef → Prop
  | prim (p : Primitive) : Spelled (.prim p)
  | cls {n : ClassName} : NameLike n.text.toList → Spelled (.cls n)
  | array {t : TypeRef} : Spelled t → Spelled (.array t)
  | app {raw : ClassName} {args : List TypeRef} : NameLike raw.text.toList →
    (∀ t ∈ args, Spelled t) → Spelled (.app raw args)
  | var (n : String) : Spelled (.var n)
  | wildcard : Spelled .wildcard

theorem Spelled.element? {t u : TypeRef} (h : Spelled t) (hu : t.element? = some u) :
    Spelled u := by
  cases h with
  | array h =>
    cases hu
    exact h
  | @app raw args _ h =>
    simp only [TypeRef.element?] at hu
    split_ifs at hu
    exact h u (List.mem_of_head? hu)
  | cls _ =>
    simp only [TypeRef.element?] at hu
    split_ifs at hu <;> cases hu <;> exact .prim _
  | prim _ | var _ | wildcard => cases hu

theorem Legible.spelled {t : TypeRef} (h : Legible t) : Spelled t := by
  induction h with
  | prim p => exact .prim p
  | cls hn _ => exact .cls hn.nameLike
  | array _ ih => exact .array ih
  | app hn _ _ ih => exact .app hn.nameLike ih
  | wildcard => exact .wildcard

/-! ## Names alone -/

/-- A text that is a name denotes a primitive or a class. -/
theorem ofText_of_name? {s : String} {n : List Char} {r : Rest s.toList}
    (hn : name? s.toList = some (n, r)) (hr : r.1 = []) :
    ofText s = .ok ((Primitive.ofName? (.ofList n)).elim (.cls ⟨.ofList n⟩) .prim) := by
  obtain ⟨hname, hs⟩ := name?_sound hn
  rw [hr, List.append_nil] at hs
  refine IsSignature.ofText
    ⟨[], n ++ [], [], spacing_nil, .base (isBase_plain hname) .nil, spacing_nil, ?_⟩
  rw [hs]
  simp

end JsonBinding.TypeRef
