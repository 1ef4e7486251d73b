import JsonBinding.Proofs.Support.Reachability

/-!
# The walk of a resolution

A resolution walks from a type to its parts and takes the types that are open for supported. What a
support tells of a type while some types are trusted is a judgement (`Schema.Judgement`): it follows
a step of the walk from what holds of the parts, and no support is told without trust in anything.

* `Schema.Gives`, `Schema.GivesAll`: the support of a type by that of its parts, and of a class by
  that of its properties.
* `Finding.trusted`: the open types that a finding rests on.
* **`Judgement.resolves_resolveIn`**: a judgement that holds of everything remembered holds of what a
  resolution finds, and of everything remembered afterwards.
-/

namespace JsonBinding

/-! ## Trusted types -/

namespace Finding

/-- The open types that a finding rests on, given the place of the outermost of them. -/
def trusted (opened : List TypeRef) : Option Nat → List TypeRef
  | none => []
  | some a => opened.take (opened.length - a)

variable {opened : List TypeRef} {t : TypeRef}

theorem trusted_subset (a? : Option Nat) : trusted opened a? ⊆ opened := by
  cases a? with
  | none => exact List.nil_subset _
  | some a => exact List.take_subset _ _

theorem mem_trusted (h : t ∈ opened) :
    t ∈ trusted opened (some (opened.length - 1 - opened.idxOf t)) := by
  have hi := List.idxOf_lt_length_of_mem h
  rw [trusted, List.mem_take_iff_getElem]
  exact ⟨opened.idxOf t, by omega, List.getElem_idxOf hi⟩

theorem trusted_mono {a b : Nat} (h : b ≤ a) :
    trusted opened (some a) ⊆ trusted opened (some b) :=
  (List.take_sublist_take_left (by omega)).subset

theorem trusted_outermost_left (a? b? : Option Nat) :
    trusted opened a? ⊆ trusted opened (outermost a? b?) := by
  cases a? with
  | none => exact List.nil_subset _
  | some a =>
    cases b? with
    | none => exact List.Subset.refl _
    | some b => exact trusted_mono (Nat.min_le_left a b)

theorem trusted_outermost_right (a? b? : Option Nat) :
    trusted opened b? ⊆ trusted opened (outermost a? b?) := by
  cases b? with
  | none => exact List.nil_subset _
  | some b =>
    cases a? with
    | none => exact List.Subset.refl _
    | some a => exact trusted_mono (Nat.min_le_right a b)

/-- Closing the innermost type leaves trust in the others only. -/
theorem trusted_cons (a? : Option Nat) :
    trusted (t :: opened) a? ⊆ t :: trusted opened (a?.filter (· < opened.length)) := by
  cases a? with
  | none => exact List.nil_subset _
  | some a =>
    by_cases ha : a < opened.length
    · have h : (t :: opened).length - a = (opened.length - a) + 1 := by
        rw [List.length_cons]; omega
      simp only [Option.filter_some, ha, decide_true, if_true, trusted]
      rw [h, List.take_succ_cons]
      exact List.Subset.refl _
    · have h : (t :: opened).length - a ≤ 1 := by rw [List.length_cons]; omega
      simp only [Option.filter_some, ha, decide_false, trusted]
      exact (List.take_sublist_take_left h).subset

end Finding

namespace Support

@[simp] theorem isSupported_fully : Support.fully.isSupported = true := rfl

@[simp] theorem isSupported_withUnhandled : Support.withUnhandled.isSupported = true := rfl

@[simp] theorem isSupported_unsupported (r : Reason) :
    (Support.unsupported r).isSupported = false := rfl

end Support

namespace Schema

variable (s : Schema)

/-! ## Steps -/

/-- The support of a class by what holds of the types of its properties, up to the first property
without support. -/
inductive GivesAll (part : TypeRef → Support → Prop) (owner : ClassName) :
    List Property → Support → Prop
  | nil : GivesAll part owner [] .fully
  | stop {p : Property} {rest : List Property} {σ : Support} {r : Reason} : part p.type σ →
    s.propertySupport owner p σ = .unsupported r → GivesAll part owner (p :: rest) (.unsupported r)
  | cons {p : Property} {rest : List Property} {σ τ : Support} : part p.type σ →
    (s.propertySupport owner p σ).isSupported = true → GivesAll part owner rest τ →
    GivesAll part owner (p :: rest) ((s.propertySupport owner p σ).weaker τ)

/-- The support of a type by what holds of its parts. -/
inductive Gives (part : TypeRef → Support → Prop) : TypeRef → Support → Prop
  | unmatched {t : TypeRef} : s.variant? t = none → Gives part t (.unsupported (unmatched t))
  | scalar {t : TypeRef} {v : Variant} : s.variant? t = some v →
    v ∈ [.primitive, .boxed, .string, .date] → Gives part t .fully
  | noElement {t : TypeRef} {v : Variant} : s.variant? t = some v → v ∈ [.optional, .collection] →
    t.element? = none → Gives part t (.unsupported (.genericClass t))
  | element {t u : TypeRef} {v : Variant} {σ : Support} : s.variant? t = some v →
    v ∈ [.optional, .collection] → t.element? = some u → part u σ → Gives part t (σ.inContainer t)
  | noEntry {t : TypeRef} : s.variant? t = some .map → t.key? = none ∨ t.value? = none →
    Gives part t (.unsupported (.genericClass t))
  | badKey {t key u : TypeRef} : s.variant? t = some .map → t.key? = some key →
    s.isWritableKey key = false → t.value? = some u → Gives part t (.unsupported (.mapKey t key))
  | value {t key u : TypeRef} {σ : Support} : s.variant? t = some .map → t.key? = some key →
    s.isWritableKey key = true → t.value? = some u → part u σ → Gives part t (σ.inContainer t)
  | missing {n : ClassName} : s.variant? (.cls n) = some .object → s.index.class? n = none →
    Gives part (.cls n) (.unsupported (.missingClass n))
  | impossible {n : ClassName} {c : ClassInfo} {i : Impossibility} :
    s.variant? (.cls n) = some .object → s.index.class? n = some c →
    (s.index.inspect c).impossibility? = some i →
    Gives part (.cls n) (.unsupported (.notPossible n i))
  | properties {n : ClassName} {c : ClassInfo} {σ : Support} :
    s.variant? (.cls n) = some .object → s.index.class? n = some c →
    (s.index.inspect c).impossibility? = none →
    s.GivesAll part n (s.properties (s.index.inspect c)) σ → Gives part (.cls n) σ

variable {s} {part part' : TypeRef → Support → Prop}

theorem GivesAll.mono {owner : ClassName} {ps : List Property} {σ : Support}
    (h : ∀ u τ, part u τ → part' u τ) (hg : s.GivesAll part owner ps σ) :
    s.GivesAll part' owner ps σ := by
  induction hg with
  | nil => exact .nil
  | stop hp hr => exact .stop (h _ _ hp) hr
  | cons hp hs _ ih => exact .cons (h _ _ hp) hs ih

theorem Gives.mono {t : TypeRef} {σ : Support} (h : ∀ u τ, part u τ → part' u τ)
    (hg : s.Gives part t σ) : s.Gives part' t σ := by
  cases hg with
  | unmatched hv => exact .unmatched hv
  | scalar hv hm => exact .scalar hv hm
  | noElement hv hm he => exact .noElement hv hm he
  | element hv hm he hp => exact .element hv hm he (h _ _ hp)
  | noEntry hv hn => exact .noEntry hv hn
  | badKey hv hk hw hu => exact .badKey hv hk hw hu
  | value hv hk hw hu hp => exact .value hv hk hw hu (h _ _ hp)
  | missing hv hc => exact .missing hv hc
  | impossible hv hc hi => exact .impossible hv hc hi
  | properties hv hc hi hg => exact .properties hv hc hi (hg.mono h)

/-! ## Forms with parts -/

variable {opened : List TypeRef} {t u key : TypeRef} {memo : Memo} {v : Variant}

theorem supportIn_of_element?_none (hv : v ∈ [.optional, .collection]) (ht : t ∉ opened)
    (he : t.element? = none) :
    s.supportIn opened t memo v ht = ⟨.unsupported (.genericClass t), memo, none⟩ := by
  simp only [List.mem_cons, List.not_mem_nil, or_false] at hv
  rcases hv with rfl | rfl <;>
    · rw [supportIn]
      split
      · rfl
      · simp_all

theorem supportIn_of_element? (hv : v ∈ [.optional, .collection]) (ht : t ∉ opened)
    (he : t.element? = some u) :
    s.supportIn opened t memo v ht =
      (s.resolveIn (t :: opened) u memo).map fun r => r.support.inContainer t := by
  simp only [List.mem_cons, List.not_mem_nil, or_false] at hv
  rcases hv with rfl | rfl <;>
    · rw [supportIn]
      split
      · simp_all
      · simp_all

theorem supportIn_of_value? (ht : t ∉ opened) (hk : t.key? = some key) (hu : t.value? = some u) :
    s.supportIn opened t memo .map ht =
      if s.isWritableKey key then
        (s.resolveIn (t :: opened) u memo).map fun r => r.support.inContainer t
      else ⟨.unsupported (.mapKey t key), memo, none⟩ := by
  rw [supportIn]
  split
  · simp_all
  · simp_all

theorem supportIn_of_value?_none (ht : t ∉ opened)
    (hn : ∀ key u, t.key? = some key → t.value? = some u → False) :
    s.supportIn opened t memo .map ht = ⟨.unsupported (.genericClass t), memo, none⟩ := by
  rw [supportIn]
  split
  · rename_i hk hu
    exact (hn _ _ hk hu).elim
  · rfl

theorem supportIn_of_missing {n : ClassName} (ht : .cls n ∉ opened)
    (hc : s.index.class? n = none) :
    s.supportIn opened (.cls n) memo .object ht = ⟨.unsupported (.missingClass n), memo, none⟩ := by
  rw [supportIn]
  split
  · rfl
  · simp_all

theorem supportIn_of_impossible {n : ClassName} {c : ClassInfo} {i : Impossibility}
    (ht : .cls n ∉ opened) (hc : s.index.class? n = some c)
    (hi : (s.index.inspect c).impossibility? = some i) :
    s.supportIn opened (.cls n) memo .object ht =
      ⟨.unsupported (.notPossible n i), memo.inspect n, none⟩ := by
  rw [supportIn]
  split
  · simp_all
  · rename_i c' hc'
    rw [hc] at hc'
    cases hc'
    simp only [hi]

theorem supportIn_of_possible {n : ClassName} {c : ClassInfo} (ht : .cls n ∉ opened)
    (hc : s.index.class? n = some c) (hi : (s.index.inspect c).impossibility? = none) :
    s.supportIn opened (.cls n) memo .object ht =
      s.propertiesIn (.cls n :: opened) n (s.properties (s.index.inspect c)) (memo.inspect n) := by
  rw [supportIn]
  split
  · simp_all
  · rename_i c' hc'
    rw [hc] at hc'
    cases hc'
    simp only [hi]

theorem propertiesIn_of_supported {owner : ClassName} {p : Property} {rest : List Property}
    (hr : ∀ r, s.propertySupport owner p (s.resolveIn opened p.type memo).result.support =
      .unsupported r → False) :
    s.propertiesIn opened owner (p :: rest) memo =
      let found := s.resolveIn opened p.type memo
      let others := s.propertiesIn opened owner rest found.memo
      ⟨(s.propertySupport owner p found.result.support).weaker others.result, others.memo,
        Finding.outermost found.assumed? others.assumed?⟩ := by
  rw [propertiesIn]
  split
  · rename_i r h
    exact (hr r h).elim
  · rfl

/-! ## Judgements -/

variable (s)

/-- What a support tells of a type while some types are trusted. -/
structure Judgement where
  holds : List TypeRef → TypeRef → Support → Prop
  trusted {A : List TypeRef} {t : TypeRef} : t ∈ A → holds A t .fully
  mono {A B : List TypeRef} {t : TypeRef} {σ : Support} : A ⊆ B → holds A t σ → holds B t σ
  /-- The trusted types lead to the type that a step is about. -/
  step {A : List TypeRef} {t : TypeRef} {σ : Support} :
    (∀ a ∈ A, Relation.TransGen s.Part a t) → s.Gives (holds (t :: A)) t σ → holds A t σ
  settle {A : List TypeRef} {t : TypeRef} {r : Reason} :
    holds A t (.unsupported r) → holds [] t (.unsupported r)

/-- The resolution of a type with a support. -/
def resolved (t : TypeRef) (σ : Support) : Resolution :=
  ⟨if σ.isSupported then s.variant? t else none, σ⟩

namespace Judgement

variable {s} (J : Judgement s)

/-- Whether a judgement holds of everything that is remembered. -/
def Remembered (memo : Memo) : Prop :=
  ∀ t r, memo.find? t = some r → J.holds [] t r.support ∧ r = s.resolved t r.support

variable {J} {memo : Memo} {t : TypeRef} {opened : List TypeRef}

theorem Remembered.start : J.Remembered {} := by
  intro t r h
  cases h

theorem Remembered.inspect (h : J.Remembered memo) (n : ClassName) :
    J.Remembered (memo.inspect n) := by
  unfold Memo.inspect
  split
  · exact h
  · exact h

theorem Remembered.record (h : J.Remembered memo) {σ : Support} (hσ : J.holds [] t σ) :
    J.Remembered (memo.record t (s.resolved t σ)) := by
  intro u r hu
  simp only [Memo.find?, Memo.record, List.lookup_cons] at hu
  split at hu
  · rename_i heq
    cases hu
    rw [beq_iff_eq] at heq
    subst heq
    exact ⟨hσ, rfl⟩
  · exact h u r hu

/-! ## Resolutions -/

variable (J) in
/-- What a judgement says of the resolution of a type. -/
def Resolves (opened : List TypeRef) (t : TypeRef) (x : Finding Resolution) : Prop :=
  J.holds (Finding.trusted opened x.assumed?) t x.result.support ∧ J.Remembered x.memo

variable (J) in
/-- What a judgement says of the support of a type that is open itself. -/
def Supports (opened : List TypeRef) (t : TypeRef) (x : Finding Support) : Prop :=
  s.Gives (J.holds (Finding.trusted (t :: opened) x.assumed?)) t x.result ∧ J.Remembered x.memo

variable (J) in
/-- What a judgement says of the support of a class by its properties. -/
def SupportsAll (opened : List TypeRef) (owner : ClassName) (ps : List Property)
    (x : Finding Support) : Prop :=
  s.GivesAll (J.holds (Finding.trusted opened x.assumed?)) owner ps x.result ∧ J.Remembered x.memo

variable {x : Finding Support}

/-- What a step gives is settled: trust in the type itself is withdrawn, and trust in the others
when nothing rests on it. -/
theorem Supports.close (hc : ∀ a ∈ opened, Relation.TransGen s.Part a t)
    (hx : J.Supports opened t x) :
    J.Resolves opened t
      ⟨s.resolved t x.result,
        if (x.assumed?.filter (· < opened.length)).isNone || !x.result.isSupported then
          x.memo.record t (s.resolved t x.result) else x.memo,
        x.assumed?.filter (· < opened.length)⟩ := by
  obtain ⟨hg, hm⟩ := hx
  have hh : J.holds (Finding.trusted opened (x.assumed?.filter (· < opened.length))) t x.result :=
    J.step (fun a ha => hc a (Finding.trusted_subset _ ha))
      (hg.mono fun u σ => J.mono (Finding.trusted_cons _))
  refine ⟨hh, ?_⟩
  split_ifs with hs
  · refine hm.record ?_
    rcases Bool.or_eq_true_iff.mp hs with hn | hu
    · rw [Option.isNone_iff_eq_none.mp hn] at hh
      exact hh
    · cases hr : x.result with
      | unsupported r => rw [hr] at hh; exact J.settle hh
      | fully => rw [hr] at hu; cases hu
      | withUnhandled => rw [hr] at hu; cases hu
  · exact hm

theorem resolves_remembered {r : Resolution} (hm : J.Remembered memo) (h : memo.find? t = some r) :
    J.Resolves opened t (s.resolveIn opened t memo) := by
  rw [resolveIn, h]
  exact ⟨(hm t r h).1, hm⟩

theorem resolves_reopened (hm : J.Remembered memo) (h : memo.find? t = none) (ht : t ∈ opened) :
    J.Resolves opened t (s.resolveIn opened t memo) := by
  rw [resolveIn, h]
  simp only [ht, dif_pos]
  exact ⟨J.trusted (Finding.mem_trusted ht), hm⟩

theorem resolves_new (hm : J.Remembered memo) (h : memo.find? t = none) (ht : t ∉ opened)
    (hc : ∀ a ∈ opened, Relation.TransGen s.Part a t)
    (hs : ∀ v, s.variant? t = some v → J.Supports opened t (s.supportIn opened t memo v ht)) :
    J.Resolves opened t (s.resolveIn opened t memo) := by
  rw [resolveIn, h]
  simp only [ht, dif_neg, not_false_eq_true]
  cases hv : s.variant? t with
  | none =>
    have := Supports.close (x := ⟨.unsupported (unmatched t), memo, none⟩) hc ⟨.unmatched hv, hm⟩
    simpa [resolved] using this
  | some v =>
    have := (hs v hv).close hc
    simpa [resolved, hv, Finding.map] using this

/-- A part of a type is resolved while the type itself is open. -/
theorem supports_container {u : TypeRef} {y : Finding Resolution}
    (hg : ∀ part : TypeRef → Support → Prop, part u y.result.support →
      s.Gives part t (y.result.support.inContainer t))
    (hy : J.Resolves (t :: opened) u y) :
    J.Supports opened t (y.map fun r => r.support.inContainer t) :=
  ⟨hg _ hy.1, hy.2⟩

theorem leads_cons {u : TypeRef} (hc : ∀ a ∈ opened, Relation.TransGen s.Part a t)
    (hu : s.Part t u) : ∀ a ∈ t :: opened, Relation.TransGen s.Part a u := by
  intro a ha
  rcases List.mem_cons.mp ha with rfl | ha
  · exact .single hu
  · exact (hc a ha).tail hu

/-! ### The forms of a type -/

section Forms

variable {u key : TypeRef} {v : Variant} {ht : t ∉ opened}

theorem supports_scalar (hm : J.Remembered memo) (hv : s.variant? t = some v)
    (hscalar : v ∈ [.primitive, .boxed, .string, .date]) :
    J.Supports opened t (s.supportIn opened t memo v ht) := by
  have hx : s.supportIn opened t memo v ht = ⟨.fully, memo, none⟩ := by
    simp only [List.mem_cons, List.not_mem_nil, or_false] at hscalar
    rcases hscalar with rfl | rfl | rfl | rfl <;> rw [supportIn]
  rw [hx]
  exact ⟨.scalar hv hscalar, hm⟩

theorem part_of_element? (hv : s.variant? t = some v) (hc : v ∈ [.optional, .collection])
    (he : t.element? = some u) : s.Part t u := by
  simp only [List.mem_cons, List.not_mem_nil, or_false] at hc
  rcases hc with rfl | rfl
  · exact .element (.inl (shape?_of_variant? hv (by decide))) he
  · exact .element (.inr (shape?_of_variant? hv (by decide))) he

theorem supports_element?_none (hm : J.Remembered memo) (hv : s.variant? t = some v)
    (hc : v ∈ [.optional, .collection]) (he : t.element? = none) :
    J.Supports opened t (s.supportIn opened t memo v ht) := by
  rw [supportIn_of_element?_none hc ht he]
  exact ⟨.noElement hv hc he, hm⟩

theorem supports_element? (hv : s.variant? t = some v) (hc : v ∈ [.optional, .collection])
    (he : t.element? = some u)
    (hy : J.Resolves (t :: opened) u (s.resolveIn (t :: opened) u memo)) :
    J.Supports opened t (s.supportIn opened t memo v ht) := by
  rw [supportIn_of_element? hc ht he]
  exact supports_container (fun _ => .element hv hc he) hy

theorem supports_value? (hv : s.variant? t = some .map) (hk : t.key? = some key)
    (hw : s.isWritableKey key = true) (hu : t.value? = some u)
    (hy : J.Resolves (t :: opened) u (s.resolveIn (t :: opened) u memo)) :
    J.Supports opened t (s.supportIn opened t memo .map ht) := by
  rw [supportIn_of_value? ht hk hu, if_pos hw]
  exact supports_container (fun _ => .value hv hk hw hu) hy

theorem supports_badKey (hm : J.Remembered memo) (hv : s.variant? t = some .map)
    (hk : t.key? = some key) (hw : ¬ s.isWritableKey key = true) (hu : t.value? = some u) :
    J.Supports opened t (s.supportIn opened t memo .map ht) := by
  rw [supportIn_of_value? ht hk hu, if_neg hw]
  exact ⟨.badKey hv hk (Bool.eq_false_iff.mpr hw) hu, hm⟩

theorem supports_noEntry (hm : J.Remembered memo) (hv : s.variant? t = some .map)
    (hn : ∀ key u, t.key? = some key → t.value? = some u → False) :
    J.Supports opened t (s.supportIn opened t memo .map ht) := by
  rw [supportIn_of_value?_none ht hn]
  refine ⟨.noEntry hv ?_, hm⟩
  cases hk : t.key? with
  | none => exact .inl rfl
  | some key =>
    cases hu : t.value? with
    | none => exact .inr rfl
    | some u => exact (hn key u hk hu).elim

end Forms

section Objects

variable {n : ClassName} {c : ClassInfo} {ht : .cls n ∉ opened}

theorem supports_missing (hm : J.Remembered memo) (hv : s.variant? (.cls n) = some .object)
    (hcl : s.index.class? n = none) :
    J.Supports opened (.cls n) (s.supportIn opened (.cls n) memo .object ht) := by
  rw [supportIn_of_missing ht hcl]
  exact ⟨.missing hv hcl, hm⟩

theorem supports_impossible {i : Impossibility} (hm : J.Remembered memo)
    (hv : s.variant? (.cls n) = some .object) (hcl : s.index.class? n = some c)
    (hi : (s.index.inspect c).impossibility? = some i) :
    J.Supports opened (.cls n) (s.supportIn opened (.cls n) memo .object ht) := by
  rw [supportIn_of_impossible ht hcl hi]
  exact ⟨.impossible hv hcl hi, hm.inspect n⟩

theorem supports_possible (hv : s.variant? (.cls n) = some .object)
    (hcl : s.index.class? n = some c) (hi : (s.index.inspect c).impossibility? = none)
    (hx : J.SupportsAll (.cls n :: opened) n (s.properties (s.index.inspect c))
      (s.propertiesIn (.cls n :: opened) n (s.properties (s.index.inspect c)) (memo.inspect n))) :
    J.Supports opened (.cls n) (s.supportIn opened (.cls n) memo .object ht) := by
  rw [supportIn_of_possible ht hcl hi]
  exact ⟨.properties hv hcl hi hx.1, hx.2⟩

end Objects

section Properties

variable {owner : ClassName} {p : Property} {rest : List Property}

theorem supportsAll_stop {r : Reason}
    (hy : J.Resolves opened p.type (s.resolveIn opened p.type memo))
    (hr : s.propertySupport owner p (s.resolveIn opened p.type memo).result.support =
      .unsupported r) :
    J.SupportsAll opened owner (p :: rest) (s.propertiesIn opened owner (p :: rest) memo) := by
  rw [propertiesIn, hr]
  exact ⟨.stop hy.1 hr, hy.2⟩

theorem supportsAll_cons (hy : J.Resolves opened p.type (s.resolveIn opened p.type memo))
    (hr : ∀ r, s.propertySupport owner p (s.resolveIn opened p.type memo).result.support =
      .unsupported r → False)
    (hx : J.SupportsAll opened owner rest
      (s.propertiesIn opened owner rest (s.resolveIn opened p.type memo).memo)) :
    J.SupportsAll opened owner (p :: rest) (s.propertiesIn opened owner (p :: rest) memo) := by
  have hp : (s.propertySupport owner p
      (s.resolveIn opened p.type memo).result.support).isSupported = true := by
    cases hσ : s.propertySupport owner p (s.resolveIn opened p.type memo).result.support with
    | unsupported r => exact (hr r hσ).elim
    | fully | withUnhandled => rfl
  rw [propertiesIn_of_supported hr]
  refine ⟨.cons (J.mono (Finding.trusted_outermost_left _ _) hy.1) hp ?_, hx.2⟩
  exact hx.1.mono fun u τ => J.mono (Finding.trusted_outermost_right _ _)

end Properties

/-- **A resolution keeps to a judgement.** What it finds holds while the types that it rests on are
trusted, and what is remembered afterwards holds without trust. -/
theorem resolves_resolveIn (opened : List TypeRef) (t : TypeRef) (memo : Memo)
    (hm : J.Remembered memo) (hc : ∀ a ∈ opened, Relation.TransGen s.Part a t) :
    J.Resolves opened t (s.resolveIn opened t memo) := by
  refine (Schema.resolveIn.mutual_induct s
    (fun opened t memo => J.Remembered memo → (∀ a ∈ opened, Relation.TransGen s.Part a t) →
      J.Resolves opened t (s.resolveIn opened t memo))
    (fun opened t memo v ht => J.Remembered memo → (∀ a ∈ opened, Relation.TransGen s.Part a t) →
      s.variant? t = some v → J.Supports opened t (s.supportIn opened t memo v ht))
    (fun opened owner ps memo => J.Remembered memo →
      (∀ p ∈ ps, ∀ a ∈ opened, Relation.TransGen s.Part a p.type) →
      J.SupportsAll opened owner ps (s.propertiesIn opened owner ps memo))
    ?_ ?_ ?_ ?_ ?_ ?_ ?_ ?_ ?_ ?_ ?_ ?_ ?_ ?_ ?_ ?_ ?_ ?_ ?_ ?_ ?_ ?_).1 opened t memo hm hc
  -- a type: remembered, open, or new
  · intro opened t memo r h hm _
    exact resolves_remembered hm h
  · intro opened t memo h ht hm _
    exact resolves_reopened hm h ht
  · intro opened t memo h ht ih hm hc
    exact resolves_new hm h ht hc fun v hv => ih v hm hc hv
  -- a form without parts
  iterate 4
    · intro opened t memo ht hm _ hv
      exact supports_scalar hm hv (by decide)
  · intro opened t memo ht _ _ hv
    exact absurd hv variant?_ne_unhandled
  -- an optional, then a collection
  iterate 2
    · intro opened t memo ht he hm _ hv
      exact supports_element?_none hm hv (by decide) he
    · intro opened t memo ht u he ih hm hc hv
      exact supports_element? hv (by decide) he
        (ih hm (leads_cons hc (part_of_element? hv (by decide) he)))
  -- a map
  · intro opened t memo ht key u hu hk hw ih hm hc hv
    exact supports_value? hv hk hw hu (ih hm (leads_cons hc (.value hu)))
  · intro opened t memo ht key u hu hk hw hm _ hv
    exact supports_badKey hm hv hk hw hu
  · intro opened t memo ht hn hm _ hv
    exact supports_noEntry hm hv hn
  -- an object
  · intro opened memo n ht hcl _ hm _ hv
    exact supports_missing hm hv hcl
  · intro opened memo n ht c hcl _ i hi _ hm _ hv
    exact supports_impossible hm hv hcl hi
  · intro opened memo n ht c hcl _ hi _ ih hm hc hv
    exact supports_possible hv hcl hi (ih (hm.inspect n) fun p hp =>
      leads_cons hc (.property ⟨n, c, rfl, shape?_of_class? hv hcl, hcl, hp⟩ trivial))
  · intro opened t memo _ ht hn _ _ hv
    obtain ⟨n, rfl⟩ := exists_cls_of_object hv
    exact (hn n ht rfl HEq.rfl).elim
  -- properties
  · intro opened owner memo hm _
    rw [propertiesIn]
    exact ⟨.nil, hm⟩
  · intro opened owner memo p rest _ r hr ih hm hc
    exact supportsAll_stop (ih hm (hc p List.mem_cons_self)) hr
  · intro opened owner memo p rest _ hr ih ih' hm hc
    have hy := ih hm (hc p List.mem_cons_self)
    exact supportsAll_cons hy hr (ih' hy.2 fun q hq => hc q (List.mem_cons_of_mem _ hq))

end Judgement

end Schema

end JsonBinding
