import JsonBinding.Proofs.Support.Exactness

/-!
# Reasons that are true

A reason for which a type is said to have no support is a path through types without support, down
to one that has no written form by itself. It depends on what was resolved before which path this
is, but never whether it is one.

* `Schema.Justifies`: the reasons that are true of a type, with one rule for each kind of reason.
* `Justifies.blocked`: only a type without support has one.
* `Reason.chain`, `Reason.root`: the reasons inside of a reason, and the innermost one.
* **`Reached.justified`**: the reason found for a type is true of it, after any resolutions, and
  names the innermost type at fault.
* `failingType_unknown`: a type may itself be called like the placeholder for no type.
-/

namespace JsonBinding

namespace Reason

/-- A reason and the reasons inside of it, the innermost one last. -/
def chain : Reason → List Reason
  | .element container reason => .element container reason :: chain reason
  | .property owner key reason => .property owner key reason :: chain reason
  | reason => [reason]

/-- The innermost reason. -/
def root : Reason → Reason
  | .element _ reason | .property _ _ reason => root reason
  | reason => reason

end Reason

namespace Schema

variable (s : Schema)

/-! ## True reasons -/

/-- The reasons that are true of a type: what the type is that it has no written form by itself, or
which part of it has none, and a reason that is true of this part. -/
inductive Justifies : TypeRef → Reason → Prop
  | void : Justifies (.prim .void) .void
  | var (n : String) : Justifies (.var n) (.unresolved (.var n))
  | wildcard : Justifies .wildcard (.unresolved .wildcard)
  /-- A platform class that has no form. -/
  | platform {n : ClassName} : n.isPlatform = true → s.shape? (.cls n) = none →
    Justifies (.cls n) (.platformClass n)
  /-- A class with type arguments that is no optional, no collection and no map. -/
  | generic {raw : ClassName} {args : List TypeRef} : (TypeRef.app raw args).kind = .generic →
    Justifies (.app raw args) (.genericClass (.app raw args))
  | noElement {t : TypeRef} : t.kind = .collection ∨ t.kind = .optional → t.element? = none →
    Justifies t (.genericClass t)
  | noEntry {t : TypeRef} : t.kind = .map → t.key? = none ∨ t.value? = none →
    Justifies t (.genericClass t)
  | missing {n : ClassName} : n.isPlatform = false → s.index.class? n = none →
    Justifies (.cls n) (.missingClass n)
  | impossible {n : ClassName} {c : ClassInfo} {i : Impossibility} :
    s.shape? (.cls n) = some .object → s.index.class? n = some c →
    (s.index.inspect c).impossibility? = some i → Justifies (.cls n) (.notPossible n i)
  | element {t u : TypeRef} {r : Reason} :
    s.shape? t = some .optional ∨ s.shape? t = some .collection → t.element? = some u →
    Justifies u r → Justifies t (.element t r)
  | value {t u : TypeRef} {r : Reason} : t.kind = .map → t.value? = some u → Justifies u r →
    Justifies t (.element t r)
  /-- A key that is no string, no boxed primitive and no known enum. -/
  | mapKey {t key : TypeRef} : t.kind = .map → t.key? = some key →
    (∀ n, key = .cls n → n.text ∉ Platform.strings ∧ n.text ∉ Platform.boxed ∧
      s.isEnum n = false) → Justifies t (.mapKey t key)
  /-- A property, as it is written, that cannot be left to the generic writer. -/
  | property {n : ClassName} {c : ClassInfo} {p : Property} {r : Reason} :
    s.shape? (.cls n) = some .object → s.index.class? n = some c →
    (s.index.inspect c).impossibility? = none → p ∈ s.properties (s.index.inspect c) →
    s.isDeferrable p.type = false → Justifies p.type r → Justifies (.cls n) (.property n p.key r)

variable {s} {t u key : TypeRef} {r : Reason} {memo : Memo}

theorem isWritableKey_eq_false_iff : s.isWritableKey key = false ↔ ∀ n, key = .cls n →
    n.text ∉ Platform.strings ∧ n.text ∉ Platform.boxed ∧ s.isEnum n = false := by
  cases key with
  | cls n => simp [isWritableKey, and_assoc]
  | _ => simp [isWritableKey]

theorem isPlatform_of_variant?_none {n : ClassName} (h : s.variant? (.cls n) = none) :
    n.isPlatform = true := by
  simp only [variant?] at h
  split_ifs at h with _ _ _ _ hp
  exact hp

theorem shape?_of_missing {n : ClassName} (hp : n.isPlatform = false)
    (hc : s.index.class? n = none) : s.shape? (.cls n) = none :=
  shape?_eq_none_of_object (variant?_of_own hp (by simp [isEnum, hc])) hc

/-- **Only a type without support has a true reason.** -/
theorem Justifies.blocked (h : s.Justifies t r) : s.Blocked t := by
  induction h with
  | void => exact ⟨_, .refl, .void⟩
  | var n => exact ⟨_, .refl, .var n⟩
  | wildcard => exact ⟨_, .refl, .wildcard⟩
  | platform hp hs => exact ⟨_, .refl, .platform hp hs⟩
  | generic hk => exact ⟨_, .refl, .generic hk⟩
  | noElement hk he => exact ⟨_, .refl, .noElement hk he⟩
  | noEntry hk hn => exact ⟨_, .refl, .noEntry hk hn⟩
  | missing hp hc => exact ⟨_, .refl, .missing hc (shape?_of_missing hp hc)⟩
  | impossible hs hc hi => exact ⟨_, .refl, .impossible hs hc hi⟩
  | element hs he _ ih => exact ih.step (.element hs he)
  | value _ hu _ ih => exact ih.step (.value hu)
  | mapKey _ hk hw => exact ⟨_, .refl, .badKey hk (isWritableKey_eq_false_iff.mpr hw)⟩
  | property hs hc _ hp hd _ ih => exact ih.step (.property ⟨_, _, rfl, hs, hc, hp⟩ hd)

/-! ## The innermost reason -/

theorem Justifies.noVariant_notMem (h : s.Justifies t r) : .noVariant ∉ r.chain := by
  induction h with
  | element _ _ _ ih | value _ _ _ ih | property _ _ _ _ _ _ ih => simpa [Reason.chain] using ih
  | _ => simp [Reason.chain]

/-- **The innermost reason is true of a type that is reached through firm parts**, and this type is
the one that is named, or its key. -/
theorem Justifies.root (h : s.Justifies t r) :
    ∃ u, Relation.ReflTransGen s.FirmPart t u ∧ s.Justifies u r.root ∧
      (r.failingType = u.text ∨ ∃ key, r.root = .mapKey u key ∧ r.failingType = key.text) := by
  induction h with
  | void => exact ⟨_, .refl, .void, .inl rfl⟩
  | var n => exact ⟨_, .refl, .var n, .inl rfl⟩
  | wildcard => exact ⟨_, .refl, .wildcard, .inl rfl⟩
  | platform hp hs => exact ⟨_, .refl, .platform hp hs, .inl rfl⟩
  | generic hk => exact ⟨_, .refl, .generic hk, .inl rfl⟩
  | noElement hk he => exact ⟨_, .refl, .noElement hk he, .inl rfl⟩
  | noEntry hk hn => exact ⟨_, .refl, .noEntry hk hn, .inl rfl⟩
  | missing hp hc => exact ⟨_, .refl, .missing hp hc, .inl rfl⟩
  | impossible hs hc hi => exact ⟨_, .refl, .impossible hs hc hi, .inl rfl⟩
  | element hs he _ ih =>
    obtain ⟨w, hw, h⟩ := ih
    exact ⟨w, .head (.element hs he) hw, h⟩
  | value _ hu _ ih =>
    obtain ⟨w, hw, h⟩ := ih
    exact ⟨w, .head (.value hu) hw, h⟩
  | mapKey hm hk hw => exact ⟨_, .refl, .mapKey hm hk hw, .inr ⟨_, rfl, rfl⟩⟩
  | property hs hc _ hp hd _ ih =>
    obtain ⟨w, hw, h⟩ := ih
    exact ⟨w, .head (.property ⟨_, _, rfl, hs, hc, hp⟩ hd) hw, h⟩

/-! ## Found reasons -/

theorem justifies_unmatched (h : s.variant? t = none) : s.Justifies t (unmatched t) := by
  cases t with
  | prim p =>
    cases p
    case void => exact .void
    all_goals cases h
  | cls n =>
    have hp := isPlatform_of_variant?_none h
    rw [unmatched, if_pos hp]
    exact .platform hp (shape?_eq_none_of_variant? h)
  | array c => cases h
  | app raw args =>
    refine .generic ?_
    simp only [variant?, TypeRef.kind] at h ⊢
    split_ifs at h ⊢
    simp_all
  | var n => exact .var n
  | wildcard => exact .wildcard

theorem justifies_of_gives
    (h : s.Gives (fun u σ => ∀ r, σ = .unsupported r → s.Justifies u r) t (.unsupported r)) :
    s.Justifies t r := by
  generalize hσ : Support.unsupported r = σ at h
  cases h with
  | unmatched hv =>
    cases hσ
    exact justifies_unmatched hv
  | scalar => cases hσ
  | noElement hv hm he =>
    cases hσ
    have hv' : s.variant? t = some .collection ∨ s.variant? t = some .optional := by
      rw [hv]
      grind
    exact .noElement (kind_of_variant? hv' he) he
  | @element _ u v σ hv hm he hp =>
    cases σ with
    | unsupported r' =>
      cases hσ
      refine .element ?_ he (hp r' rfl)
      rw [shape?_of_variant? hv (by rintro rfl; simp at hm)]
      grind
    | fully | withUnhandled => cases hσ
  | noEntry hv hn =>
    cases hσ
    exact .noEntry (kind_of_variant?_map hv) hn
  | badKey hv hk hw _ =>
    cases hσ
    exact .mapKey (kind_of_variant?_map hv) hk (isWritableKey_eq_false_iff.mp hw)
  | @value _ key u σ hv hk _ hu hp =>
    cases σ with
    | unsupported r' =>
      cases hσ
      exact .value (kind_of_variant?_map hv) hu (hp r' rfl)
    | fully | withUnhandled => cases hσ
  | missing hv hc =>
    cases hσ
    exact .missing (isPlatform_of_object hv) hc
  | impossible hv hc hi =>
    cases hσ
    exact .impossible (shape?_of_class? hv hc) hc hi
  | properties hv hc hi hg =>
    subst hσ
    obtain ⟨before, p, after, r', hps, -, hp, hd, rfl⟩ := exists_stop hg
    refine .property (shape?_of_class? hv hc) hc hi ?_ hd (hp r' rfl)
    rw [hps]
    exact List.mem_append_right _ List.mem_cons_self

variable (s) in
/-- The reasons that are found are true, whatever is trusted: trust is in support alone. -/
def justification : Judgement s where
  holds _ t σ := ∀ r, σ = .unsupported r → s.Justifies t r
  trusted _ := fun _ h => nomatch h
  mono _ h := h
  settle h := h
  step := by
    rintro A t σ - hg r rfl
    exact justifies_of_gives hg

/-- **The reason that is found for a type is true of it**, whatever was resolved before. It names
the innermost type at fault, or the key of that type, and nowhere says that no form matched. -/
theorem Reached.justified (hr : s.Reached memo)
    (h : (s.resolve t memo).1.support = .unsupported r) :
    s.Justifies t r ∧ .noVariant ∉ r.chain ∧
      ∃ u, Relation.ReflTransGen s.FirmPart t u ∧ s.Justifies u r.root ∧
        (r.failingType = u.text ∨ ∃ key, r.root = .mapKey u key ∧ r.failingType = key.text) := by
  obtain ⟨hj, -⟩ := (hr.resolve t).remembered s.justification t _ (find?_resolve t memo)
  have hjustifies := hj r h
  exact ⟨hjustifies, hjustifies.noVariant_notMem, hjustifies.root⟩

/-- What is remembered of the second class of a circle, once the first one is resolved, is true of
it. -/
theorem Circle.justified_second :
    circle.Reached (circle.resolve (.cls first.name) {}).2 ∧
    (circle.resolve (.cls second.name) (circle.resolve (.cls first.name) {}).2).1.support =
      .unsupported (through "com.acme.B" "worker" "java.lang.Thread"
        (.platformClass ⟨"java.lang.Thread"⟩)) ∧
    circle.Justifies (.cls second.name) (through "com.acme.B" "worker" "java.lang.Thread"
      (.platformClass ⟨"java.lang.Thread"⟩)) ∧
    ∃ u, Relation.ReflTransGen circle.FirmPart (.cls second.name) u ∧
      circle.Justifies u (.platformClass ⟨"java.lang.Thread"⟩) := by
  have hr : circle.Reached (circle.resolve (.cls first.name) {}).2 := .resolve _ .start
  have hfound := (holder_first.resolve holder_second (by decide) (by decide) (by decide)).2
  have hsupport : (circle.resolve (.cls second.name)
      (circle.resolve (.cls first.name) {}).2).1.support = .unsupported (through "com.acme.B"
        "worker" "java.lang.Thread" (.platformClass ⟨"java.lang.Thread"⟩)) :=
    congrArg (·.1.support) (resolve_of_find? hfound)
  obtain ⟨hj, -, u, hu, hroot, -⟩ := Reached.justified hr hsupport
  exact ⟨hr, hsupport, hj, u, hu, hroot⟩

/-- **The innermost type at fault may be called like the placeholder for no type**: a class of this
name that is missing from an empty index. -/
theorem failingType_unknown :
    Reached {} {} ∧
    (resolve {} (.cls ⟨"unknown"⟩) {}).1.support = .unsupported (.missingClass ⟨"unknown"⟩) ∧
    Reason.failingType (.missingClass ⟨"unknown"⟩) = "unknown" := by
  have hv : variant? {} (.cls ⟨"unknown"⟩) = some .object :=
    variant?_of_own (by simp [ClassName.isPlatform]) rfl
  have hs : supportIn {} [] (.cls ⟨"unknown"⟩) {} .object List.not_mem_nil =
      ⟨.unsupported (.missingClass ⟨"unknown"⟩), {}, none⟩ := supportIn_of_missing _ rfl
  exact ⟨.start, congrArg (·.result.support) (resolveIn_of_refused rfl _ hv hs), rfl⟩

end Schema

end JsonBinding
