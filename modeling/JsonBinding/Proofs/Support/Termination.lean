import JsonBinding.Proofs.Support.Walk
import Mathlib.Data.List.Dedup
import Mathlib.Data.List.Perm.Subperm

/-!
# How deep a resolution goes

A resolution opens only types that occur in the type it is asked for or in the type of a property,
and none that is open. Carried out with a bound on its depth, and without any measure, it ends with
the result it has without the bound as soon as the bound exceeds the number of these types.

* `TypeRef.inside`: the types that occur in a type.
* `Schema.surroundings`: the types that a resolution can open; `Schema.Encloses`: such types with
  all that they lead to.
* `Schema.resolveWithin`: a resolution of a bounded depth, with the types open at each moment.
* `Schema.Watched.Ends`: it ends within its bound.
* **`Schema.ends_resolveWithin`**: a resolution whose depth is the number of these types.
-/

namespace JsonBinding

/-! ## Types in a type -/

namespace TypeRef

mutual

/-- The types that occur in a type, itself included. The primitive that an optional for primitives
holds occurs in it. -/
def inside : TypeRef → List TypeRef
  | .cls n => .cls n :: (element? (.cls n)).toList
  | .array c => .array c :: inside c
  | .app raw args => .app raw args :: insideAll args
  | .prim p => [.prim p]
  | .var n => [.var n]
  | .wildcard => [.wildcard]

/-- The types that occur in some types. -/
def insideAll : List TypeRef → List TypeRef
  | [] => []
  | a :: rest => inside a ++ insideAll rest

end

variable {t u : TypeRef}

theorem self_mem_inside (t : TypeRef) : t ∈ t.inside := by
  cases t <;> simp [inside]

theorem mem_insideAll {ts : List TypeRef} (h : t ∈ ts) : t ∈ insideAll ts := by
  induction ts with
  | nil => cases h
  | cons a rest ih =>
    rw [insideAll, List.mem_append]
    rcases List.mem_cons.mp h with rfl | h
    · exact .inl (self_mem_inside t)
    · exact .inr (ih h)

theorem element?_mem_inside (h : t.element? = some u) : u ∈ t.inside := by
  cases t with
  | cls n => simp [inside, h]
  | array c =>
    cases h
    exact List.mem_cons_of_mem _ (self_mem_inside _)
  | app raw args =>
    simp only [element?] at h
    split at h
    · exact List.mem_cons_of_mem _ (mem_insideAll (List.mem_of_mem_head? h))
    · cases h
  | prim _ | var _ | wildcard => cases h

theorem value?_mem_inside (h : t.value? = some u) : u ∈ t.inside := by
  cases t with
  | app raw args =>
    simp only [value?] at h
    split at h
    · exact List.mem_cons_of_mem _ (mem_insideAll (List.mem_of_getElem? h))
    · cases h
  | _ => cases h

/-- What an optional for primitives holds is a primitive. -/
theorem exists_prim_of_element? {n : ClassName} (h : (cls n).element? = some u) :
    ∃ p, u = .prim p := by
  simp only [element?] at h
  split at h
  · cases h
    exact ⟨_, rfl⟩
  · cases h

mutual

/-- What occurs in a type that occurs in another one occurs in that. -/
theorem inside_subset : ∀ (t : TypeRef) {u : TypeRef}, u ∈ t.inside → u.inside ⊆ t.inside
  | .cls n, u, h => by
    rw [inside, List.mem_cons, Option.mem_toList] at h
    rcases h with rfl | h
    · exact List.Subset.refl _
    · obtain ⟨p, rfl⟩ := exists_prim_of_element? h
      rw [show inside (.prim p) = [.prim p] from rfl, List.cons_subset]
      exact ⟨element?_mem_inside h, List.nil_subset _⟩
  | .array c, u, h => by
    rw [inside, List.mem_cons] at h
    rcases h with rfl | h
    · exact List.Subset.refl _
    · exact List.subset_cons_of_subset _ (inside_subset c h)
  | .app raw args, u, h => by
    rw [inside, List.mem_cons] at h
    rcases h with rfl | h
    · exact List.Subset.refl _
    · exact List.subset_cons_of_subset _ (insideAll_subset args h)
  | .prim p, u, h | .var n, u, h | .wildcard, u, h => by
    cases List.mem_singleton.mp h
    exact List.Subset.refl _

theorem insideAll_subset : ∀ (ts : List TypeRef) {u : TypeRef}, u ∈ insideAll ts →
    u.inside ⊆ insideAll ts
  | a :: rest, u, h => by
    rw [insideAll, List.mem_append] at h
    rcases h with h | h
    · exact List.subset_append_of_subset_left _ (inside_subset a h)
    · exact List.subset_append_of_subset_right _ (insideAll_subset rest h)

end

end TypeRef

namespace Schema

variable (s : Schema)

/-- Whether some types lead to no others: they have the elements and values of their types, and the
types of all properties of the index. -/
structure Encloses (types : List TypeRef) : Prop where
  element {t u : TypeRef} : t ∈ types → t.element? = some u → u ∈ types
  value {t u : TypeRef} : t ∈ types → t.value? = some u → u ∈ types
  property {c : ClassInfo} {p : Property} : c ∈ s.index.classes →
    p ∈ s.properties (s.index.inspect c) → p.type ∈ types

/-- The types that occur in a type, and those that occur in the types of the properties of the
index. -/
def surroundings (t : TypeRef) : List TypeRef :=
  t.inside ++ s.index.classes.flatMap fun c =>
    (s.properties (s.index.inspect c)).flatMap (·.type.inside)

theorem self_mem_surroundings (t : TypeRef) : t ∈ s.surroundings t :=
  List.mem_append_left _ (TypeRef.self_mem_inside t)

theorem encloses_surroundings (t : TypeRef) : s.Encloses (s.surroundings t) := by
  have hinside {u w : TypeRef} (hu : u ∈ s.surroundings t) (hw : w ∈ u.inside) :
      w ∈ s.surroundings t := by
    rcases List.mem_append.mp hu with hu | hu
    · exact List.mem_append_left _ (TypeRef.inside_subset t hu hw)
    · obtain ⟨c, hc, hu⟩ := List.mem_flatMap.mp hu
      obtain ⟨p, hp, hu⟩ := List.mem_flatMap.mp hu
      exact List.mem_append_right _ (List.mem_flatMap.mpr
        ⟨c, hc, List.mem_flatMap.mpr ⟨p, hp, TypeRef.inside_subset p.type hu hw⟩⟩)
  refine ⟨fun hu h => hinside hu (TypeRef.element?_mem_inside h),
    fun hu h => hinside hu (TypeRef.value?_mem_inside h), fun hc hp => ?_⟩
  exact List.mem_append_right _ (List.mem_flatMap.mpr
    ⟨_, hc, List.mem_flatMap.mpr ⟨_, hp, TypeRef.self_mem_inside _⟩⟩)

/-! ## Resolutions of a bounded depth -/

/-- A step of a resolution that may run out of depth. It lists the types that are open whenever it
opens one. -/
abbrev Watched (α : Type) : Type := StateT (List (List TypeRef)) Option α

/-- What a resolution finds of a type that is opened, by the support that its form calls for. -/
def closing (opened : List TypeRef) (t : TypeRef) (x : Finding Support) : Finding Resolution :=
  let assumed? := x.assumed?.filter (· < opened.length)
  ⟨s.resolved t x.result,
    if assumed?.isNone || !x.result.isSupported then x.memo.record t (s.resolved t x.result)
    else x.memo,
    assumed?⟩

/-- The support of a type that is opened, in the form that its shape calls for. -/
def supportOf (opened : List TypeRef) (t : TypeRef) (memo : Memo) (hn : t ∉ opened) :
    Finding Support :=
  match s.variant? t with
  | none => ⟨.unsupported (unmatched t), memo, none⟩
  | some v => s.supportIn opened t memo v hn

section Steps

variable (part : TypeRef → Memo → Watched (Finding Resolution))

/-- The support of a class by its properties, whose types `part` resolves. -/
def propertiesBy (owner : ClassName) : List Property → Memo → Watched (Finding Support)
  | [], memo => pure ⟨.fully, memo, none⟩
  | p :: rest, memo => do
    let found ← part p.type memo
    match s.propertySupport owner p found.result.support with
    | .unsupported reason => pure ⟨.unsupported reason, found.memo, found.assumed?⟩
    | support =>
      let others ← propertiesBy owner rest found.memo
      pure ⟨support.weaker others.result, others.memo,
        Finding.outermost found.assumed? others.assumed?⟩

/-- The support of a type by its parts, which `part` resolves. -/
def supportBy (t : TypeRef) (memo : Memo) : Watched (Finding Support) :=
  match s.variant? t with
  | none => pure ⟨.unsupported (unmatched t), memo, none⟩
  | some .primitive | some .boxed | some .string | some .date | some .unhandled =>
    pure ⟨.fully, memo, none⟩
  | some .optional | some .collection =>
    match t.element? with
    | none => pure ⟨.unsupported (.genericClass t), memo, none⟩
    | some e => do
      let x ← part e memo
      pure (x.map fun r => r.support.inContainer t)
  | some .map =>
    match t.key?, t.value? with
    | some key, some value =>
      if s.isWritableKey key then do
        let x ← part value memo
        pure (x.map fun r => r.support.inContainer t)
      else pure ⟨.unsupported (.mapKey t key), memo, none⟩
    | _, _ => pure ⟨.unsupported (.genericClass t), memo, none⟩
  | some .object =>
    match t with
    | .cls name =>
      match s.index.class? name with
      | none => pure ⟨.unsupported (.missingClass name), memo, none⟩
      | some c =>
        match (s.index.inspect c).impossibility? with
        | some i => pure ⟨.unsupported (.notPossible name i), memo.inspect name, none⟩
        | none => s.propertiesBy part name (s.properties (s.index.inspect c)) (memo.inspect name)
    | _ => pure ⟨.unsupported .noVariant, memo, none⟩

end Steps

/-- The resolution of a type, when no more than `depth` resolutions go on in one another. -/
def resolveWithin : (depth : Nat) → List TypeRef → TypeRef → Memo → Watched (Finding Resolution)
  | 0, _, _, _ => failure
  | depth + 1, opened, t, memo =>
    match memo.find? t with
    | some r => pure ⟨r, memo, none⟩
    | none =>
      if t ∈ opened then
        pure ⟨⟨some .object, .fully⟩, memo, some (opened.length - 1 - opened.idxOf t)⟩
      else do
        modify (· ++ [t :: opened])
        let x ← s.supportBy (resolveWithin depth (t :: opened)) t memo
        pure (s.closing opened t x)

namespace Watched

variable {α β : Type} {ok : List TypeRef → Prop} {x : Watched α} {f : α → Watched β} {a : α} {b : β}

/-- A step ends with a result, and whenever it opens a type those open are as they should be. -/
def Ends (ok : List TypeRef → Prop) (x : Watched α) (a : α) : Prop :=
  ∃ met, (∀ opened ∈ met, ok opened) ∧ ∀ log, x.run log = some (a, log ++ met)

theorem ends_pure (a : α) : Ends ok (pure a) a :=
  ⟨[], by simp, fun log => by simp⟩

theorem Ends.bind (hx : Ends ok x a) (hf : Ends ok (f a) b) : Ends ok (x >>= f) b := by
  obtain ⟨met, hmet, hx⟩ := hx
  obtain ⟨met', hmet', hf⟩ := hf
  refine ⟨met ++ met', fun opened h => (List.mem_append.mp h).elim (hmet _) (hmet' _),
    fun log => ?_⟩
  rw [StateT.run_bind, hx]
  exact (hf (log ++ met)).trans (by rw [List.append_assoc])

theorem ends_open {opened : List TypeRef} (h : ok opened) :
    Ends ok (modify (· ++ [opened]) : Watched PUnit) ⟨⟩ :=
  ⟨[opened], by simpa using h, fun log => rfl⟩

end Watched

open Watched

variable {s}

section

variable {ok : List TypeRef → Prop} {part : TypeRef → Memo → Watched (Finding Resolution)}
  {opened types : List TypeRef} {t : TypeRef}

theorem ends_propertiesBy {owner : ClassName} {ps : List Property}
    (hpart : ∀ p ∈ ps, ∀ memo, Ends ok (part p.type memo) (s.resolveIn opened p.type memo))
    (memo : Memo) :
    Ends ok (s.propertiesBy part owner ps memo) (s.propertiesIn opened owner ps memo) := by
  induction ps generalizing memo with
  | nil =>
    rw [propertiesBy, propertiesIn]
    exact ends_pure _
  | cons p rest ih =>
    rw [propertiesBy]
    refine (hpart p List.mem_cons_self memo).bind ?_
    have hrest := ih (fun q hq => hpart q (List.mem_cons_of_mem _ hq))
      (s.resolveIn opened p.type memo).memo
    cases hs : s.propertySupport owner p (s.resolveIn opened p.type memo).result.support with
    | unsupported r =>
      rw [propertiesIn, hs]
      exact ends_pure _
    | fully | withUnhandled =>
      rw [propertiesIn_of_supported (by simp [hs])]
      dsimp only
      rw [hs]
      exact hrest.bind (ends_pure _)

theorem ends_supportBy (hC : s.Encloses types) (ht : t ∈ types) (hn : t ∉ opened)
    (hpart : ∀ u ∈ types, ∀ memo, Ends ok (part u memo) (s.resolveIn (t :: opened) u memo))
    (memo : Memo) : Ends ok (s.supportBy part t memo) (s.supportOf opened t memo hn) := by
  unfold supportBy supportOf
  cases hv : s.variant? t with
  | none => exact ends_pure _
  | some v =>
    dsimp only
    cases v with
    | primitive | boxed | string | date | unhandled =>
      rw [supportIn]
      exact ends_pure _
    | optional | collection =>
      dsimp only
      cases he : t.element? with
      | none =>
        rw [supportIn_of_element?_none (by decide) hn he]
        exact ends_pure _
      | some u =>
        rw [supportIn_of_element? (by decide) hn he]
        exact (hpart u (hC.element ht he) memo).bind (ends_pure _)
    | map =>
      dsimp only
      split
      · rename_i key u hk hu
        rw [supportIn_of_value? hn hk hu]
        split_ifs
        · exact (hpart u (hC.value ht hu) memo).bind (ends_pure _)
        · exact ends_pure _
      · rename_i hnone
        rw [supportIn_of_value?_none hn fun key u hk hu => hnone key u hk hu]
        exact ends_pure _
    | object =>
      obtain ⟨n, rfl⟩ := exists_cls_of_object hv
      dsimp only
      cases hc : s.index.class? n with
      | none =>
        rw [supportIn_of_missing hn hc]
        exact ends_pure _
      | some c =>
        dsimp only
        cases hi : (s.index.inspect c).impossibility? with
        | some i =>
          rw [supportIn_of_impossible hn hc hi]
          exact ends_pure _
        | none =>
          rw [supportIn_of_possible hn hc hi]
          exact ends_propertiesBy (fun p hp memo =>
            hpart p.type (hC.property (Index.mem_of_class? hc) hp) memo) _

end

theorem resolveIn_of_new {opened : List TypeRef} {t : TypeRef} {memo : Memo}
    (h : memo.find? t = none) (hn : t ∉ opened) :
    s.resolveIn opened t memo = s.closing opened t (s.supportOf opened t memo hn) := by
  rw [resolveIn, h, supportOf, closing, resolved]
  simp only [hn, dif_neg, not_false_eq_true]
  cases hv : s.variant? t with
  | none => simp
  | some v => simp [Finding.map]

/-- Distinct things are no more than those among which they are. -/
theorem length_le_of_nodup {α : Type} [DecidableEq α] {xs ys : List α} (hd : xs.Nodup)
    (hs : xs ⊆ ys) : xs.length ≤ ys.dedup.length :=
  (List.Nodup.subperm hd fun _ h => List.mem_dedup.mpr (hs h)).length_le

/-- **A resolution of a bounded depth ends as the resolution does** when the bound exceeds the
number of types that are not open. Whenever it opens a type those open are distinct types of the list. -/
theorem ends_resolveWithin {types : List TypeRef} (hC : s.Encloses types) {depth : Nat}
    {opened : List TypeRef} {t : TypeRef} (hd : opened.Nodup) (hs : opened ⊆ types)
    (ht : t ∈ types) (hdepth : types.dedup.length < depth + opened.length) (memo : Memo) :
    Ends (fun opened => opened.Nodup ∧ opened ⊆ types) (s.resolveWithin depth opened t memo)
      (s.resolveIn opened t memo) := by
  -- the bound goes down by one where one more of the types is open
  induction depth generalizing opened t memo with
  | zero =>
    have := length_le_of_nodup hd hs
    omega
  | succ depth ih =>
    rw [resolveWithin]
    cases hm : memo.find? t with
    | some r =>
      rw [resolveIn, hm]
      exact ends_pure _
    | none =>
      dsimp only
      split_ifs with hn
      · rw [resolveIn, hm]
        simp only [hn, dif_pos]
        exact ends_pure _
      · rw [resolveIn_of_new hm hn]
        have hd' : (t :: opened).Nodup := List.nodup_cons.mpr ⟨hn, hd⟩
        have hs' : t :: opened ⊆ types := List.cons_subset.mpr ⟨ht, hs⟩
        have hparts : ∀ u ∈ types, ∀ memo, Ends _ (s.resolveWithin depth (t :: opened) u memo)
            (s.resolveIn (t :: opened) u memo) := fun u hu memo =>
          ih hd' hs' hu (by rw [List.length_cons]; omega) memo
        exact (ends_open ⟨hd', hs'⟩).bind ((ends_supportBy hC ht hn hparts memo).bind (ends_pure _))

/-- **Every resolution ends.** -/
theorem exists_resolveWithin (t : TypeRef) (memo : Memo) :
    ∃ met, (∀ opened ∈ met, opened.Nodup ∧ opened ⊆ s.surroundings t) ∧
      (s.resolveWithin ((s.surroundings t).dedup.length + 1) [] t memo).run [] =
        some (s.resolveIn [] t memo, met) := by
  obtain ⟨met, hmet, h⟩ := ends_resolveWithin (s.encloses_surroundings t) List.nodup_nil
    (List.nil_subset _) (s.self_mem_surroundings t) (Nat.lt_succ_self _) memo
  exact ⟨met, hmet, h []⟩

end Schema

end JsonBinding
