import JsonBinding.Support.Variant

/-!
# Resolution of support

The support of a type rests on that of its elements and properties (`Schema.resolve`). A type that
is met again while it is being resolved is taken for supported. What rests on that assumption about
a type that is still open is remembered only when it is not supported; everything else is remembered
(`Memo`), so that what is remembered holds whatever is resolved later.
-/

namespace JsonBinding

/-- The form of a type and how well it is supported. -/
structure Resolution where
  variant? : Option Variant
  support : Support
  deriving DecidableEq

/-- What is remembered: the classes that were inspected, and the types that were resolved. -/
structure Memo where
  inspected : List ClassName := []
  resolutions : List (TypeRef × Resolution) := []
  deriving DecidableEq

namespace Memo

/-- What is remembered of a type. -/
def find? (m : Memo) (t : TypeRef) : Option Resolution := m.resolutions.lookup t

/-- The memo with a type. -/
def record (m : Memo) (t : TypeRef) (r : Resolution) : Memo :=
  { m with resolutions := (t, r) :: m.resolutions }

/-- The memo with an inspected class. -/
def inspect (m : Memo) (name : ClassName) : Memo :=
  if name ∈ m.inspected then m else { m with inspected := name :: m.inspected }

end Memo

/-- What a step of a resolution finds, with the memo after it and the outermost of the open types
that it assumed to be supported, counted from outside. -/
structure Finding (α : Type) where
  result : α
  memo : Memo
  assumed? : Option Nat := none

namespace Finding

variable {α β : Type}

/-- What is found with another result. -/
def map (f : α → β) (x : Finding α) : Finding β := ⟨f x.result, x.memo, x.assumed?⟩

/-- The smaller of two places that may be missing. -/
def outermost : Option Nat → Option Nat → Option Nat
  | some a, some b => some (min a b)
  | some a, none => some a
  | none, b => b

end Finding

/-- The classes among some types. -/
def TypeRef.classesIn (ts : List TypeRef) : List ClassName :=
  ts.filterMap fun | .cls n => some n | _ => none

/-- The weight of the types of some properties. -/
def Property.weightAll (ps : List Property) : Nat := ps.foldr (fun p n => p.type.weight + 1 + n) 0

/-- The support of a container by that of its element. -/
def Support.inContainer (container : TypeRef) : Support → Support
  | .unsupported reason => .unsupported (.element container reason)
  | .withUnhandled => .withUnhandled
  | .fully => .fully

namespace Schema

variable (s : Schema)

/-- The support of a property by that of its type. -/
def propertySupport (owner : ClassName) (p : Property) : Support → Support
  | .unsupported reason =>
    if s.isDeferrable p.type then .withUnhandled else .unsupported (.property owner p.key reason)
  | .withUnhandled => .withUnhandled
  | .fully => .fully

/-- How many classes of the index are not open. -/
def unopened (opened : List TypeRef) : Nat := s.index.unmet (TypeRef.classesIn opened)

theorem unopened_cons_le (opened : List TypeRef) (t : TypeRef) :
    s.unopened (t :: opened) ≤ s.unopened opened := by
  unfold unopened Index.unmet
  refine List.countP_mono_left fun c _ h => ?_
  simp only [decide_eq_true_eq] at h ⊢
  refine fun hc => h ?_
  simp only [TypeRef.classesIn, List.mem_filterMap] at hc ⊢
  obtain ⟨u, hu, h'⟩ := hc
  exact ⟨u, List.mem_cons_of_mem _ hu, h'⟩

theorem unopened_cons_lt {opened : List TypeRef} {name : ClassName} {c : ClassInfo}
    (h : s.index.class? name = some c) (hn : TypeRef.cls name ∉ opened) :
    s.unopened (.cls name :: opened) < s.unopened opened := by
  refine Index.unmet_cons_lt h fun hm => hn ?_
  obtain ⟨u, hu, h'⟩ := List.mem_filterMap.mp hm
  cases u <;> simp at h'
  exact h' ▸ hu

/-- A step into a part of a type goes down. -/
theorem part_lt (opened : List TypeRef) (t : TypeRef) {u : TypeRef} (h : u.weight < t.weight)
    (m n : Nat) : Prod.Lex (· < ·) (Prod.Lex (· < ·) (· < ·))
      (s.unopened (t :: opened), u.weight, m) (s.unopened opened, t.weight, n) := by
  rcases Nat.lt_or_eq_of_le (s.unopened_cons_le opened t) with hlt | heq
  · exact .left _ _ hlt
  · rw [heq]; exact .right _ (.left _ _ h)

mutual

/-- The resolution of a type while the types `opened`, the innermost first, are open. -/
def resolveIn (opened : List TypeRef) (t : TypeRef) (memo : Memo) : Finding Resolution :=
  match memo.find? t with
  | some r => ⟨r, memo, none⟩
  | none =>
    if _hn : t ∈ opened then
      ⟨⟨some .object, .fully⟩, memo, some (opened.length - 1 - opened.idxOf t)⟩
    else
      let found : Finding Resolution :=
        match s.variant? t with
        | none => ⟨⟨none, .unsupported (unmatched t)⟩, memo, none⟩
        | some v => (supportIn opened t memo v _hn).map fun support =>
          ⟨if support.isSupported then some v else none, support⟩
      let assumed? := found.assumed?.filter (· < opened.length)
      let settled := assumed?.isNone || !found.result.support.isSupported
      ⟨found.result, if settled then found.memo.record t found.result else found.memo, assumed?⟩
termination_by (s.unopened opened, t.weight, 1)

/-- The support of a type in a form that its shape calls for. -/
def supportIn (opened : List TypeRef) (t : TypeRef) (memo : Memo) (v : Variant)
    (_hn : t ∉ opened) : Finding Support :=
  match v with
  | .primitive | .boxed | .string | .date | .unhandled => ⟨.fully, memo, none⟩
  | .optional | .collection =>
    match _h : t.element? with
    | none => ⟨.unsupported (.genericClass t), memo, none⟩
    | some e => (resolveIn (t :: opened) e memo).map fun r => r.support.inContainer t
  | .map =>
    match t.key?, _h : t.value? with
    | some key, some value =>
      if s.isWritableKey key then
        (resolveIn (t :: opened) value memo).map fun r => r.support.inContainer t
      else ⟨.unsupported (.mapKey t key), memo, none⟩
    | _, _ => ⟨.unsupported (.genericClass t), memo, none⟩
  | .object =>
    match _ht : t with
    | .cls name =>
      match _hc : s.index.class? name with
      | none => ⟨.unsupported (.missingClass name), memo, none⟩
      | some c =>
        let i := s.index.inspect c
        match i.impossibility? with
        | some impossibility =>
          ⟨.unsupported (.notPossible name impossibility), memo.inspect name, none⟩
        | none => propertiesIn (.cls name :: opened) name (s.properties i) (memo.inspect name)
    | _ => ⟨.unsupported .noVariant, memo, none⟩
termination_by (s.unopened opened, t.weight, 0)
decreasing_by
  · exact s.part_lt opened t (TypeRef.weight_element_lt _h) _ _
  · exact s.part_lt opened t (TypeRef.weight_value_lt _h) _ _
  · exact .left _ _ (s.unopened_cons_lt _hc _hn)

/-- The support of a class by its properties, up to the first one without support. -/
def propertiesIn (opened : List TypeRef) (owner : ClassName) (ps : List Property) (memo : Memo) :
    Finding Support :=
  match ps with
  | [] => ⟨.fully, memo, none⟩
  | p :: rest =>
    let found := resolveIn opened p.type memo
    match s.propertySupport owner p found.result.support with
    | .unsupported reason => ⟨.unsupported reason, found.memo, found.assumed?⟩
    | support =>
      let others := propertiesIn opened owner rest found.memo
      ⟨support.weaker others.result, others.memo,
        Finding.outermost found.assumed? others.assumed?⟩
termination_by (s.unopened opened, Property.weightAll ps, 2)
decreasing_by
  · exact .right _ (.left _ _ (by simp only [Property.weightAll, List.foldr_cons]; omega))
  · exact .right _ (.left _ _ (by simp only [Property.weightAll, List.foldr_cons]; omega))

end

end Schema

end JsonBinding
