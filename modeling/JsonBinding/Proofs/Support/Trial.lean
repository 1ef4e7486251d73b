import JsonBinding.Proofs.Support.Termination

/-!
# Trying one form after another

The form of a type is found by trial: each form in turn is asked about the type, a form that does not
concern it is passed over, and the first one that supports it is taken. When none does, the first
rejection is the reason. Which form this comes to is read off the shape of the type.

* `Schema.partSupports`: the supports of the properties of a class, one after the other.
  **`result_propertiesIn`**: the support of the class is their aggregate.
* `Schema.concerns`, `Schema.askIn`: the types that a form concerns, and its answer about a type.
* `Schema.trialIn`: the trial of some forms; `trialIn_of_find?` says what their order is good for.
* **`trialIn_tried`**: the trial of all forms in order finds what the form that the shape of the type
  calls for answers, and **`resolveIn_eq_trialIn`**: a resolution is a trial whose result is settled.
-/

namespace JsonBinding

/-! ## Aggregates -/

namespace Support

variable {σ : Support} {r : Reason} {rest parts : List Support}

theorem aggregate_cons (h : σ.isSupported = true) :
    aggregate (σ :: rest) = σ.weaker (aggregate rest) := by
  rw [aggregate, demanded, if_pos h]
  rfl

theorem aggregate_cons_unsupported : aggregate (.unsupported r :: rest) = .unsupported r := rfl

/-- A whole without support has the reason of one of its parts. -/
theorem mem_of_aggregate (h : aggregate parts = .unsupported r) : .unsupported r ∈ parts := by
  induction parts with
  | nil => cases h
  | cons σ rest ih =>
    by_cases hs : σ.isSupported = true
    · rw [aggregate_cons hs, weaker] at h
      split at h
      · exact List.mem_cons_of_mem _ (ih h)
      · exact List.mem_cons.mpr (.inl h.symm)
    · cases σ with
      | unsupported r' =>
        rw [aggregate_cons_unsupported] at h
        exact List.mem_cons.mpr (.inl h.symm)
      | fully | withUnhandled => exact (hs rfl).elim

end Support

/-! ## Findings one after the other -/

namespace Finding

variable {α : Type}

/-- What is found after an assumption has been made. -/
def after (assumed? : Option Nat) (x : Finding α) : Finding α :=
  { x with assumed? := outermost assumed? x.assumed? }

theorem after_none (x : Finding α) : x.after none = x := rfl

theorem outermost_none (a? : Option Nat) : outermost a? none = a? := by
  cases a? <;> rfl

end Finding

namespace Schema

variable (s : Schema)

/-- The supports of the properties of a class, each resolved with what is remembered after the ones
before it. -/
def partSupports (opened : List TypeRef) (owner : ClassName) : List Property → Memo → List Support
  | [], _ => []
  | p :: rest, memo =>
    let found := s.resolveIn opened p.type memo
    s.propertySupport owner p found.result.support :: partSupports opened owner rest found.memo

/-! ## Trials -/

/-- Whether a form concerns a type: it admits the type, or it answers that `void` has no values or
that a class is missing. What is left to the generic writer is not tried for any type. -/
def concerns : Variant → TypeRef → Bool
  | .primitive, .prim _ => true
  | .object, .cls n => !n.isPlatform
  | v, t => s.admits v t

/-- What a form answers about a type. -/
def askIn (opened : List TypeRef) (t : TypeRef) (hn : t ∉ opened) (v : Variant) (memo : Memo) :
    Finding Support :=
  if !s.concerns v t then ⟨.unsupported .noVariant, memo, none⟩
  else if t = .prim .void then ⟨.unsupported .void, memo, none⟩
  else s.supportIn opened t memo v hn

/-- What is found when some forms are asked about a type in turn, after a first rejection. -/
def trialIn (opened : List TypeRef) (t : TypeRef) (hn : t ∉ opened) :
    List Variant → Option Reason → Memo → Finding Resolution
  | [], rejected?, memo => ⟨⟨none, .unsupported (rejected?.getD (unmatched t))⟩, memo, none⟩
  | v :: rest, rejected?, memo =>
    let x := s.askIn opened t hn v memo
    match x.result with
    | .unsupported .noVariant => (trialIn opened t hn rest rejected? x.memo).after x.assumed?
    | .unsupported r => (trialIn opened t hn rest (rejected?.or (some r)) x.memo).after x.assumed?
    | support => ⟨⟨some v, support⟩, x.memo, x.assumed?⟩

variable {s} {opened : List TypeRef} {t : TypeRef} {memo : Memo} {v w : Variant}

/-! ## Support by properties -/

/-- **The support of a class is the aggregate of the supports of its properties.** -/
theorem result_propertiesIn (owner : ClassName) (ps : List Property) (memo : Memo) :
    (s.propertiesIn opened owner ps memo).result =
      Support.aggregate (s.partSupports opened owner ps memo) := by
  induction ps generalizing memo with
  | nil =>
    rw [propertiesIn]
    rfl
  | cons p rest ih =>
    rw [partSupports]
    cases hp : s.propertySupport owner p (s.resolveIn opened p.type memo).result.support with
    | unsupported r =>
      rw [propertiesIn, hp]
      rfl
    | fully | withUnhandled =>
      rw [propertiesIn_of_supported (by simp [hp]), Support.aggregate_cons rfl, ← ih]
      dsimp only
      rw [hp]

theorem exists_of_mem_partSupports {owner : ClassName} {ps : List Property} {σ : Support}
    (h : σ ∈ s.partSupports opened owner ps memo) :
    ∃ p ∈ ps, ∃ τ, σ = s.propertySupport owner p τ := by
  induction ps generalizing memo with
  | nil => cases h
  | cons p rest ih =>
    rcases List.mem_cons.mp h with rfl | h
    · exact ⟨p, List.mem_cons_self, _, rfl⟩
    · obtain ⟨q, hq, h⟩ := ih h
      exact ⟨q, List.mem_cons_of_mem _ hq, h⟩

theorem propertySupport_ne_noVariant (owner : ClassName) (p : Property) (τ : Support) :
    s.propertySupport owner p τ ≠ .unsupported .noVariant := by
  cases τ with
  | unsupported r =>
    rw [propertySupport]
    split <;> simp
  | fully | withUnhandled => simp [propertySupport]

/-! ## The forms that concern a type -/

/-- Off `void`, the first form that concerns a type is the one that its shape calls for. -/
theorem find?_concerns (ht : t ≠ .prim .void) :
    Variant.tried.find? (fun v => s.concerns v t) = s.variant? t := by
  cases t with
  | prim p => cases p <;> first | rfl | exact absurd rfl ht
  | array c => rfl
  | app raw args =>
    simp only [Variant.tried, List.find?_cons, List.find?_nil, concerns, admits, variant?,
      TypeRef.kind]
    split_ifs <;> rfl
  | var n => rfl
  | wildcard => rfl
  | cls n =>
    simp only [Variant.tried, List.find?_cons, List.find?_nil, concerns, admits, variant?,
      TypeRef.kind]
    by_cases hb : n.text ∈ Platform.boxed
    · simp [hb]
    by_cases hs : (n.text ∈ Platform.strings || s.isEnum n) = true
    · simp only [hb, hs]; simp
    by_cases hd : n.text ∈ Platform.dates
    · simp only [hb, hs, hd]; simp
    by_cases ho : n.text ∈ Platform.primitiveOptionals
    · simp only [hb, hs, hd, ho]; simp
    simp only [hb, hs, hd, ho]
    cases n.isPlatform <;> simp

/-- A form whose values have parts is the only one that concerns the types whose shape calls for
it. -/
theorem eq_of_concerns (hv : s.variant? t = some v)
    (hm : v ∈ [.optional, .collection, .map, .object]) (hw : s.concerns w t = true) : w = v := by
  cases t with
  | prim p => cases p <;> cases hv <;> simp at hm
  | array c =>
    cases hv
    cases w <;> first | rfl | cases hw
  | app raw args =>
    simp only [variant?] at hv
    cases hk : (TypeRef.app raw args).kind <;> rw [hk] at hv <;> cases hv <;>
      cases w <;> simp [concerns, admits, hk] at hw ⊢
  | var n => cases hv
  | wildcard => cases hv
  | cls n =>
    simp only [variant?] at hv
    split_ifs at hv with hb hs hd ho hp
    · cases hv; simp at hm
    · cases hv; simp at hm
    · cases hv; simp at hm
    · cases hv
      -- the form of objects is kept off by the name, which belongs to the platform
      have hp := isPlatform_of_known n.text (List.mem_append_right _ ho)
      cases w <;> simp_all [concerns, admits, TypeRef.kind]
    · cases hv
      cases w <;> simp_all [concerns, admits, TypeRef.kind]

theorem supportIn_ne_noVariant (hv : s.variant? t = some v) (hn : t ∉ opened) :
    (s.supportIn opened t memo v hn).result ≠ .unsupported .noVariant := by
  have hcontainer (σ : Support) : σ.inContainer t ≠ .unsupported .noVariant := by
    cases σ <;> simp [Support.inContainer]
  cases v with
  | primitive | boxed | string | date | unhandled => rw [supportIn]; simp
  | optional | collection =>
    cases he : t.element? with
    | none => rw [supportIn_of_element?_none (by decide) hn he]; simp
    | some u =>
      rw [supportIn_of_element? (by decide) hn he]
      exact hcontainer _
  | map =>
    by_cases h : ∃ key u, t.key? = some key ∧ t.value? = some u
    · obtain ⟨key, u, hk, hu⟩ := h
      rw [supportIn_of_value? hn hk hu]
      split
      · exact hcontainer _
      · simp
    · rw [supportIn_of_value?_none hn fun key u hk hu => h ⟨key, u, hk, hu⟩]
      simp
  | object =>
    obtain ⟨n, rfl⟩ := exists_cls_of_object hv
    cases hc : s.index.class? n with
    | none => rw [supportIn_of_missing hn hc]; simp
    | some c =>
      cases hi : (s.index.inspect c).impossibility? with
      | some i => rw [supportIn_of_impossible hn hc hi]; simp
      | none =>
        rw [supportIn_of_possible hn hc hi, result_propertiesIn]
        intro h
        obtain ⟨p, -, τ, hτ⟩ := exists_of_mem_partSupports (Support.mem_of_aggregate h)
        exact propertySupport_ne_noVariant _ _ _ hτ.symm

/-! ## Steps of a trial -/

variable {hn : t ∉ opened} {vs rest : List Variant} {rejected? : Option Reason}

theorem trialIn_cons_of_not_concerns (h : s.concerns v t = false) :
    s.trialIn opened t hn (v :: rest) rejected? memo =
      s.trialIn opened t hn rest rejected? memo := by
  rw [trialIn]
  simp [askIn, h, Finding.after_none]

/-- The forms in front of the first one that concerns a type do not matter. -/
theorem trialIn_append_of_not_concerns (h : ∀ w ∈ vs, s.concerns w t = false) :
    s.trialIn opened t hn (vs ++ rest) rejected? memo =
      s.trialIn opened t hn rest rejected? memo := by
  induction vs with
  | nil => rfl
  | cons w vs ih =>
    rw [List.cons_append, trialIn_cons_of_not_concerns (h w List.mem_cons_self)]
    exact ih fun u hu => h u (List.mem_cons_of_mem _ hu)

theorem trialIn_of_not_concerns (h : ∀ w ∈ vs, s.concerns w t = false) :
    s.trialIn opened t hn vs rejected? memo =
      ⟨⟨none, .unsupported (rejected?.getD (unmatched t))⟩, memo, none⟩ := by
  rw [← List.append_nil vs, trialIn_append_of_not_concerns h]
  rfl

theorem askIn_of_concerns (ht : t ≠ .prim .void) (h : s.concerns v t = true) :
    s.askIn opened t hn v memo = s.supportIn opened t memo v hn := by
  simp [askIn, h, ht]

theorem trialIn_cons_of_isSupported
    (h : (s.askIn opened t hn v memo).result.isSupported = true) :
    s.trialIn opened t hn (v :: rest) rejected? memo =
      (s.askIn opened t hn v memo).map fun σ => ⟨some v, σ⟩ := by
  rw [trialIn]
  cases hx : (s.askIn opened t hn v memo).result with
  | unsupported r => rw [hx] at h; cases h
  | fully | withUnhandled => simp only [Finding.map, hx]

/-- A rejection goes on to the forms behind, which keep the first one. -/
theorem trialIn_cons_of_unsupported {r : Reason}
    (h : (s.askIn opened t hn v memo).result = .unsupported r) (hr : r ≠ .noVariant) :
    s.trialIn opened t hn (v :: rest) rejected? memo =
      (s.trialIn opened t hn rest (rejected?.or (some r)) (s.askIn opened t hn v memo).memo).after
        (s.askIn opened t hn v memo).assumed? := by
  rw [trialIn, h]
  cases r <;> first | rfl | exact absurd rfl hr

/-! ## The trial of all forms -/

/-- A type without support in the form that its shape calls for has a form with parts, so that no
form behind this one concerns it. -/
theorem not_concerns_of_unsupported {front behind : List Variant} {r : Reason}
    (hd : (front ++ v :: behind).Nodup) (hv : s.variant? t = some v)
    (h : (s.supportIn opened t memo v hn).result = .unsupported r) :
    ∀ w ∈ behind, s.concerns w t = false := by
  have hm : v ∈ [.optional, .collection, .map, .object] := by
    cases v with
    | primitive | boxed | string | date | unhandled => rw [supportIn] at h; cases h
    | optional | collection | map | object => decide
  have hnot : v ∉ behind := (List.nodup_cons.mp hd.of_append_right).1
  intro w hw
  refine Bool.eq_false_iff.mpr fun hc => hnot ?_
  rwa [eq_of_concerns hv hm hc] at hw

/-- Of the order of the forms it only matters which form that concerns the type comes first. -/
theorem trialIn_of_find? (ht : t ≠ .prim .void) (hd : vs.Nodup)
    (hfind : vs.find? (fun v => s.concerns v t) = s.variant? t) :
    s.trialIn opened t hn vs none memo = (s.supportOf opened t memo hn).map (s.resolved t) := by
  rw [supportOf]
  cases hv : s.variant? t with
  | none =>
    rw [hv, List.find?_eq_none] at hfind
    rw [trialIn_of_not_concerns fun w hw => Bool.eq_false_iff.mpr (hfind w hw)]
    rfl
  | some v =>
    rw [hv] at hfind
    obtain ⟨hc, front, behind, rfl, hfront⟩ := List.find?_eq_some_iff_append.mp hfind
    have hask : s.askIn opened t hn v memo = s.supportIn opened t memo v hn :=
      askIn_of_concerns ht hc
    rw [trialIn_append_of_not_concerns fun w hw => by simpa using hfront w hw]
    dsimp only
    cases hx : (s.supportIn opened t memo v hn).result with
    | fully | withUnhandled =>
      rw [trialIn_cons_of_isSupported (by rw [hask, hx]; rfl), hask]
      simp [Finding.map, resolved, hx, hv]
    | unsupported r =>
      have hr : r ≠ .noVariant := fun h => supportIn_ne_noVariant hv hn (h ▸ hx)
      rw [trialIn_cons_of_unsupported (hask ▸ hx) hr,
        trialIn_of_not_concerns (not_concerns_of_unsupported hd hv hx), hask]
      simp [Finding.map, Finding.after, Finding.outermost_none, resolved, hx]

/-- **The trial of all forms in order finds what is found in the form that the shape of a type calls
for.** -/
theorem trialIn_tried : s.trialIn opened t hn Variant.tried none memo =
    (s.supportOf opened t memo hn).map (s.resolved t) := by
  by_cases ht : t = .prim .void
  · subst ht
    rfl
  · exact trialIn_of_find? ht (by decide) (find?_concerns ht)

/-- **The resolution of a new type is a trial**, whose result is settled unless it is good only under
the assumption that a type further out has support. -/
theorem resolveIn_eq_trialIn (hm : memo.find? t = none) (hn : t ∉ opened) :
    s.resolveIn opened t memo =
      let x := s.trialIn opened t hn Variant.tried none memo
      let assumed? := x.assumed?.filter (· < opened.length)
      ⟨x.result,
        if assumed?.isNone || !x.result.support.isSupported then x.memo.record t x.result
        else x.memo,
        assumed?⟩ := by
  rw [resolveIn_of_new hm hn, trialIn_tried]
  rfl

end Schema

end JsonBinding
