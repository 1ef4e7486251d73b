import JsonBinding.Proofs.Program.Blocks
import JsonBinding.Proofs.Reflection.Keys
import JsonBinding.Proofs.SerializerUnit.Members

/-!
# Repeated keys in what units write

A unit writes instances and maps under distinct keys. It may repeat a key only where it leaves a
property to the generic writer, and this one repeats a key.

* `Schema.RepeatsDeferred`: values of a declared type within which an instance has such a property.
* **`Code.keys`**, **`PropertyCode.keys`**, **`FunctionCode.keys`**: the code of a value, of a
  property and of a class repeats a key for this reason alone.
* **`repeated_keys`**: where the generic writer and units repeat a key.
-/

namespace JsonBinding.Schema

open Writing
open Locals (Agree)

variable (s : Schema)

/-! ## Deferred properties that repeat a key -/

/-- Whether a value of a declared type repeats a key when a unit writes it: because the generic
writer repeats one, in a property that is left to it. -/
inductive RepeatsDeferred : Json → TypeRef → Prop
  | content {v c : Json} {t u : TypeRef} : s.formOf t = some .optional → t.element? = some u →
    Host.content v = .ok (some c) → RepeatsDeferred c u → RepeatsDeferred v t
  | element {v w : Json} {t u : TypeRef} {items : List Json} : s.formOf t = some .collection →
    t.element? = some u → Host.elements v = .ok items → w ∈ items → RepeatsDeferred w u →
    RepeatsDeferred v t
  | entry {v : Json} {t u : TypeRef} {es : Members} {m : String × Json} : s.formOf t = some .map →
    t.value? = some u → Host.entries v = .ok es → m ∈ es → RepeatsDeferred m.2 u →
    RepeatsDeferred v t
  | property {v w : Json} {n : ClassName} {c : ClassInfo} {p : Property} :
    s.formOf (.cls n) = some .object → s.index.class? n = some c →
    p ∈ s.properties (s.index.inspect c) → Host.property v p.accessor = .ok w →
    RepeatsDeferred w p.type → RepeatsDeferred v (.cls n)
  | deferred {v w : Json} {n : ClassName} {c : ClassInfo} {p : Property} :
    s.formOf (.cls n) = some .object → s.index.class? n = some c →
    p ∈ s.properties (s.index.inspect c) → Host.property v p.accessor = .ok w →
    s.formOf p.type = none → s.Repeats w (some p.type) → RepeatsDeferred v (.cls n)

/-- Whether the value of a property repeats a key when a unit writes it. -/
def RepeatsHeld (w : Json) (t : TypeRef) : Prop :=
  s.RepeatsDeferred w t ∨ s.formOf t = none ∧ s.Repeats w (some t)

/-- Whether a property of an instance repeats a key when a unit writes the instance. -/
def RepeatsWithin (x : Json) (p : Property) : Prop :=
  ∃ w, Host.property x p.accessor = .ok w ∧ s.RepeatsHeld w p.type

/-- Whether an instance repeats a key when the function of its class writes it. -/
def RepeatsAs (x : Json) (n : ClassName) : Prop :=
  ∃ c, s.index.class? n = some c ∧ ∃ p ∈ s.properties (s.index.inspect c), s.RepeatsWithin x p

variable {s} {around : Surroundings} {root v w x : Json} {ls : Locals} {e : Expr} {t u : TypeRef}
  {a? : Option AnnotationSet} {form : Variant} {n m : Nat} {body : List Stmt}

theorem RepeatsDeferred.isNull (h : s.RepeatsDeferred v t) : v.isNull = false := by
  cases v with
  | null =>
    cases h with
    | content _ _ h | element _ _ h | entry _ _ h => cases h
    | property _ _ _ h | deferred _ _ _ h =>
      obtain ⟨_, hread⟩ := Host.property_eq _
      rw [hread] at h
      cases h
  | _ => rfl

theorem RepeatsDeferred.formOf (h : s.RepeatsDeferred v t) : s.formOf t ≠ none := by
  cases h <;> simp_all

/-- Where a value repeats a key when a unit writes it, by the form of its type. -/
theorem repeatsDeferred_iff : s.formOf t = some form → (s.RepeatsDeferred v t ↔
    match form with
    | .optional => ∃ u c, t.element? = some u ∧ Host.content v = .ok (some c) ∧
      s.RepeatsDeferred c u
    | .collection => ∃ u items, t.element? = some u ∧ Host.elements v = .ok items ∧
      ∃ w ∈ items, s.RepeatsDeferred w u
    | .map => ∃ u es, t.value? = some u ∧ Host.entries v = .ok es ∧
      ∃ m ∈ es, s.RepeatsDeferred m.2 u
    | .object => ∃ n, t = .cls n ∧ s.RepeatsAs v n
    | _ => False) := by
  intro hf
  constructor
  · intro h
    cases h with
    | content hf' hu hc hr => cases hf.symm.trans hf'; exact ⟨_, _, hu, hc, hr⟩
    | element hf' hu hi hw hr => cases hf.symm.trans hf'; exact ⟨_, _, hu, hi, _, hw, hr⟩
    | entry hf' hu he hm hr => cases hf.symm.trans hf'; exact ⟨_, _, hu, he, _, hm, hr⟩
    | property hf' hc hp hw hr =>
      cases hf.symm.trans hf'
      exact ⟨_, rfl, _, hc, _, hp, _, hw, .inl hr⟩
    | deferred hf' hc hp hw hd hr =>
      cases hf.symm.trans hf'
      exact ⟨_, rfl, _, hc, _, hp, _, hw, .inr ⟨hd, hr⟩⟩
  · cases form with
    | optional => exact fun ⟨_, _, hu, hc, hr⟩ => .content hf hu hc hr
    | collection => exact fun ⟨_, _, hu, hi, _, hw, hr⟩ => .element hf hu hi hw hr
    | map => exact fun ⟨_, _, hu, he, _, hm, hr⟩ => .entry hf hu he hm hr
    | object =>
      rintro ⟨n, rfl, c, hc, p, hp, w, hw, hr | ⟨hd, hr⟩⟩
      · exact .property hf hc hp hw hr
      · exact .deferred hf hc hp hw hd hr
    | _ => exact False.elim

theorem repeatsHeld_iff_of_form (hf : s.formOf t = some form) :
    s.RepeatsHeld w t ↔ s.RepeatsDeferred w t := by
  simp [RepeatsHeld, hf]

theorem repeatsHeld_iff_of_none (hf : s.formOf t = none) :
    s.RepeatsHeld w t ↔ s.Repeats w (some t) := by
  refine ⟨fun h => ?_, fun h => .inr ⟨hf, h⟩⟩
  rcases h with h | h
  · exact absurd hf h.formOf
  · exact h.2

theorem RepeatsHeld.isNull (h : s.RepeatsHeld v t) : v.isNull = false := by
  rcases h with h | ⟨-, h⟩
  · exact RepeatsDeferred.isNull h
  · exact Repeats.isNull h

/-! ## Values -/

variable (s) in
/-- Whether functions, when they end, write objects that repeat a key for the sake of deferred
properties alone. -/
def ServingKeys (around : Surroundings) : Prop :=
  around.generic = s.writeUnhandled ∧ ∀ k x, x.DistinctKeys →
    Writing.Fills .value (fun _ j => j.DistinctKeys ↔ ¬ s.RepeatsAs x k) (fun _ => True)
      (around.call k x)

theorem keys_orNull (he : e.eval root ls = .ok w)
    (h : Stmt.Makes .value n (fun j => j.DistinctKeys ↔ ¬ s.RepeatsDeferred w t) (fun _ => True)
      around root body ls) :
    Stmt.Makes .value n (fun j => j.DistinctKeys ↔ ¬ s.RepeatsDeferred w t) (fun _ => True) around
      root (Stmt.orNull u e body) ls :=
  Stmt.makes_orNull he (fun _ hw => iff_of_true .null fun hr => by simp [hr.isNull] at hw)
    fun _ => h

/-- **The code of a value repeats a key for the sake of deferred properties alone.** -/
theorem Code.keys (h : s.Code a? form e t n body m) (hf : s.formOf t = some form)
    (he : e.eval root ls = .ok w) (hw : w.DistinctKeys) (haround : s.ServingKeys around) :
    Stmt.Makes .value n (fun j => j.DistinctKeys ↔ ¬ s.RepeatsDeferred w t) (fun _ => True) around
      root body ls := by
  induction h generalizing ls w with
  | primitive | boxed | string =>
    refine Stmt.makes_scalar he (fun _ _ => trivial) fun ev _ => ?_
    rw [repeatsDeferred_iff hf]
    exact iff_of_true (Json.distinctKeys_event ev) not_false
  | date =>
    refine Stmt.makes_date he (fun _ _ => trivial) fun ev _ => ?_
    rw [repeatsDeferred_iff hf]
    exact iff_of_true (Json.distinctKeys_event ev) not_false
  | @optional e t u v n m body hu hv hc ih =>
    refine Stmt.makes_present he (Nat.le_refl n) (fun _ _ => trivial) (fun c hcon => ?_)
      fun hcon => Stmt.makes_null ?_
    · refine (ih hv Expr.eval_var (Host.distinctKeys_content hw hcon)).mono fun _ hj => hj.trans ?_
      rw [repeatsDeferred_iff hf]
      simp [hu, hcon]
    · rw [repeatsDeferred_iff hf]
      simp [hcon, Json.DistinctKeys.null]
  | @collection e t u v n m body hu hv hc ih =>
    refine Stmt.makes_array (Stmt.makes_elements
      (Q := fun w j => j.DistinctKeys ↔ ¬ s.RepeatsDeferred w u) he (fun _ _ => trivial)
      fun items hi item hitem ls₁ _ => ?_) ?_
    · exact keys_orNull Expr.eval_var
        (ih hv Expr.eval_var (Host.distinctKeys_elements hw hi item hitem))
    · rintro js ⟨items, hi, hjs⟩
      rw [Json.distinctKeys_items hjs, repeatsDeferred_iff hf]
      simp [hu, hi]
  | @map e t u v n m body hu hv hc ih =>
    refine Stmt.makes_object (Stmt.makes_entries
      (Q := fun w j => j.DistinctKeys ↔ ¬ s.RepeatsDeferred w u) he (fun _ _ => trivial)
      fun es hes entry hentry ls₁ _ => ?_) ?_
    · exact keys_orNull Expr.eval_var
        (ih hv Expr.eval_var ((Host.distinctKeys_entries hw hes).2 entry hentry))
    · rintro ms ⟨es, hes, hms⟩
      rw [(Json.keyed_of_forall₂ hms).distinctKeys (Host.distinctKeys_entries hw hes).1,
        repeatsDeferred_iff hf]
      simp [hu, hes]
  | @object e name n =>
    rw [Stmt.Makes, Stmt.runAll_singleton, Stmt.run, he]
    refine (haround.2 name w hw).result fun _ _ hj => ⟨.refl, hj.trans ?_⟩
    rw [repeatsDeferred_iff hf]
    simp
  | unhandled => exact absurd hf formOf_ne_unhandled

/-! ## Properties -/

theorem keys_unhandled (hf : s.formOf t = none) (he : e.eval root ls = .ok w)
    (hw : w.DistinctKeys) (haround : s.ServingKeys around) :
    Stmt.Makes .value n (fun j => j.DistinctKeys ↔ ¬ s.RepeatsHeld w t) (fun _ => True) around root
      [.writeUnhandled e t] ls :=
  Stmt.makes_unhandled haround.1 he (fun _ _ => trivial) fun _ hj =>
    (distinctKeys_document hw hj).trans (repeatsHeld_iff_of_none hf).not.symm

theorem NillableCode.keys (h : s.NillableCode a? e t n body m) (he : e.eval root ls = .ok w)
    (hw : w.DistinctKeys) (haround : s.ServingKeys around) :
    Stmt.Makes .value n (fun j => j.DistinctKeys ↔ ¬ s.RepeatsHeld w t) (fun _ => True) around root
      body ls := by
  cases h with
  | handled hf hc =>
    rw [repeatsHeld_iff_of_form hf]
    exact keys_orNull he (hc.keys hf he hw haround)
  | unhandled hf _ => exact keys_unhandled hf he hw haround

theorem repeatsWithin_iff {p : Property} (hw : Host.property x p.accessor = .ok w) :
    s.RepeatsWithin x p ↔ s.RepeatsHeld w p.type := by
  simp [RepeatsWithin, hw]

theorem keys_key {p : Property} (hprop : Host.property x p.accessor = .ok w)
    (h : Stmt.Makes .value n (fun j => j.DistinctKeys ↔ ¬ s.RepeatsHeld w p.type) (fun _ => True)
      around root body ls) :
    Stmt.Makes .members n (Json.Keyed Property.key (s.RepeatsWithin x) [p]) (fun _ => True) around
      root (.writeKey p.key :: body) ls := by
  refine (Stmt.makes_key h).mono ?_
  rintro _ ⟨j, hj, rfl⟩
  exact .member (hj.trans (repeatsWithin_iff hprop).not.symm) .nil

theorem PresentCode.keys {p : Property} (h : s.PresentCode a? p.key e p.type n body m)
    (hprop : Host.property x p.accessor = .ok w) (he : e.eval root ls = .ok w)
    (hw : w.DistinctKeys) (haround : s.ServingKeys around) :
    Stmt.Makes .members n (Json.Keyed Property.key (s.RepeatsWithin x) [p]) (fun _ => True) around
      root body ls := by
  generalize hkey : p.key = key at h
  generalize htype : p.type = t at h
  cases h with
  | @optional u v n m content hf hu hv hc =>
    subst hkey htype
    refine Stmt.makes_present he (Nat.le_refl n) (fun _ _ => trivial) (fun c hcon => ?_)
      fun hcon => Stmt.makes_none ?_
    · refine keys_key hprop ((hc.keys hv Expr.eval_var (Host.distinctKeys_content hw hcon)
        haround).mono fun _ hj => hj.trans ?_)
      rw [repeatsHeld_iff_of_form hf, repeatsDeferred_iff hf]
      simp [hu, hcon]
    · refine .without ?_ .nil
      rw [repeatsWithin_iff hprop, repeatsHeld_iff_of_form hf, repeatsDeferred_iff hf]
      simp [hcon]
  | handled hf hv hc =>
    subst hkey htype
    refine keys_key hprop ?_
    rw [repeatsHeld_iff_of_form hf]
    exact hc.keys hf he hw haround
  | unhandled hf _ =>
    subst hkey htype
    exact keys_key hprop (keys_unhandled hf he hw haround)

/-- **The code of a property writes its member, if any**, which repeats a key for the sake of
deferred properties alone. -/
theorem PropertyCode.keys {p : Property} (h : s.PropertyCode e p n body m)
    (he : e.eval root ls = .ok x) (hx : x.DistinctKeys) (haround : s.ServingKeys around) :
    Stmt.Makes .members n (Json.Keyed Property.key (s.RepeatsWithin x) [p]) (fun _ => True) around
      root body ls := by
  have hread := Accessor.eval_read he p.accessor
  cases hprop : Host.property x p.accessor with
  | error f => exact h.makes_of_error he hprop trivial
  | ok w =>
    rw [hprop] at hread
    have hw := Host.distinctKeys_property hx hprop
    cases h with
    | @primitive v n m body hp hf hc =>
      refine keys_key hprop ?_
      rw [repeatsHeld_iff_of_form hf]
      exact hc.keys hf hread hw haround
    | @nillable n m body hp hn hc =>
      exact Stmt.makes_bind hread (keys_key hprop (hc.keys Expr.eval_var hw haround))
        (Nat.le_succ n)
    | @present n m body hp hn hc =>
      refine Stmt.makes_bind hread (Stmt.makes_ifNotNull Expr.eval_var
        (fun _ => hc.keys hprop Expr.eval_var hw haround) fun hnull => Stmt.makes_none ?_)
        (Nat.le_succ n)
      refine .without (fun hr => ?_) .nil
      simp [((repeatsWithin_iff hprop).mp hr).isNull] at hnull

theorem PropertiesCode.keys {ps : List Property} {k : Nat} {ls₁ : Locals}
    (h : s.PropertiesCode e ps n body m) (hk : k ≤ n)
    (he : ∀ ls', Agree k ls ls' → e.eval root ls' = .ok x) (hx : x.DistinctKeys)
    (haround : s.ServingKeys around) (hls : Agree k ls ls₁) :
    Writing.Fills .members
      (fun ls' ms => Agree k ls ls' ∧ Json.Keyed Property.key (s.RepeatsWithin x) ps ms)
      (fun _ => True) (Stmt.runAll around root body ls₁) := by
  induction h generalizing ls₁ with
  | nil => exact .pure Slot.parts_members ⟨hls, .nil⟩
  | cons hc _ ih =>
    rw [Stmt.runAll_append]
    refine (hc.keys (he _ hls) hx haround).seq Slot.parts_members fun ls₂ ms ⟨h₂, hms⟩ => ?_
    refine Writing.Fills.mono (ih (Nat.le_trans hk hc.le) (hls.trans (h₂.anti hk))) ?_ fun _ h => h
    exact fun ls' ms' h => ⟨h.1, hms.append h.2⟩

/-! ## Functions -/

/-- **The function of a class repeats a key for the sake of deferred properties alone.** -/
theorem FunctionCode.keys {f : ObjectFunction} (h : s.FunctionCode n f m) (hx : x.DistinctKeys)
    (haround : s.ServingKeys around) :
    Writing.Fills .value (fun _ j => j.DistinctKeys ↔ ¬ s.RepeatsAs x f.name) (fun _ => True)
      (Stmt.runAll around x f.body []) := by
  refine Writing.Fills.mono (h.makes
    (R := fun c => Json.Keyed Property.key (s.RepeatsWithin x) (s.properties (s.index.inspect c)))
    (fun _ _ _ => trivial)
    fun _ _ k _ _ _ _ hw he _ => hw.keys (Nat.le_refl k) he hx haround .refl) ?_ fun _ h => h
  rintro _ _ ⟨c, ms, hc, -, hms, rfl⟩
  rw [hms.distinctKeys (Inspection.nodup_keys _ s.settings)]
  simp [RepeatsAs, hc]

variable {u : SerializerUnit}

/-- **A function that is called repeats a key for the sake of deferred properties alone.** -/
theorem servingKeys_callWithin (hu : s.ProgramCode u.root u.program) (depth : Nat) :
    s.ServingKeys ⟨s.callWithin u depth, s.writeUnhandled⟩ := by
  induction depth with
  | zero => exact ⟨rfl, fun _ _ _ => .fail trivial⟩
  | succ depth ih =>
    refine ⟨rfl, fun k x hx => ?_⟩
    show Writing.Fills .value _ _ (s.callWithin u (depth + 1) k x)
    rw [callWithin]
    cases hf : u.program.function? k with
    | none => exact .fail trivial
    | some f =>
      have hname : f.name = k := by simpa using List.find?_some hf
      obtain ⟨n, m, hcode⟩ := hu.function (List.mem_of_find?_eq_some hf)
      rw [← hname]
      exact (hcode.keys hx ih).result fun _ _ h => h

theorem keys_run (hu : s.ProgramCode u.root u.program) (hv : v.DistinctKeys) :
    Writing.Fills .value (fun _ j => j.DistinctKeys ↔ ¬ s.RepeatsDeferred v u.root)
      (fun _ => True) (s.run u v) := by
  obtain ⟨form, n, m, hf, hc, -⟩ := hu.code
  rw [run]
  split_ifs
  · exact .fail trivial
  · rw [discard_eq]
    exact (hc.keys hf rfl hv (servingKeys_callWithin hu _)).result fun _ _ h => h.2

/-! ## Units -/

/-- A type whose values may repeat a key reaches a deferred property. -/
theorem RepeatsDeferred.leaky (h : s.RepeatsDeferred v t) : s.Leaky t := by
  have hwritten : ∀ {v u}, s.RepeatsDeferred v u → ¬ s.Blocked u := by
    intro v u h
    obtain ⟨form, hf⟩ := Option.ne_none_iff_exists'.mp h.formOf
    exact not_blocked_of_formOf hf
  have hshape : ∀ {t form}, s.formOf t = some form → form ≠ .object → s.shape? t = some form :=
    fun hf hne => shape?_of_variant? (formOf_eq_some_iff.mp hf).2 hne
  induction h with
  | content hf hu _ hr ih =>
    obtain ⟨u', p, hreach, hp⟩ := ih
    exact ⟨u', p, .head ⟨.element (.inl (hshape hf (by decide))) hu, hwritten hr⟩ hreach, hp⟩
  | element hf hu _ _ hr ih =>
    obtain ⟨u', p, hreach, hp⟩ := ih
    exact ⟨u', p, .head ⟨.element (.inr (hshape hf (by decide))) hu, hwritten hr⟩ hreach, hp⟩
  | entry _ hu _ _ hr ih =>
    obtain ⟨u', p, hreach, hp⟩ := ih
    exact ⟨u', p, .head ⟨.value hu, hwritten hr⟩ hreach, hp⟩
  | property hf hc hp _ hr ih =>
    obtain ⟨u', p, hreach, hp'⟩ := ih
    exact ⟨u', p, .head ⟨.property (hasProperty_of_formOf hf hc hp) trivial, hwritten hr⟩ hreach,
      hp'⟩
  | @deferred v w n c p hf hc hp _ hd _ =>
    have hproperty := hasProperty_of_formOf hf hc hp
    have hblocked : s.Blocked p.type := by
      by_contra hb
      obtain ⟨form, hf⟩ := exists_formOf hb
      cases hd.symm.trans hf
    refine ⟨_, p, .refl, hproperty, ?_, hblocked⟩
    by_contra hfirm
    exact not_blocked_of_formOf hf (hblocked.step (.property hproperty (by simpa using hfirm)))

/-- **Keys are repeated where values are written by their shape**, and nowhere else. The generic
writer repeats a key just when it writes a value by its shape somewhere, and members of one of its
objects get the same name there; a unit repeats one just when the generic writer does so in a
property that is left to it, and never when the unit is fully supported. -/
theorem repeated_keys (s : Schema) (hv : v.DistinctKeys) :
    (∀ t text, (s.reflect v t none).written.1 = .complete text → ∃ j : Json, text = j.text ∧
      (j.DistinctKeys ↔ ¬ s.Repeats v (some t))) ∧
    ∀ memo, s.Reached memo → ∀ root id u, (s.unit root id memo).1 = .ok (some u) →
      ∀ text, (s.run u v).written.1 = .complete text → ∃ j : Json, text = j.text ∧
        (j.DistinctKeys ↔ ¬ s.RepeatsDeferred v root) ∧
        (u.support = .fully → j.DistinctKeys) := by
  refine ⟨fun t text h => ?_, fun memo hr root id u hu text h => ?_⟩
  · have hwrites : Writing.Writes .value (s.reflect v t none) (s.document v (some t) none) :=
      writes_reflectAt v (some t) none
    obtain ⟨j, hj, rfl⟩ := Writing.Fills.complete hwrites h
    exact ⟨j, rfl, distinctKeys_document hv hj⟩
  · obtain ⟨p, hp, rfl⟩ := unit_eq_some hr hu
    obtain ⟨j, hj, rfl⟩ := (keys_run hp hv).complete h
    refine ⟨j, rfl, hj, fun hfully => hj.mpr fun hrepeats => ?_⟩
    exact ((hr.exact_resolve root).fully.mp hfully).2 hrepeats.leaky

/-! ## A member and its getter -/

namespace Twice

/-- An instance with a member for a getter, and one for the field that it gets. -/
def twice : Json := .obj [("getName", .str "Ada"), ("name", .str "Ada")]

/-- What is written of the instance by its shape. -/
def repeated : Json := .obj [("name", .str "Ada"), ("name", .str "Ada")]

theorem distinctKeys_twice : twice.DistinctKeys :=
  .obj (by decide) (by simp [Json.DistinctKeys.str])

theorem not_distinctKeys_repeated : ¬ repeated.DistinctKeys := fun h =>
  absurd (Json.distinctKeys_obj_iff.mp h).1 (by decide)

theorem memberKey_getName : Bean.memberKey "getName" = "name" := by decide

theorem memberKey_name : Bean.memberKey "name" = "name" := by decide

theorem plain_twice (h : s.settings.keyOrder.descends = false) : s.plain twice = repeated := by
  have hnamed : s.plainMembers [("getName", .str "Ada"), ("name", .str "Ada")] =
      [("name", .str "Ada"), ("name", .str "Ada")] := by
    simp [plainMembers, memberKey_getName, memberKey_name, Json.isNull, plain, Host.typeMarker]
  have hcontent : s.plainContent? [("getName", .str "Ada"), ("name", .str "Ada")] = none := rfl
  rw [twice, plain, hcontent]
  dsimp only
  rw [hnamed, h, List.mergeSort_of_pairwise (by decide)]
  rfl

theorem document_twice {n : ClassName} (hk : (TypeRef.cls n).kind = .plainClass)
    (hs : n.text ∉ Platform.strings) (hd : n.text ∉ Platform.dates)
    (hc : s.index.class? n = none) (h : s.settings.keyOrder.descends = false) :
    s.document twice (some (.cls n)) a? = .ok repeated := by
  have hi : s.instanceDescription? twice n = none := by
    rw [instanceDescription?, description?, hc]
    rfl
  rw [document_eq rfl, hk]
  show s.documentClass twice n a? = _
  rw [documentClass, if_neg hs, if_neg hd, hi]
  exact congrArg Except.ok (plain_twice h)

/-- **An instance of an unknown class is written with a key twice**, once for the getter and once
for the field. -/
theorem repeated_name : twice.DistinctKeys ∧
    (({} : Schema).reflect twice (.cls ⟨"com.other.Unknown"⟩) none).written.1 =
      .complete repeated.text ∧
    repeated.text = "\x7b\"name\":\"Ada\",\"name\":\"Ada\"\x7d" ∧ ¬ repeated.DistinctKeys := by
  refine ⟨distinctKeys_twice, written_complete_iff.mpr ?_, by cbv, not_distinctKeys_repeated⟩
  rw [document_twice (kind_plainClass (by decide) (by decide)) (by decide) (by decide) rfl rfl]
  rfl

/-- A node that holds the instance as one of a class of the platform. -/
def owning : Json := .obj [("owner", twice)]

theorem distinctKeys_owning : owning.DistinctKeys :=
  .obj (by decide) (by simp [distinctKeys_twice])

theorem document_owning : tree.document owning (some (.cls Tree.node.name)) none =
    .ok (.obj [("owner", repeated)]) := by
  have hkind : (TypeRef.cls ⟨"java.lang.Object"⟩).kind = .plainClass :=
    kind_plainClass (by decide) (by decide)
  have howner : tree.document twice (some (.cls ⟨"java.lang.Object"⟩)) (some []) = .ok repeated :=
    document_twice hkind (by decide) (by decide) rfl rfl
  have hpresent : isAbsent (.cls ⟨"java.lang.Object"⟩) twice = .ok false :=
    isAbsent_present rfl (by simp [hkind])
  have hmissing : ∀ t, isAbsent t .null = .ok true := fun _ => rfl
  rw [Tree.document_node rfl, Tree.properties_node]
  simp only [assemble]
  rw [membersOf_eq, membersOf_eq, membersOf_eq]
  simp [owning, Host.property, Host.read, Host.member, Json.lookup, bind, Except.bind,
    TypeRef.isPrimitive, Except.map, hpresent, hmissing, howner]

theorem formOf_owner : tree.formOf (.cls ⟨"java.lang.Object"⟩) = none := by
  have hv : tree.variant? (.cls ⟨"java.lang.Object"⟩) = none := by
    rw [variant?_of_unknown (by decide) rfl]
    simp [ClassName.isPlatform]
  refine Option.eq_none_iff_forall_ne_some.mpr fun v hf => ?_
  cases hv.symm.trans (formOf_eq_some_iff.mp hf).2

theorem repeatsDeferred_owning : tree.RepeatsDeferred owning (.cls Tree.node.name) := by
  have hi : tree.instanceDescription? twice ⟨"java.lang.Object"⟩ = none := rfl
  have hshape : tree.ByShape twice (some (.cls ⟨"java.lang.Object"⟩)) :=
    .undescribed (kind_plainClass (by decide) (by decide)) (by decide) (by decide) hi
  have hclash : tree.Clash [("getName", .str "Ada"), ("name", .str "Ada")] :=
    ⟨_, .head _, _, .tail _ (.head _), by decide, memberKey_getName.trans memberKey_name.symm⟩
  have howner : ⟨"owner", "owner", false, .cls ⟨"java.lang.Object"⟩, .field "owner", []⟩ ∈
      tree.properties (tree.index.inspect Tree.node) := by
    rw [Tree.properties_node]
    exact .tail _ (.tail _ (.head _))
  exact .deferred Tree.formOf_node Tree.class?_node howner rfl formOf_owner
    (.shape hshape (.clash rfl hclash))

theorem repeated_keys_owning : owning.DistinctKeys ∧ tree.Reached {} ∧
    ∃ u text, (tree.unit (.cls Tree.node.name) ⟨"NodeSerializer"⟩ {}).1 = .ok (some u) ∧
      (tree.run u owning).written.1 = .complete text ∧
      ∃ j : Json, text = j.text ∧ ¬ j.DistinctKeys := by
  obtain ⟨u, hu⟩ := Tree.exists_unit
  have halike := alike_unit Tree.enumsApart .start hu (fun _ _ _ => Tree.defers_node)
    (v := owning) rfl
  have htext : (tree.run u owning).written.1 =
      .complete (Json.obj [("owner", repeated)]).text := by
    rw [halike.complete, written_complete_iff, document_owning]
    rfl
  obtain ⟨j, hj, hkeys, -⟩ := (repeated_keys tree distinctKeys_owning).2 _ .start _ _ _ hu _ htext
  exact ⟨distinctKeys_owning, .start, u, _, hu, htext, j, hj,
    fun h => hkeys.mp h repeatsDeferred_owning⟩

end Twice

end JsonBinding.Schema
