import JsonBinding.Proofs.Property.Order
import JsonBinding.Proofs.Reflection.Hidden

/-!
# Repeated keys

Instances are written under distinct keys, and so are maps. A value that is written by its shape may
repeat a key, for its members are named anew and several may get the same name.

* `Json.DistinctKeys`: values in which no object repeats a key.
* `Json.Keyed`: members that some things have, each at most one, under a key of its own.
* `Schema.Clash`, `Schema.RepeatsByShape`: members that get the same name, and values that are
  written by their shape and repeat a key; **`distinctKeys_plain`**.
* `Schema.Repeats`: values of a declared type within which such a value stands.
* **`distinctKeys_document`**: the document of a value repeats a key for this reason alone.
-/

namespace JsonBinding

namespace Json

/-! ## Distinct keys -/

/-- Whether no object in a value repeats a key. -/
inductive DistinctKeys : Json → Prop
  | null : DistinctKeys .null
  | bool {b : Bool} : DistinctKeys (.bool b)
  | num {n : Number} : DistinctKeys (.num n)
  | str {text : String} : DistinctKeys (.str text)
  | arr {items : List Json} : (∀ v ∈ items, DistinctKeys v) → DistinctKeys (.arr items)
  | obj {members : Members} : (members.map (·.1)).Nodup → (∀ m ∈ members, DistinctKeys m.2) →
    DistinctKeys (.obj members)

variable {α : Type} {v w : Json} {key : String}

theorem distinctKeys_arr_iff {items : List Json} :
    (Json.arr items).DistinctKeys ↔ ∀ v ∈ items, v.DistinctKeys :=
  ⟨fun h => by cases h; assumption, .arr⟩

theorem distinctKeys_obj_iff {members : Members} : (Json.obj members).DistinctKeys ↔
    (members.map (·.1)).Nodup ∧ ∀ m ∈ members, m.2.DistinctKeys :=
  ⟨fun h => by cases h; exact ⟨‹_›, ‹_›⟩, fun h => .obj h.1 h.2⟩

theorem distinctKeys_event (e : Event) : e.value.DistinctKeys := by
  cases e <;> constructor

theorem DistinctKeys.member? (h : v.DistinctKeys) (hw : v.member? key = some w) :
    w.DistinctKeys := by
  cases h with
  | obj _ hvalues => exact hvalues (key, w) (mem_of_lookup hw)
  | _ => cases hw

/-- Items that are made one by one repeat a key when something is bad of what they are made of. -/
theorem distinctKeys_items {bad : α → Prop} {xs : List α} {items : List Json}
    (h : List.Forall₂ (fun x j => j.DistinctKeys ↔ ¬ bad x) xs items) :
    (Json.arr items).DistinctKeys ↔ ∀ x ∈ xs, ¬ bad x := by
  rw [distinctKeys_arr_iff]
  induction h with
  | nil => simp
  | cons hj _ ih => rw [List.forall_mem_cons, List.forall_mem_cons, hj, ih]

/-- Members that some things have, in order: each thing has at most one, under its key, and the
value of that member repeats a key just when the thing is bad. What has none is not bad. -/
inductive Keyed (name : α → String) (bad : α → Prop) : List α → Members → Prop
  | nil : Keyed name bad [] []
  | without {x : α} {xs : List α} {ms : Members} : ¬ bad x → Keyed name bad xs ms →
    Keyed name bad (x :: xs) ms
  | member {x : α} {xs : List α} {j : Json} {ms : Members} : (j.DistinctKeys ↔ ¬ bad x) →
    Keyed name bad xs ms → Keyed name bad (x :: xs) ((name x, j) :: ms)

namespace Keyed

variable {name : α → String} {bad : α → Prop} {x : α} {xs : List α} {ms ms' : Members}

theorem append (h : Keyed name bad [x] ms) (h' : Keyed name bad xs ms') :
    Keyed name bad (x :: xs) (ms ++ ms') := by
  cases h with
  | without hx h =>
    cases h
    exact .without hx h'
  | member hj h =>
    cases h
    exact .member hj h'

theorem sublist (h : Keyed name bad xs ms) : (ms.map (·.1)).Sublist (xs.map name) := by
  induction h with
  | nil => exact .slnil
  | without _ _ ih => exact ih.cons _
  | member _ _ ih => exact ih.cons_cons _

theorem values (h : Keyed name bad xs ms) :
    (∀ m ∈ ms, m.2.DistinctKeys) ↔ ∀ x ∈ xs, ¬ bad x := by
  induction h with
  | nil => simp
  | without hx _ ih => rw [ih, List.forall_mem_cons, and_iff_right hx]
  | member hj _ ih => rw [List.forall_mem_cons, List.forall_mem_cons, hj, ih]

/-- An object of the members of things with distinct keys repeats a key when one of them is bad. -/
theorem distinctKeys (h : Keyed name bad xs ms) (hn : (xs.map name).Nodup) :
    (Json.obj ms).DistinctKeys ↔ ∀ x ∈ xs, ¬ bad x := by
  rw [distinctKeys_obj_iff, and_iff_right (hn.sublist h.sublist), h.values]

end Keyed

theorem keyed_of_forall₂ {bad : String × Json → Prop} {es ms : Members}
    (h : List.Forall₂ (fun e m => m.1 = e.1 ∧ (m.2.DistinctKeys ↔ ¬ bad e)) es ms) :
    Keyed (·.1) bad es ms := by
  induction h with
  | nil => exact .nil
  | @cons e m _ _ h _ ih =>
    obtain ⟨key, j⟩ := m
    obtain ⟨rfl, hj⟩ := h
    exact .member hj ih

end Json

/-! ## Host values -/

namespace Host

variable {v w : Json}

theorem distinctKeys_property (h : v.DistinctKeys) {a : Accessor} (hw : property v a = .ok w) :
    w.DistinctKeys := by
  obtain ⟨expected, hread⟩ := property_eq a
  rw [hread] at hw
  cases v with
  | obj members =>
    cases hw
    cases hm : Json.lookup members a.member with
    | none => exact .null
    | some w => exact h.member? hm
  | _ => cases hw

theorem distinctKeys_content (h : v.DistinctKeys) (hw : content v = .ok (some w)) :
    w.DistinctKeys := by
  unfold content at hw
  split at hw
  · cases hw
  · rename_i hm
    cases hw
    exact h.member? hm
  · cases hw

theorem distinctKeys_elements (h : v.DistinctKeys) {items : List Json}
    (hi : elements v = .ok items) : ∀ w ∈ items, w.DistinctKeys := by
  cases v with
  | arr =>
    cases hi
    exact Json.distinctKeys_arr_iff.mp h
  | _ => cases hi

theorem distinctKeys_entries (h : v.DistinctKeys) {es : Members} (he : entries v = .ok es) :
    (es.map (·.1)).Nodup ∧ ∀ m ∈ es, m.2.DistinctKeys := by
  cases v with
  | obj =>
    cases he
    exact Json.distinctKeys_obj_iff.mp h
  | _ => cases he

end Host

/-! ## Parts that are assembled -/

theorem keyed_of_assemble {α : Type} {xs : List α} {name : α → String} {bad : α → Prop}
    {f : (x : α) → x ∈ xs → Except Fault Members} {ms : Members} (h : assemble xs f = .ok ms)
    (hf : ∀ x hx b, f x hx = .ok b → Json.Keyed name bad [x] b) : Json.Keyed name bad xs ms := by
  induction xs generalizing ms with
  | nil =>
    cases h
    exact .nil
  | cons x xs ih =>
    obtain ⟨b, rest, hb, hrest, rfl⟩ := exists_of_assemble_cons h
    exact (hf x _ b hb).append (ih hrest fun y hy => hf y _)

namespace Schema

variable (s : Schema)

/-! ## Values that are written by their shape -/

/-- The members of an object that show when the object is written by its shape. -/
def shown (ms : Members) : Members :=
  ms.filter fun m => m.1 ≠ Host.typeMarker && (!m.2.isNull || s.settings.writeNulls)

/-- Whether two members of different names get the same name when their object is written by its
shape, and both show. -/
def Clash (ms : Members) : Prop :=
  ∃ a ∈ s.shown ms, ∃ b ∈ s.shown ms, a.1 ≠ b.1 ∧ Bean.memberKey a.1 = Bean.memberKey b.1

/-- Whether a value repeats a key when it is written by its shape. -/
inductive RepeatsByShape : Json → Prop
  | clash {ms : Members} : Json.lookup ms Host.optionalMarker = none → s.Clash ms →
    RepeatsByShape (.obj ms)
  | item {items : List Json} {w : Json} : w ∈ items → RepeatsByShape w →
    RepeatsByShape (.arr items)
  | content {ms : Members} {c : Json} : Json.lookup ms Host.optionalMarker = some c →
    RepeatsByShape c → RepeatsByShape (.obj ms)
  | member {ms : Members} {m : String × Json} : Json.lookup ms Host.optionalMarker = none →
    m ∈ s.shown ms → RepeatsByShape m.2 → RepeatsByShape (.obj ms)

variable {s} {v w j : Json} {t : TypeRef} {t? : Option TypeRef} {n : ClassName}
  {a? : Option AnnotationSet} {ms : Members}

theorem plainItems_eq (items : List Json) : s.plainItems items = items.map s.plain := by
  induction items with
  | nil => rfl
  | cons v items ih => rw [plainItems, ih, List.map_cons]

theorem plainContent?_eq (ms : Members) :
    s.plainContent? ms = (Json.lookup ms Host.optionalMarker).map s.plain := by
  induction ms with
  | nil => rfl
  | cons m ms ih =>
    rw [plainContent?, Json.lookup_cons, ih]
    by_cases h : m.1 = Host.optionalMarker
    · rw [if_pos h, if_pos (beq_iff_eq.mpr h)]
      rfl
    · rw [if_neg h, if_neg (by simpa using h)]

theorem plainMembers_eq (ms : Members) :
    s.plainMembers ms = (s.shown ms).map fun m => (Bean.memberKey m.1, s.plain m.2) := by
  induction ms with
  | nil => rfl
  | cons m ms ih =>
    have hshown : (decide (m.1 ≠ Host.typeMarker) && (!m.2.isNull || s.settings.writeNulls)) =
        !(decide (m.1 = Host.typeMarker) || (m.2.isNull && !s.settings.writeNulls)) := by
      simp
    rw [plainMembers, ih, shown, shown, List.filter_cons, hshown]
    cases decide (m.1 = Host.typeMarker) || (m.2.isNull && !s.settings.writeNulls) <;> rfl

/-- An object that is no optional is written with its members that show, in some order. -/
theorem plain_members (h : Json.lookup ms Host.optionalMarker = none) : ∃ named : Members,
    s.plain (.obj ms) = .obj named ∧
      named.Perm ((s.shown ms).map fun m => (Bean.memberKey m.1, s.plain m.2)) := by
  rw [plain, plainContent?_eq, h, plainMembers_eq]
  refine ⟨_, rfl, ?_⟩
  split_ifs
  · exact (List.reverse_perm _).trans (List.mergeSort_perm _ _)
  · exact List.mergeSort_perm _ _

theorem plain_of_sorted {named : Members} (hd : s.settings.keyOrder.descends = false)
    (ho : Json.lookup ms Host.optionalMarker = none)
    (hn : (s.shown ms).map (fun m => (Bean.memberKey m.1, s.plain m.2)) = named)
    (hs : named.Pairwise fun a b => decide (a.1 ≤ b.1) = true) :
    s.plain (.obj ms) = .obj named := by
  rw [plain, plainContent?_eq, ho, plainMembers_eq, hn, hd, List.mergeSort_of_pairwise hs]
  rfl

theorem not_clash_iff (hn : (ms.map (·.1)).Nodup) :
    ((s.shown ms).map fun m => Bean.memberKey m.1).Nodup ↔ ¬ s.Clash ms := by
  have hshown : ((s.shown ms).map (·.1)).Nodup := hn.sublist (List.filter_sublist.map _)
  have hmap : (s.shown ms).map (fun m => Bean.memberKey m.1) =
      ((s.shown ms).map (·.1)).map Bean.memberKey := by rw [List.map_map]; rfl
  rw [hmap, List.nodup_map_iff_inj_on hshown]
  simp only [List.forall_mem_map, Clash]
  push Not
  exact forall₂_congr fun a _ => forall₂_congr fun b _ => ⟨fun h hne he => hne (h he),
    fun h he => by_contra fun hne => h hne he⟩

/-- **What is written of a value by its shape** repeats a key when members of one of its objects
get the same name, and else not. -/
theorem distinctKeys_plain (hv : v.DistinctKeys) :
    (s.plain v).DistinctKeys ↔ ¬ s.RepeatsByShape v := by
  induction hv with
  | null | bool | num | str =>
    refine iff_of_true (by rw [plain]; constructor) ?_
    rintro ⟨⟩
  | @arr items _ ih =>
    rw [plain, plainItems_eq, Json.distinctKeys_arr_iff, List.forall_mem_map]
    refine ⟨fun h hr => ?_, fun h w hw => (ih w hw).mpr fun hr => h (.item hw hr)⟩
    cases hr with
    | item hw hr => exact (ih _ hw).mp (h _ hw) hr
  | @obj ms hn _ ih =>
    cases hc : Json.lookup ms Host.optionalMarker with
    | some c =>
      rw [plain, plainContent?_eq, hc]
      refine (ih _ (Json.mem_of_lookup hc)).trans (not_congr ⟨.content hc, fun hr => ?_⟩)
      cases hr with
      | clash hc' | member hc' => cases hc.symm.trans hc'
      | content hc' hr =>
        cases hc.symm.trans hc'
        exact hr
    | none =>
      obtain ⟨named, hplain, hperm⟩ := plain_members (s := s) hc
      have hkeys := (hperm.map (·.1)).nodup_iff
      rw [List.map_map] at hkeys
      rw [hplain, Json.distinctKeys_obj_iff, hkeys]
      have hvalues : (∀ m ∈ named, m.2.DistinctKeys) ↔
          ∀ m ∈ s.shown ms, ¬ s.RepeatsByShape m.2 := by
        simp only [hperm.mem_iff, List.forall_mem_map]
        exact forall₂_congr fun m hm => ih m (List.mem_filter.mp hm).1
      rw [hvalues]
      refine (and_congr_left' (not_clash_iff hn)).trans ⟨fun h hr => ?_, fun h => ⟨fun hr => ?_,
        fun m hm hr => ?_⟩⟩
      · cases hr with
        | clash _ hr => exact h.1 hr
        | member _ hm hr => exact h.2 _ hm hr
        | content hc' => cases hc.symm.trans hc'
      · exact h (.clash hc hr)
      · exact h (.member hc hm hr)

/-! ## Values of declared type -/

variable (s) in
/-- Whether a value repeats a key when it is written as one of a declared type, or of unknown type:
because it is written by its shape and repeats one, or because a part of it does. -/
inductive Repeats : Json → Option TypeRef → Prop
  | shape {v : Json} {t? : Option TypeRef} : s.ByShape v t? → s.RepeatsByShape v → Repeats v t?
  | content {v c : Json} {t : TypeRef} : t.kind = .optional → Host.content v = .ok (some c) →
    Repeats c t.element? → Repeats v (some t)
  | element {v w : Json} {t : TypeRef} {items : List Json} :
    t.kind = .array ∨ t.kind = .collection → Host.elements v = .ok items → w ∈ items →
    Repeats w t.element? → Repeats v (some t)
  | entry {v : Json} {t : TypeRef} {es : Members} {m : String × Json} : t.kind = .map →
    Host.entries v = .ok es → m ∈ es → Repeats m.2 t.value? → Repeats v (some t)
  | property {v w : Json} {n : ClassName} {i : Inspection} {p : Property} :
    (TypeRef.cls n).kind = .plainClass → n.text ∉ Platform.strings → n.text ∉ Platform.dates →
    s.instanceDescription? v n = some (.instance i) → p ∈ s.properties i →
    Host.property v p.accessor = .ok w → Repeats w (some p.type) → Repeats v (some (.cls n))

theorem Repeats.isNull (h : s.Repeats v t?) : v.isNull = false := by
  cases v with
  | null =>
    cases h with
    | shape _ h | content _ h | element _ h | entry _ h => cases h
    | property _ _ _ _ _ h =>
      obtain ⟨_, hread⟩ := Host.property_eq _
      rw [hread] at h
      cases h
  | _ => rfl

theorem repeats_none_iff : s.Repeats v none ↔ s.RepeatsByShape v :=
  ⟨fun h => by cases h; assumption, .shape .unknown⟩

/-- Where a value of a declared type repeats a key, by the kind of the type. -/
theorem repeats_iff : s.Repeats v (some t) ↔
    match t.kind with
    | .primitive | .boxed => False
    | .optional => ∃ c, Host.content v = .ok (some c) ∧ s.Repeats c t.element?
    | .array | .collection => ∃ items, Host.elements v = .ok items ∧
      ∃ w ∈ items, s.Repeats w t.element?
    | .map => ∃ es, Host.entries v = .ok es ∧ ∃ m ∈ es, s.Repeats m.2 t.value?
    | .plainClass => ∃ n, t = .cls n ∧ n.text ∉ Platform.strings ∧ n.text ∉ Platform.dates ∧
      (s.instanceDescription? v n = none ∧ s.RepeatsByShape v ∨
        ∃ i, s.instanceDescription? v n = some (.instance i) ∧ ∃ p ∈ s.properties i,
          ∃ w, Host.property v p.accessor = .ok w ∧ s.Repeats w (some p.type))
    | .generic | .unresolved => s.RepeatsByShape v := by
  constructor
  · intro h
    cases h with
    | shape hs hr =>
      cases hs with
      | untyped hk => rcases hk with hk | hk <;> rw [hk] <;> exact hr
      | undescribed hk hn hd hi =>
        rw [hk]
        exact ⟨_, rfl, hn, hd, .inl ⟨hi, hr⟩⟩
    | content hk hc hr =>
      rw [hk]
      exact ⟨_, hc, hr⟩
    | element hk hi hw hr => rcases hk with hk | hk <;> rw [hk] <;> exact ⟨_, hi, _, hw, hr⟩
    | entry hk he hm hr =>
      rw [hk]
      exact ⟨_, he, _, hm, hr⟩
    | property hk hn hd hi hp hw hr =>
      rw [hk]
      exact ⟨_, rfl, hn, hd, .inr ⟨_, hi, _, hp, _, hw, hr⟩⟩
  · cases hk : t.kind with
    | primitive | boxed => exact False.elim
    | optional => exact fun ⟨_, hc, hr⟩ => .content hk hc hr
    | array => exact fun ⟨_, hi, _, hw, hr⟩ => .element (.inl hk) hi hw hr
    | collection => exact fun ⟨_, hi, _, hw, hr⟩ => .element (.inr hk) hi hw hr
    | map => exact fun ⟨_, he, _, hm, hr⟩ => .entry hk he hm hr
    | plainClass =>
      rintro ⟨n, rfl, hn, hd, ⟨hi, hr⟩ | ⟨i, hi, p, hp, w, hw, hr⟩⟩
      · exact .shape (.undescribed hk hn hd hi) hr
      · exact .property hk hn hd hi hp hw hr
    | generic => exact .shape (.untyped (.inl hk))
    | unresolved => exact .shape (.untyped (.inr hk))

theorem not_repeats_of_isAbsent (h : isAbsent t v = .ok true) : ¬ s.Repeats v (some t) := by
  intro hr
  rw [isAbsent, if_neg (by simp [hr.isNull])] at h
  split_ifs at h with hk
  · rw [repeats_iff, hk] at hr
    obtain ⟨c, hc, -⟩ := hr
    rw [hc] at h
    cases h
  · cases h

variable (s) in
/-- Whether a property of an instance repeats a key. -/
def RepeatsIn (v : Json) (p : Property) : Prop :=
  ∃ w, Host.property v p.accessor = .ok w ∧ s.Repeats w (some p.type)

theorem keyed_membersOf {p : Property} {value : Json → Except Fault Json}
    (hvalue : ∀ w, Host.property v p.accessor = .ok w → ∀ j, value w = .ok j →
      (j.DistinctKeys ↔ ¬ s.Repeats w (some p.type)))
    (h : membersOf v p (fun w _ => value w) = .ok ms) :
    Json.Keyed Property.key (s.RepeatsIn v) [p] ms := by
  rw [membersOf_eq] at h
  obtain ⟨w, hw, h⟩ := exists_of_bind h
  obtain ⟨absent, ha, h⟩ := exists_of_bind h
  have hbad : ¬ s.RepeatsIn v p ↔ ¬ s.Repeats w (some p.type) := by simp [RepeatsIn, hw]
  have hgone : absent = true → ¬ s.RepeatsIn v p := by
    rintro rfl
    exact hbad.mpr (not_repeats_of_isAbsent ha)
  split_ifs at h with habsent hn
  · cases h
    exact .member (iff_of_true .null (hgone (Bool.and_eq_true_iff.mp habsent).1)) .nil
  · cases h
    exact .without (hgone (Bool.and_eq_true_iff.mp habsent).1) .nil
  · obtain ⟨j, hj, rfl⟩ := exists_of_map h
    exact .member ((hvalue w hw j hj).trans hbad.symm) .nil

theorem distinctKeys_documentInstance {i : Inspection} (hv : v.DistinctKeys)
    (ih : ∀ w : Json, w.size < v.size → w.DistinctKeys → ∀ u b? j,
      s.document w (some u) b? = .ok j → (j.DistinctKeys ↔ ¬ s.Repeats w (some u)))
    (h : s.documentInstance v i = .ok j) :
    j.DistinctKeys ↔ ∀ p ∈ s.properties i, ¬ s.RepeatsIn v p := by
  have hmembers : ∀ {j : Json}, (assemble (s.properties i) fun p _ => membersOf v p fun w _ =>
        s.document w (some p.type) (some p.annotations)).map Json.obj = .ok j →
      (j.DistinctKeys ↔ ∀ p ∈ s.properties i, ¬ s.RepeatsIn v p) := by
    intro j h
    obtain ⟨ms, hms, rfl⟩ := exists_of_map h
    have hkeyed := keyed_of_assemble hms fun p _ _ => keyed_membersOf fun w hw j hj =>
      ih w (Host.size_of_property hw) (Host.distinctKeys_property hv hw) _ _ j hj
    exact hkeyed.distinctKeys (Inspection.nodup_keys i s.settings)
  rw [documentInstance] at h
  cases hc : i.concrete? with
  | none =>
    rw [hc] at h
    exact hmembers h
  | some concrete =>
    rw [hc] at h
    obtain ⟨_, -, h⟩ := exists_of_bind h
    exact hmembers h

theorem distinctKeys_documentClass (hk : (TypeRef.cls n).kind = .plainClass) (hv : v.DistinctKeys)
    (ih : ∀ w : Json, w.size < v.size → w.DistinctKeys → ∀ u b? j,
      s.document w (some u) b? = .ok j → (j.DistinctKeys ↔ ¬ s.Repeats w (some u)))
    (h : s.documentClass v n a? = .ok j) :
    j.DistinctKeys ↔ ¬ s.Repeats v (some (.cls n)) := by
  rw [repeats_iff, hk]
  dsimp only
  rw [documentClass] at h
  split_ifs at h with hs hd
  · obtain ⟨e, -, rfl⟩ := exists_of_map h
    refine iff_of_true (Json.distinctKeys_event e) ?_
    rintro ⟨_, ⟨⟩, hn, -⟩
    exact hn hs
  · obtain ⟨_, -, h⟩ := exists_of_bind h
    obtain ⟨e, -, rfl⟩ := exists_of_map h
    refine iff_of_true (Json.distinctKeys_event e) ?_
    rintro ⟨_, ⟨⟩, -, hn, -⟩
    exact hn hd
  · cases hi : s.instanceDescription? v n with
    | none =>
      rw [hi] at h
      cases h
      rw [distinctKeys_plain hv]
      simp [hs, hd, hi]
    | some d =>
      rw [hi] at h
      cases d with
      | enum =>
        obtain ⟨e, -, rfl⟩ := exists_of_map h
        refine iff_of_true (Json.distinctKeys_event e) ?_
        rintro ⟨_, ⟨⟩, -, -, ⟨hn, -⟩ | ⟨i, hn, -⟩⟩ <;> cases hi.symm.trans hn
      | «instance» i =>
        rw [distinctKeys_documentInstance hv ih h]
        simp [hs, hd, hi, RepeatsIn]

/-- **The document of a value repeats a key** just when the value is written by its shape somewhere
within, and repeats one there. -/
theorem distinctKeys_document (hv : v.DistinctKeys) (h : s.document v t? a? = .ok j) :
    j.DistinctKeys ↔ ¬ s.Repeats v t? := by
  induction hn : v.size using Nat.strongRecOn generalizing v t? a? j with
  | ind k ih =>
    subst hn
    cases t? with
    | none =>
      rw [document.eq_def] at h
      cases h
      rw [repeats_none_iff, distinctKeys_plain hv]
    | some t =>
      cases hnull : v.isNull with
      | true =>
        rw [document_null hnull] at h
        split_ifs at h
        cases h
        exact iff_of_true .null fun hr => by simp [hr.isNull] at hnull
      | false =>
        rw [document_eq hnull] at h
        rw [repeats_iff]
        cases hk : t.kind with
        | primitive | boxed =>
          rw [hk] at h
          obtain ⟨e, -, rfl⟩ := exists_of_map h
          exact iff_of_true (Json.distinctKeys_event e) not_false
        | optional =>
          rw [hk] at h
          obtain ⟨c?, hc, h⟩ := exists_of_bind h
          cases c? with
          | none =>
            cases h
            refine iff_of_true .null ?_
            rintro ⟨c, hc', -⟩
            cases hc.symm.trans hc'
          | some c =>
            have hpart := ih c.size (Host.size_of_content hc) (Host.distinctKeys_content hv hc) h
              rfl
            simpa [hc] using hpart
        | array | collection =>
          rw [hk] at h
          obtain ⟨items, hi, h⟩ := exists_of_bind h
          obtain ⟨js, hjs, rfl⟩ := exists_of_map h
          have hitems : (Json.arr js).DistinctKeys ↔ ∀ w ∈ items, ¬ s.Repeats w t.element? := by
            refine Json.distinctKeys_items (forall₂_of_assemble hjs fun w hw b hb => ?_)
            obtain ⟨j, hj, rfl⟩ := exists_of_map hb
            exact ⟨j, rfl, ih w.size (Host.size_of_elements hi hw)
              (Host.distinctKeys_elements hv hi w hw) hj rfl⟩
          simpa [hi] using hitems
        | map =>
          rw [hk] at h
          obtain ⟨es, he, h⟩ := exists_of_bind h
          obtain ⟨ms, hms, rfl⟩ := exists_of_map h
          have hentries := Host.distinctKeys_entries hv he
          have hkeyed : Json.Keyed (·.1) (fun m => s.Repeats m.2 t.value?) es ms := by
            refine keyed_of_assemble hms fun m hm b hb => ?_
            obtain ⟨j, hj, rfl⟩ := exists_of_map hb
            exact .member (ih m.2.size (Host.size_of_entries he hm) (hentries.2 m hm) hj rfl) .nil
          simpa [he] using hkeyed.distinctKeys hentries.1
        | plainClass =>
          rw [hk] at h
          obtain ⟨n, rfl⟩ := exists_cls_of_plainClass hk
          have hclass := distinctKeys_documentClass hk hv
            (fun w hw hd u b? j hj => ih w.size hw hd hj rfl) h
          rwa [repeats_iff, hk] at hclass
        | generic | unresolved =>
          rw [hk] at h
          cases h
          exact distinctKeys_plain hv

end Schema

end JsonBinding
