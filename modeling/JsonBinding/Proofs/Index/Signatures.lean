import JsonBinding.Index.Document
import JsonBinding.Proofs.Index.Annotations
import JsonBinding.Proofs.TypeRef.Signature

/-!
# Signatures in an index

The types in an index that is read from a document are those that signatures denote, except that
type variables stand in the members of a class for the classes named like its type parameters.

* `Json.Decoder.Yields`: what holds of everything that is read.
* `Index.Loaded`: an index that is read from a text or from a JSON value.
* `IndexDocument.Legible`, **`Index.Loaded.exists_document`**: the document behind such an index.
* `TypeRef.bindParameters_of_closed`: where no type variable was put, nothing has changed.
* **`Index.Loaded.legible`**: the type of a property is one that a signature denotes, unless a type
  variable or a wildcard occurs in it.
-/

namespace JsonBinding

namespace Json.Decoder

variable {α : Type} {P : α → Prop} {levels : Nat}

/-- Whether something holds of everything that is read. -/
def Yields (value : Decoder α) (P : α → Prop) : Prop :=
  ∀ levels d a, value levels d = some a → P a

theorem Yields.textWith {f : String → Option α} (h : ∀ s a, f s = some a → P a) :
    Yields (textWith f) P := by
  intro levels d a hd
  obtain ⟨s, -, hs⟩ := Option.bind_eq_some_iff.mp hd
  exact h s a hs

theorem Yields.mapM {item : Decoder α} (h : Yields item P) (levels : Nat) {ds : List Draft}
    {as : List α} (hds : ds.mapM (item levels) = some as) : ∀ a ∈ as, P a := by
  induction ds generalizing as with
  | nil =>
    cases hds
    exact List.forall_mem_nil _
  | cons d ds ih =>
    rw [List.mapM_cons] at hds
    obtain ⟨a, ha, hds⟩ := Option.bind_eq_some_iff.mp hds
    obtain ⟨rest, hrest, hds⟩ := Option.bind_eq_some_iff.mp hds
    cases hds
    exact List.forall_mem_cons.mpr ⟨h levels d a ha, ih hrest⟩

theorem Yields.list {item : Decoder α} (h : Yields item P) :
    Yields (list item) fun as => ∀ a ∈ as, P a := by
  intro levels d as hd
  cases levels with
  | zero => cases d <;> cases hd
  | succ levels =>
    cases d with
    | array items =>
      exact h.mapM levels hd
    | _ => cases hd

theorem Yields.field {value : Decoder α} (h : Yields value P) {default? : Option α}
    (hd : ∀ a, default? = some a → P a) {d? : Option Draft} {a : α}
    (ha : field levels value default? d? = some a) : P a := by
  cases d? with
  | none => exact hd a ha
  | some d => exact h levels d a ha

theorem Yields.listField {item : Decoder α} (h : Yields item P) {d? : Option Draft} {as : List α}
    (ha : Decoder.field levels (Decoder.list item) (some []) d? = some as) : ∀ a ∈ as, P a :=
  h.list.field (fun _ he => by cases he; exact List.forall_mem_nil _) ha

end Json.Decoder

open Json.Decoder

/-! ## Documents -/

theorem TypeRef.yields_decoder : Yields TypeRef.decoder TypeRef.Legible :=
  .textWith fun s t h => by
    cases ht : TypeRef.ofText s with
    | error e => rw [ht] at h; cases h
    | ok u =>
      rw [ht] at h
      cases h
      exact TypeRef.legible_ofText ht

theorem Method.yields_decoder : Yields Method.decoder fun m => m.result.Legible := by
  intro levels d m h
  rw [Method.decoder] at h
  split at h
  · obtain ⟨name, -, h⟩ := Option.bind_eq_some_iff.mp h
    obtain ⟨result, hresult, h⟩ := Option.bind_eq_some_iff.mp h
    obtain ⟨parameters, -, h⟩ := Option.bind_eq_some_iff.mp h
    obtain ⟨visibility, -, h⟩ := Option.bind_eq_some_iff.mp h
    obtain ⟨isStatic, -, h⟩ := Option.bind_eq_some_iff.mp h
    obtain ⟨annotations, -, h⟩ := Option.bind_eq_some_iff.mp h
    cases h
    refine TypeRef.yields_decoder.field (fun t ht => ?_) hresult
    cases ht
    exact .prim _
  · cases h

theorem Field.yields_decoder : Yields Field.decoder fun f => f.type.Legible := by
  intro levels d f h
  rw [Field.decoder] at h
  split at h
  · obtain ⟨name, -, h⟩ := Option.bind_eq_some_iff.mp h
    obtain ⟨type, htype, h⟩ := Option.bind_eq_some_iff.mp h
    obtain ⟨visibility, -, h⟩ := Option.bind_eq_some_iff.mp h
    obtain ⟨isStatic, -, h⟩ := Option.bind_eq_some_iff.mp h
    obtain ⟨isTransient, -, h⟩ := Option.bind_eq_some_iff.mp h
    obtain ⟨annotations, -, h⟩ := Option.bind_eq_some_iff.mp h
    cases h
    exact TypeRef.yields_decoder.field (fun _ ht => by cases ht) htype
  · cases h

/-- Whether the types of the members of a class are those that signatures denote. -/
structure ClassInfo.Legible (c : ClassInfo) : Prop where
  methods : ∀ m ∈ c.methods, m.result.Legible
  fields : ∀ f ∈ c.fields, f.type.Legible

theorem ClassInfo.yields_decoder : Yields ClassInfo.decoder ClassInfo.Legible := by
  intro levels d c h
  rw [ClassInfo.decoder] at h
  split at h
  · obtain ⟨name, -, h⟩ := Option.bind_eq_some_iff.mp h
    obtain ⟨kind, -, h⟩ := Option.bind_eq_some_iff.mp h
    obtain ⟨isAbstract, -, h⟩ := Option.bind_eq_some_iff.mp h
    obtain ⟨superclass, -, h⟩ := Option.bind_eq_some_iff.mp h
    obtain ⟨interfaces, -, h⟩ := Option.bind_eq_some_iff.mp h
    obtain ⟨typeParameters, -, h⟩ := Option.bind_eq_some_iff.mp h
    obtain ⟨annotations, -, h⟩ := Option.bind_eq_some_iff.mp h
    obtain ⟨methods, hmethods, h⟩ := Option.bind_eq_some_iff.mp h
    obtain ⟨fields, hfields, h⟩ := Option.bind_eq_some_iff.mp h
    cases h
    exact ⟨Method.yields_decoder.listField hmethods, Field.yields_decoder.listField hfields⟩
  · cases h

theorem Endpoint.yields_decoder : Yields Endpoint.decoder fun e => e.result.Legible := by
  intro levels d e h
  rw [Endpoint.decoder] at h
  split at h
  · obtain ⟨name, -, h⟩ := Option.bind_eq_some_iff.mp h
    obtain ⟨result, hresult, h⟩ := Option.bind_eq_some_iff.mp h
    cases h
    exact TypeRef.yields_decoder.field (fun _ ht => by cases ht) hresult
  · cases h

/-- Whether the types in a document are those that signatures denote. -/
structure IndexDocument.Legible (doc : IndexDocument) : Prop where
  classes : ∀ c ∈ doc.classes, c.Legible
  endpoints : ∀ e ∈ doc.endpoints, e.result.Legible

theorem IndexDocument.yields_decoder : Yields IndexDocument.decoder IndexDocument.Legible := by
  intro levels d doc h
  rw [IndexDocument.decoder] at h
  split at h
  · obtain ⟨classes, hclasses, h⟩ := Option.bind_eq_some_iff.mp h
    obtain ⟨packages, -, h⟩ := Option.bind_eq_some_iff.mp h
    obtain ⟨endpoints, hendpoints, h⟩ := Option.bind_eq_some_iff.mp h
    obtain ⟨handlers, -, h⟩ := Option.bind_eq_some_iff.mp h
    cases h
    exact ⟨ClassInfo.yields_decoder.listField hclasses,
      Endpoint.yields_decoder.listField hendpoints⟩
  · cases h

namespace Index

variable {ix : Index}

/-- Whether an index is read from a text or from a JSON value. -/
inductive Loaded (ix : Index) : Prop
  | text {s : String} : ofText s = .ok ix → Loaded ix
  | json {v : Json} : ofJson v = .ok ix → Loaded ix

/-- **An index that is read has a document behind it**, the types of which signatures denote. -/
theorem Loaded.exists_document (h : ix.Loaded) :
    ∃ doc : IndexDocument, doc.Legible ∧ ix.classes = doc.classes.map ClassInfo.resolved ∧
      ix.endpoints = doc.endpoints := by
  have describes {doc : IndexDocument} (h : ofDocument doc = .ok ix) :
      ix.classes = doc.classes.map ClassInfo.resolved ∧ ix.endpoints = doc.endpoints := by
    rw [ofDocument] at h
    split at h
    · cases h
    · cases h
      exact ⟨rfl, rfl⟩
  cases h with
  | @text s h =>
    rw [ofText] at h
    cases hd : ofText? IndexDocument.decoder s with
    | none => rw [hd] at h; cases h
    | some doc =>
      rw [hd] at h
      obtain ⟨d, -, hvalue⟩ := Option.bind_eq_some_iff.mp hd
      exact ⟨doc, IndexDocument.yields_decoder _ _ _ hvalue, describes h⟩
  | @json v h =>
    rw [ofJson] at h
    cases hd : ofJson? IndexDocument.decoder v with
    | none => rw [hd] at h; cases h
    | some doc =>
      rw [hd] at h
      exact ⟨doc, IndexDocument.yields_decoder _ _ _ hd, describes h⟩

end Index

/-! ## Type variables -/

mutual

/-- A type without type variables and wildcards is the one that it was made from. -/
theorem TypeRef.bindParameters_of_closed {parameters : List String} (t : TypeRef)
    (h : (t.bindParameters parameters).isOpen = false) : t.bindParameters parameters = t := by
  match t with
  | .cls n =>
    rw [bindParameters] at h ⊢
    split_ifs at h ⊢
    · cases h
    · rfl
  | .array c => rw [bindParameters, bindParameters_of_closed c h]
  | .app raw args => rw [bindParameters, bindAll_of_closed args h]
  | .prim _ | .var _ | .wildcard => rfl

theorem TypeRef.bindAll_of_closed {parameters : List String} (ts : List TypeRef)
    (h : TypeRef.anyOpen (TypeRef.bindAll parameters ts) = false) :
    TypeRef.bindAll parameters ts = ts := by
  match ts with
  | [] => rfl
  | t :: ts =>
    rw [bindAll, anyOpen, Bool.or_eq_false_iff] at h
    rw [bindAll, bindParameters_of_closed t h.1, bindAll_of_closed ts h.2]

end

theorem TypeRef.Legible.bindParameters {parameters : List String} {t : TypeRef} (h : t.Legible)
    (hclosed : (t.bindParameters parameters).isOpen = false) :
    (t.bindParameters parameters).Legible := by
  rwa [bindParameters_of_closed t hclosed]

namespace Index

variable {ix : Index} {c : ClassInfo} {p : Property}

theorem Loaded.exists_resolved (h : ix.Loaded) (hc : c ∈ ix.classes) :
    ∃ d : ClassInfo, d.Legible ∧ c = d.resolved := by
  obtain ⟨doc, hdoc, hclasses, -⟩ := h.exists_document
  rw [hclasses] at hc
  obtain ⟨d, hd, rfl⟩ := List.mem_map.mp hc
  exact ⟨d, hdoc.classes d hd, rfl⟩

theorem Loaded.legible_method (h : ix.Loaded) (hc : c ∈ ix.classes) {m : Method}
    (hm : m ∈ c.methods) (hclosed : m.result.isOpen = false) : m.result.Legible := by
  obtain ⟨d, hd, rfl⟩ := h.exists_resolved hc
  obtain ⟨m', hm', rfl⟩ := List.mem_map.mp hm
  exact (hd.methods m' hm').bindParameters hclosed

theorem Loaded.legible_field (h : ix.Loaded) (hc : c ∈ ix.classes) {f : Field}
    (hf : f ∈ c.fields) (hclosed : f.type.isOpen = false) : f.type.Legible := by
  obtain ⟨d, hd, rfl⟩ := h.exists_resolved hc
  obtain ⟨f', hf', rfl⟩ := List.mem_map.mp hf
  exact (hd.fields f' hf').bindParameters hclosed

/-- **The type of a property is one that a signature denotes**, unless a type variable or a wildcard
occurs in it. -/
theorem Loaded.legible {settings : Settings} (h : ix.Loaded) (hc : c ∈ ix.classes)
    (hp : p ∈ (ix.inspect c).properties settings) (hclosed : p.type.isOpen = false) :
    p.type.Legible := by
  obtain ⟨t, -, ⟨g, rfl, ⟨d, hd, hg⟩, -⟩ | ⟨f, rfl, d, hd, hf⟩⟩ :=
    exists_member_of_mem_properties hc hp
  · exact h.legible_method hd hg hclosed
  · exact h.legible_field hd hf hclosed

end Index

end JsonBinding
