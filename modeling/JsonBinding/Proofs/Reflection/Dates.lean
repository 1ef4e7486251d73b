import JsonBinding.Proofs.Json.Quoted
import JsonBinding.Proofs.Program.Kinds
import JsonBinding.Proofs.Reflection.Document

/-!
# Dates in documents

Of the annotations of a property only the date format bears on its value, and that only on the dates
that its type holds as such.

* `TypeRef.HoldsDates`: types whose elements and values come to dates.
* `Schema.dateText`: the text of a date under the annotations of a property.
* `document_alike`: values have the same documents under two formats that write all dates alike.
* `exists_dated`: a type that holds dates has values in whose documents a date shows.
* **`written_alike_iff`**: when values of a type are written alike under two formats.
-/

namespace JsonBinding

/-- Whether a type holds dates as elements or values, through any number of containers. -/
inductive TypeRef.HoldsDates : TypeRef → Prop
  | date {n : ClassName} : n.text ∈ Platform.dates → HoldsDates (.cls n)
  | element {t u : TypeRef} : t.element? = some u → HoldsDates u → HoldsDates t
  | value {t u : TypeRef} : t.value? = some u → HoldsDates u → HoldsDates t

namespace Schema

variable {s : Schema} {v : Json} {t u : TypeRef} {a? b? : Option AnnotationSet}

variable (s) in
/-- The text of a date under the annotations of a property. -/
def dateText (a? : Option AnnotationSet) (text : String) : Option String :=
  (do (← s.dateFormat a?).apply text : Except Fault String).toOption

theorem strings_dates_apart : ∀ x ∈ Platform.dates, x ∉ Platform.boxed ∧ x ∉ Platform.strings := by
  decide

theorem document_date {n : ClassName} (hn : n.text ∈ Platform.dates) (hv : v.isNull = false) :
    s.document v (some (.cls n)) a? = (do
      let format ← s.dateFormat a?
      (Host.date v format).map Json.Event.value) := by
  obtain ⟨hb, hs⟩ := strings_dates_apart _ hn
  rw [document_eq hv, kind_plainClass hb (dates_apart _ hn)]
  show s.documentClass v n a? = _
  rw [documentClass, if_neg hs, if_pos hn]

theorem toOption_date (v : Json) : (do
      let format ← s.dateFormat a?
      (Host.date v format).map Json.Event.value : Except Fault Json).toOption =
    v.string?.bind fun text => (s.dateText a? text).map Json.str := by
  cases v with
  | str text =>
    show _ = (s.dateText a? text).map Json.str
    rw [dateText]
    cases s.dateFormat a? with
    | error f => rfl
    | ok format =>
      show (((format.apply text).map Json.Event.string).map Json.Event.value).toOption =
        (format.apply text).toOption.map Json.str
      cases format.apply text <;> rfl
  | _ => cases s.dateFormat a? <;> rfl

/-- **Values have the same documents under two formats that write dates alike**, as far as their
type holds dates. -/
theorem document_alike {t? : Option TypeRef} (h : ∀ t ∈ t?, t.HoldsDates →
    ∀ text, s.dateText a? text = s.dateText b? text) :
    (s.document v t? a?).toOption = (s.document v t? b?).toOption := by
  induction hn : v.size using Nat.strongRecOn generalizing v t? with
  | ind k ih =>
    subst hn
    cases t? with
    | none => rw [document.eq_def, document.eq_def s v none b?]
    | some t =>
      cases hv : v.isNull with
      | true => rw [document_null hv, document_null hv]
      | false =>
        have hpart : ∀ w : Json, w.size < v.size → ∀ u?, (∀ u ∈ u?, u.HoldsDates → t.HoldsDates) →
            (s.document w u? a?).toOption = (s.document w u? b?).toOption :=
          fun w hw u? hu => ih w.size hw (fun u hu' hd => h t rfl (hu u hu' hd)) rfl
        rw [document_eq hv, document_eq hv]
        cases hk : t.kind with
        | optional =>
          rcases hc : Host.content v with f | _ | c
          · rfl
          · rfl
          · exact hpart c (Host.size_of_content hc) t.element? fun u hu => .element hu
        | array | collection =>
          rcases hi : Host.elements v with f | items
          · rfl
          · refine map_alike (assemble_alike fun j hj => map_alike ?_ _) _
            exact hpart j (Host.size_of_elements hi hj) t.element? fun u hu => .element hu
        | map =>
          rcases hi : Host.entries v with f | members
          · rfl
          · refine map_alike (assemble_alike fun m hm => map_alike ?_ _) _
            exact hpart m.2 (Host.size_of_entries hi hm) t.value? fun u hu => .value hu
        | plainClass =>
          cases t with
          | cls n =>
            show (s.documentClass v n a?).toOption = (s.documentClass v n b?).toOption
            rw [documentClass, documentClass]
            split_ifs with hs hd
            · rfl
            · rw [toOption_date, toOption_date]
              simp only [h _ rfl (.date hd)]
            · rfl
          | _ => rfl
        | _ => rfl

/-! ## Values with a date -/

theorem kind_of_element? (h : t.element? = some u) :
    t.kind = .array ∨ t.kind = .collection ∨ t.kind = .optional := by
  cases t with
  | array c => exact .inl rfl
  | app raw args =>
    rw [TypeRef.element?] at h
    split_ifs at h with hk
    exact .inr hk
  | cls n =>
    rw [TypeRef.element?] at h
    by_cases hk : (TypeRef.cls n).kind = .optional
    · exact .inr (.inr hk)
    · rw [if_neg hk] at h
      cases h
  | prim _ | var _ | wildcard => cases h

theorem content_of_optional (hv : v.isNull = false) :
    Host.content (.obj [(Host.optionalMarker, v)]) = .ok (some v) := by
  cases v with
  | null => cases hv
  | _ => rfl

theorem toOption_entries {key : String} (hu : t.value? = some u) :
    (s.document (.obj [(key, v)]) (some t) a?).toOption =
      (s.document v (some u) a?).toOption.map fun j => .obj [(key, j)] := by
  rw [document_eq rfl, kind_of_value? hu]
  show ((assemble [(key, v)] fun m _ =>
    (s.document m.2 t.value? a?).map fun j => [(m.1, j)]).map Json.obj).toOption = _
  rw [hu, toOption_map, toOption_assemble_singleton, toOption_map, Option.map_map]
  rfl

/-- Whether documents show their dates as texts in a place that is the same for all of them. -/
def Shows {ι : Type} (documents : ι → Option Json) (dates : ι → Option String) : Prop :=
  ∃ before behind, ∀ i,
    (documents i).map Json.text = (dates i).map fun shown => before ++ Json.quoted shown ++ behind

theorem Shows.within {ι : Type} {documents whole : ι → Option Json} {dates : ι → Option String}
    {start last : String} {wrap : Json → Json} (h : Shows documents dates)
    (hw : ∀ j, (wrap j).text = start ++ j.text ++ last)
    (hwhole : ∀ i, whole i = (documents i).map wrap) : Shows whole dates := by
  obtain ⟨before, behind, hdoc⟩ := h
  refine ⟨start ++ before, behind ++ last, fun i => ?_⟩
  have hmap : ((documents i).map wrap).map Json.text =
      ((documents i).map Json.text).map fun r => start ++ r ++ last := by
    rw [Option.map_map, Option.map_map]
    exact congrArg (Option.map · (documents i)) (funext hw)
  rw [hwhole, hmap, hdoc, Option.map_map]
  simp [Function.comp_def, String.append_assoc]

/-- A type that holds dates has values in whose documents a date shows, whatever its text is. -/
theorem exists_dated (h : t.HoldsDates) (text : String) :
    ∃ v : Json, v.isNull = false ∧
      Shows (fun a? => (s.document v (some t) a?).toOption) fun a? => s.dateText a? text := by
  induction h with
  | @date n hn =>
    refine ⟨.str text, rfl, "", "", fun a? => ?_⟩
    dsimp only
    rw [document_date hn rfl, toOption_date]
    simp [Json.string?, Json.text, Function.comp_def]
  | @element t u hu _ ih =>
    obtain ⟨v, hv, hshows⟩ := ih
    have htext : ∀ j : Json, (Json.arr [j]).text = "[" ++ j.text ++ "]" := fun j => by
      rw [Json.text, Json.itemsText]
    rcases kind_of_element? hu with hk | hk | hk
    · exact ⟨.arr [v], rfl, hshows.within htext fun a? => toOption_items (.inl hk) hu⟩
    · exact ⟨.arr [v], rfl, hshows.within htext fun a? => toOption_items (.inr hk) hu⟩
    · refine ⟨.obj [(Host.optionalMarker, v)], rfl, ?_⟩
      have hopen : ∀ a?, s.document (.obj [(Host.optionalMarker, v)]) (some t) a? =
          s.document v (some u) a? := fun a? => by
        rw [document_eq rfl, hk]
        simp only [content_of_optional hv, hu]
        rfl
      simpa only [hopen] using hshows
  | @value t u hu _ ih =>
    obtain ⟨v, hv, hshows⟩ := ih
    have htext : ∀ j : Json, (Json.obj [("", j)]).text =
        "\x7b" ++ Json.quoted "" ++ ":" ++ j.text ++ "\x7d" := fun j => by
      rw [Json.text, Json.membersText]
      simp [String.append_assoc]
    exact ⟨.obj [("", v)], rfl, hshows.within htext fun a? => toOption_entries hu⟩

theorem Shows.injective {ι : Type} {documents : ι → Option Json} {dates : ι → Option String}
    (h : Shows documents dates) {i j : ι}
    (hij : (documents i).map Json.text = (documents j).map Json.text) : dates i = dates j := by
  obtain ⟨before, behind, hdoc⟩ := h
  refine Option.map_injective (fun a b hab => ?_) ((hdoc i).symm.trans (hij.trans (hdoc j)))
  have hab : before ++ Json.quoted a ++ behind = before ++ Json.quoted b ++ behind := hab
  have hab := congrArg String.toList hab
  simp only [String.toList_append, List.append_cancel_right_eq, List.append_cancel_left_eq,
    String.toList_inj] at hab
  exact Json.quoted_injective hab

/-- **Values are written alike under two formats just when these write dates alike**, or when the
type of the values holds no dates. -/
theorem written_alike_iff :
    (∀ (v : Json) text, (s.reflect v t a?).written.1 = .complete text ↔
      (s.reflect v t b?).written.1 = .complete text) ↔
    (t.HoldsDates → ∀ text, s.dateText a? text = s.dateText b? text) := by
  simp only [written_complete_iff]
  constructor
  · intro hdoc ht text
    obtain ⟨v, -, hshows⟩ := exists_dated (s := s) ht text
    exact hshows.injective (Option.ext (hdoc v))
  · intro h v text
    rw [document_alike fun u hu => by cases hu; exact h]

end Schema

end JsonBinding
