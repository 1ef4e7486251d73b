import JsonBinding.Host
import JsonBinding.TypeRef.Signature

/-!
# Faults of host values

* `Fault.FromHost`: the faults that a host value may cause by its shape, by the class that it names
  or by its dates.
* `FromHost.cases`: such a fault in its wording; it tells of no misuse of the writer, and of no
  local or function that is missing.
-/

namespace JsonBinding

open Host in
/-- The faults that reading or writing a host value may end in: one a helper, null where the type
has none, and a date format that is none. -/
inductive Fault.FromHost : Fault → Prop
  | property {v : Json} {a : Accessor} {f : Fault} : property v a = .error f → FromHost f
  | cast {v : Json} {name : ClassName} {f : Fault} : cast v name = .error f → FromHost f
  | content {v : Json} {f : Fault} : content v = .error f → FromHost f
  | elements {v : Json} {f : Fault} : elements v = .error f → FromHost f
  | entries {v : Json} {f : Fault} : entries v = .error f → FromHost f
  | scalar {v : Json} {form : ScalarForm} {f : Fault} : scalar v form = .error f → FromHost f
  | date {v : Json} {format : DateFormat} {f : Fault} : date v format = .error f → FromHost f
  | null {v : Json} {t : TypeRef} : v.isNull = true → t.isPrimitive = true →
    FromHost (.shape s!"a `{t}` value" v)
  | pattern {text : String} {f : Fault} : DateFormat.ofText text = .error f → FromHost f

namespace Host

variable {v : Json} {f : Fault}

theorem member_error {expected name : String} (h : member expected v name = .error f) :
    f = .shape expected v := by
  unfold member at h
  split at h <;> cases h
  rfl

theorem cast_error {name : ClassName} (h : cast v name = .error f) :
    ∃ actual, f = .wrongClass actual name.text := by
  unfold cast at h
  split at h
  · split at h <;> cases h
    exact ⟨_, rfl⟩
  · cases h

theorem content_error (h : content v = .error f) : f = .shape "an optional" v := by
  unfold content at h
  split at h <;> cases h
  rfl

theorem elements_error (h : elements v = .error f) : f = .shape "a collection" v := by
  unfold elements at h
  split at h <;> cases h
  rfl

theorem entries_error (h : entries v = .error f) : f = .shape "a map" v := by
  unfold entries at h
  split at h <;> cases h
  rfl

theorem scalar_error {form : ScalarForm} (h : scalar v form = .error f) :
    f = .shape (expectedScalar form) v := by
  unfold scalar at h
  split at h <;> cases h
  rfl

theorem date_error {format : DateFormat} (h : date v format = .error f) :
    f = .shape "a date string" v ∨ ∃ text, f = .notADate text ∨
      ∃ pattern, f = .dateMismatch pattern text := by
  unfold date at h
  split at h
  · rename_i text
    cases ht : format.apply text with
    | ok => rw [ht] at h; cases h
    | error e =>
      rw [ht] at h
      cases h
      unfold DateFormat.apply at ht
      split at ht
      · cases ht
      · split at ht
        · cases ht
          exact .inr ⟨text, .inl rfl⟩
        · split at ht <;> cases ht
          exact .inr ⟨text, .inr ⟨_, rfl⟩⟩
  · cases h
    exact .inl rfl

end Host

/-- The words in which a shape is asked for by the helpers. -/
def Host.expectations : List String :=
  ["an instance with getters", "an instance with fields", "an optional", "a collection", "a map",
    "a boolean", "a number", "a string", "a date string"]

open Host in
/-- **A fault of a host value is one of shape, of class, of date or of date format.** -/
theorem Fault.FromHost.cases {f : Fault} (h : f.FromHost) :
    (∃ e v, f = .shape e v ∧ (e ∈ expectations ∨ ∃ t : TypeRef, e = s!"a `{t}` value")) ∨
    (∃ actual expected, f = .wrongClass actual expected) ∨ (∃ text, f = .notADate text) ∨
    (∃ pattern text, f = .dateMismatch pattern text) ∨
    ∃ details, f = .invalidSetting "date-format" details := by
  cases h with
  | @property v a _ h =>
    cases a <;> exact .inl ⟨_, _, member_error h, .inl (by decide)⟩
  | cast h =>
    obtain ⟨actual, rfl⟩ := cast_error h
    exact .inr (.inl ⟨_, _, rfl⟩)
  | content h => exact .inl ⟨_, _, content_error h, .inl (by decide)⟩
  | elements h => exact .inl ⟨_, _, elements_error h, .inl (by decide)⟩
  | entries h => exact .inl ⟨_, _, entries_error h, .inl (by decide)⟩
  | @scalar v form _ h =>
    refine .inl ⟨_, _, scalar_error h, .inl ?_⟩
    cases form <;> decide
  | date h =>
    rcases date_error h with rfl | ⟨text, rfl | ⟨pattern, rfl⟩⟩
    · exact .inl ⟨_, _, rfl, .inl (by decide)⟩
    · exact .inr (.inr (.inl ⟨_, rfl⟩))
    · exact .inr (.inr (.inr (.inl ⟨_, _, rfl⟩)))
  | @null v t _ _ => exact .inl ⟨_, _, rfl, .inr ⟨t, rfl⟩⟩
  | pattern h =>
    unfold DateFormat.ofText at h
    split at h
    · cases h
    · split at h <;> cases h
      exact .inr (.inr (.inr (.inr ⟨_, rfl⟩)))

end JsonBinding
