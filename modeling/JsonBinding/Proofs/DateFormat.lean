import JsonBinding.DateFormat
import JsonBinding.Proofs.Calendar.Pattern
import JsonBinding.Proofs.Calendar.Stamp

/-!
# Formats that apply

A format that was accepted shows every date and time with offset, unless its pattern asks for an
offset of any spelling: that item is read with a pattern but never rendered
(`apply_eq_ok_iff`). With such a pattern nothing is shown, whatever the date.
-/

namespace JsonBinding.DateFormat

open Calendar

variable {pattern text : String} {f : DateFormat} {stamp : Stamp}

/-- Where a pattern asks for an offset of any spelling: the specifier follows what is a pattern by
itself, so that its per cent sign does not belong to a specifier in front. -/
def AsksForAnyOffset (pattern : String) : Prop :=
  ∃ front rest, pattern = front ++ "%#z" ++ rest ∧ (Pattern.ofText? front).isSome

theorem asksForAnyOffset_iff {p : Pattern} (h : Pattern.ofText? pattern = some p) :
    AsksForAnyOffset pattern ↔ .mark .anyOffset ∈ p := by
  rw [(Pattern.ofChars?_eq_some_iff.mp h).anyOffset_mem_iff]
  constructor
  · rintro ⟨front, rest, rfl, hfront⟩
    exact ⟨front.toList, rest.toList, by simp, hfront⟩
  · rintro ⟨front, rest, hsplit, hfront⟩
    refine ⟨.ofList front, .ofList rest, String.toList_inj.mp ?_, ?_⟩
    · simpa using hsplit
    · rwa [Pattern.ofText?, String.toList_ofList]

theorem not_asksForAnyOffset_of_iso (h : pattern.isEmpty || sameLetters pattern "iso") :
    ¬ AsksForAnyOffset pattern := by
  rintro ⟨front, rest, rfl, -⟩
  rcases Bool.or_eq_true_iff.mp h with hempty | hiso
  · simp at hempty
  · have hlower : (front ++ "%#z" ++ rest).toLower = "iso".toLower := by
      simpa [sameLetters] using hiso
    have hmem : '%' ∈ (front ++ "%#z" ++ rest).toLower.toList := by
      rw [String.toLower, String.toList_map]
      exact List.mem_map.mpr ⟨'%', by simp, rfl⟩
    rw [hlower, String.toLower, String.toList_map] at hmem
    exact absurd hmem (by decide)

theorem apply_eq_ok_iff (hf : DateFormat.ofText pattern = .ok f)
    (htext : Stamp.Strict text.toList stamp) :
    ((∃ shown, f.apply text = .ok shown) ↔ ¬ AsksForAnyOffset pattern) ∧
      (AsksForAnyOffset pattern → f.apply text = .error (.dateMismatch pattern text)) := by
  rw [DateFormat.ofText] at hf
  split at hf
  · rename_i hiso
    cases hf
    have hnot := not_asksForAnyOffset_of_iso hiso
    exact ⟨iff_of_true ⟨text, rfl⟩ hnot, fun h => absurd h hnot⟩
  · split at hf
    · rename_i hp
      cases hf
      obtain ⟨p, hp⟩ := Option.isSome_iff_exists.mp hp
      obtain ⟨date, time, offset, rfl⟩ := htext.full
      have hshown := Pattern.render?_isSome_iff date time offset (p := p)
      rw [asksForAnyOffset_iff hp]
      cases hr : p.render? ⟨some date, some time, some offset⟩ with
      | none =>
        have happly : (DateFormat.pattern pattern).apply text =
            .error (.dateMismatch pattern text) := by
          simp [apply, htext.ofText?_eq_some, hp, hr]
        rw [happly]
        simpa [hr] using hshown
      | some shown =>
        have happly : (DateFormat.pattern pattern).apply text = .ok shown := by
          simp [apply, htext.ofText?_eq_some, hp, hr]
        rw [happly]
        simpa [hr] using hshown
    · cases hf

/-- A leap second, shown with its fraction and its offset. -/
theorem apply_leap_second : ∃ shown,
    (DateFormat.pattern "%FT%T%.f%:z").apply "2024-02-29T23:59:60.5+05:45" = .ok shown := by
  have hread : Pattern.ofText? "%FT%T%.f%:z" = some (Pattern.isoDate ++ .literal 'T' ::
      Pattern.clock .hour ++ [.mark .fraction, .mark (.offset true 2)]) := by cbv
  have hstrict : Stamp.Strict "2024-02-29T23:59:60.5+05:45".toList
      ⟨some ⟨2024, 2, 29⟩, some ⟨23, 59, 60, 500000000⟩, some 345⟩ :=
    Stamp.strict_eq_some_iff.mp (by decide)
  have haccepted : DateFormat.ofText "%FT%T%.f%:z" = .ok (.pattern "%FT%T%.f%:z") := by cbv
  exact (apply_eq_ok_iff haccepted hstrict).1.mpr
    (mt (asksForAnyOffset_iff hread).mp (by decide))

/-- A pattern that is accepted and applies to no date at all. -/
theorem any_offset_accepted :
    DateFormat.ofText "%#z" = .ok (.pattern "%#z") ∧
      (∃ stamp, Stamp.Strict "2024-03-09T10:15:30Z".toList stamp) ∧
      (DateFormat.pattern "%#z").apply "2024-03-09T10:15:30Z" =
        .error (.dateMismatch "%#z" "2024-03-09T10:15:30Z") := by
  have hstrict : Stamp.Strict "2024-03-09T10:15:30Z".toList
      ⟨some ⟨2024, 3, 9⟩, some ⟨10, 15, 30, 0⟩, some 0⟩ :=
    Stamp.strict_eq_some_iff.mp (by decide)
  exact ⟨by cbv, ⟨_, hstrict⟩, by cbv⟩

end JsonBinding.DateFormat
