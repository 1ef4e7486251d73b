import JsonBinding.Calendar.Stamp
import Mathlib

/-!
# The strict form of a stamp

The strict form as a grammar (`Stamp.Strict`): the numbers of a date and of a time with their marks,
a fraction or none, and an offset. The reader of the strict form reads exactly the texts of the
grammar (`strict_eq_some_iff`), and what it reads is the stamp of the text
(`Strict.ofText?_eq_some`).
-/

namespace JsonBinding.Calendar.Stamp

namespace Reader

/-! ## What a reader reads -/

section Steps

variable {α β : Type} {a a' : α} {b : β} {r : Reader α} {f : α → Reader β} {s rest : List Char}
  {c : Char} {cs : List Char} {n v : Nat}

theorem bind_eq_some_iff : (r >>= f).run s = some (b, rest) ↔
    ∃ a s', r.run s = some (a, s') ∧ (f a).run s' = some (b, rest) := by
  simp [StateT.run_bind, Option.bind_eq_some_iff]

theorem pure_eq_some_iff : (pure a : Reader α).run s = some (a', rest) ↔ a = a' ∧ s = rest := by
  simp [StateT.run_pure]

theorem lift_eq_some_iff {o : Option α} :
    (liftM o : Reader α).run s = some (a, rest) ↔ o = some a ∧ s = rest := by
  cases o <;> simp

theorem ite_eq_some_iff {p : Prop} [Decidable p] :
    (if p then r else failure).run s = some (a, rest) ↔ p ∧ r.run s = some (a, rest) := by
  split_ifs with h
  · simp [h]
  · simp [h]

theorem taken_eq_some_iff {t : Bool} : (taken c).run s = some (t, rest) ↔
    if t then s = c :: rest else s = rest ∧ s.head? ≠ some c := by
  cases s with
  | nil => cases t <;> simp [taken, StateT.run]
  | cons d s => cases t <;> by_cases hd : d = c <;> simp [taken, StateT.run, hd]

theorem discard_eq_some_iff {u : Unit} : (discard r).run s = some (u, rest) ↔
    ∃ a, r.run s = some (a, rest) := by
  simp [discard, Functor.discard]

theorem anyOf_eq_some_iff : (anyOf cs).run s = some (c, rest) ↔ c ∈ cs ∧ s = c :: rest := by
  cases s with
  | nil => simp [anyOf, StateT.run]
  | cons d s =>
    by_cases hd : d ∈ cs
    · have hrun : (anyOf cs).run (d :: s) = some (d, s) := if_pos hd
      rw [hrun]
      simp only [Option.some.injEq, Prod.mk.injEq, List.cons.injEq]
      exact ⟨fun ⟨hc, hs⟩ => ⟨hc ▸ hd, hc, hs⟩, And.right⟩
    · have hrun : (anyOf cs).run (d :: s) = none := if_neg hd
      rw [hrun]
      refine iff_of_false nofun fun ⟨hc, hs⟩ => hd ?_
      rwa [(List.cons.inj hs).1]

theorem char_eq_some_iff {u : Unit} : (char c).run s = some (u, rest) ↔ s = c :: rest := by
  simp [char, discard_eq_some_iff, anyOf_eq_some_iff]

theorem done_eq_some_iff {u : Unit} : done.run s = some (u, rest) ↔ s = [] ∧ rest = [] := by
  rw [done, bind_eq_some_iff]
  constructor
  · rintro ⟨_, _, hget, h⟩
    obtain ⟨hempty, h⟩ := ite_eq_some_iff.mp h
    obtain ⟨-, rfl⟩ := pure_eq_some_iff.mp h
    cases hget
    exact ⟨List.isEmpty_iff.mp hempty, List.isEmpty_iff.mp hempty⟩
  · rintro ⟨rfl, rfl⟩
    exact ⟨_, _, rfl, rfl⟩

/-! ### Digits -/

/-- Some characters are so many digits. -/
structure Digits (n : Nat) (ds : List Char) : Prop where
  length : ds.length = n
  digit : ∀ d ∈ ds, d.isDigit = true

theorem digits_run (most : Nat) : (digits most).run s =
    some ((s.take most).takeWhile Char.isDigit,
      s.drop ((s.take most).takeWhile Char.isDigit).length) :=
  rfl

theorem number_eq_some_iff : (number n n).run s = some (v, rest) ↔
    ∃ ds, Digits n ds ∧ value ds = v ∧ s = ds ++ rest := by
  rw [number, bind_eq_some_iff]
  simp only [ite_eq_some_iff, pure_eq_some_iff, digits_run, Option.some.injEq, Prod.mk.injEq]
  constructor
  · rintro ⟨ds, s', ⟨rfl, rfl⟩, hn, rfl, rfl⟩
    have hpre : (s.take n).takeWhile Char.isDigit <+: s.take n := List.takeWhile_prefix _
    have heq := hpre.eq_of_length_le ((List.length_take_le n s).trans hn)
    have hlength : (s.take n).length = n :=
      le_antisymm (List.length_take_le n s) (hn.trans hpre.length_le)
    refine ⟨s.take n, ⟨hlength, fun d hd => ?_⟩, by rw [heq], ?_⟩
    · rw [← heq] at hd
      exact List.mem_takeWhile_imp hd
    · rw [heq, hlength, List.take_append_drop]
  · rintro ⟨ds, hds, rfl, rfl⟩
    have htake : (ds ++ rest).take n = ds := List.take_left' hds.length
    have hwhile : ds.takeWhile Char.isDigit = ds := List.takeWhile_eq_self_iff.mpr hds.digit
    refine ⟨ds, rest, ⟨?_, ?_⟩, hds.length.ge, rfl, rfl⟩
    · rw [htake, hwhile]
    · rw [htake, hwhile, List.drop_left]

theorem number_bind_iff {f : Nat → Reader β} : (number n n >>= f).run s = some (b, rest) ↔
    ∃ ds s', Digits n ds ∧ s = ds ++ s' ∧ (f (value ds)).run s' = some (b, rest) := by
  simp only [bind_eq_some_iff, number_eq_some_iff]
  constructor
  · rintro ⟨_, s', ⟨ds, hds, rfl, hs⟩, h⟩
    exact ⟨ds, s', hds, hs, h⟩
  · rintro ⟨ds, s', hds, hs, h⟩
    exact ⟨_, s', ⟨ds, hds, rfl, hs⟩, h⟩

theorem char_bind_iff {r : Reader β} : (char c >>= fun _ => r).run s = some (b, rest) ↔
    ∃ s', s = c :: s' ∧ r.run s' = some (b, rest) := by
  simp only [bind_eq_some_iff, char_eq_some_iff]
  exact ⟨fun ⟨_, s', hs, h⟩ => ⟨s', hs, h⟩, fun ⟨s', hs, h⟩ => ⟨(), s', hs, h⟩⟩

end Steps

/-! ## Fractions and offsets -/

/-- The billionths that the digits behind a point write, of which the tenth and later ones do not
count. -/
def scaled (ds : List Char) : Nat := value (ds.take 9) * Nat.pow 10 (9 - (ds.take 9).length)

/-- A text is a fraction of a second, in billionths: nothing, or digits behind a point. -/
inductive Fraction : List Char → Nat → Prop where
  | none : Fraction [] 0
  | point {n : Nat} {ds : List Char} (h : Digits (n + 1) ds) : Fraction ('.' :: ds) (scaled ds)

/-- A text is an offset, in minutes: the letter of universal time, or a sign with hours and
minutes. -/
inductive Offset : List Char → Int → Prop where
  | universal {c : Char} (h : c = 'Z' ∨ c = 'z') : Offset [c] 0
  | signed {sign : Char} {hours minutes : List Char} (hsign : sign = '+' ∨ sign = '-' ∨ sign = '−')
      (hhours : Digits 2 hours) (hle : value hours ≤ 23)
      (hminutes : Digits 2 minutes) (hle' : value minutes ≤ 59) :
      Offset (sign :: (hours ++ ':' :: minutes))
        (if sign = '+' then 60 * value hours + value minutes
         else -(60 * value hours + value minutes))

section Tails

variable {s rest ds text : List Char} {nano n : Nat} {offset : Int}

theorem takeWhile_digits (hds : ∀ d ∈ ds, d.isDigit = true)
    (hrest : ∀ c ∈ rest.head?, c.isDigit = false) :
    (ds ++ rest).takeWhile Char.isDigit = ds := by
  rw [List.takeWhile_append_of_pos hds]
  cases rest with
  | nil => simp
  | cons c rest => simp [hrest c rfl]

/-- The digits in front are passed over as a whole: the ones that count, and then the others. -/
theorem billionths_run (hds : ∀ d ∈ ds, d.isDigit = true)
    (hrest : ∀ c ∈ rest.head?, c.isDigit = false) : billionths.run (ds ++ rest) =
      if ds = [] then none else some (scaled ds, rest) := by
  have hfront : ((ds ++ rest).take 9).takeWhile Char.isDigit = ds.take 9 := by
    rw [← List.take_takeWhile, takeWhile_digits hds hrest]
  have hlater : (ds.drop 9 ++ rest).takeWhile Char.isDigit = ds.drop 9 :=
    takeWhile_digits (fun d hd => hds d (List.mem_of_mem_drop hd)) hrest
  have hcut : (ds ++ rest).drop (ds.take 9).length = ds.drop 9 ++ rest := by
    rw [List.drop_append_of_le_length (List.length_take_le' 9 ds)]
    rcases Nat.le_total ds.length 9 with h | h
    · simp [List.take_of_length_le h, List.drop_eq_nil_of_le h]
    · rw [List.length_take_of_le h]
  rw [billionths, StateT.run_bind, digits_run, hfront, hcut]
  split_ifs with h
  · simp only [h, List.take_nil, discard, StateT.run_bind, StateT.run_mapConst]
    rfl
  · simp [h, discard, Functor.discard, digits_run, hlater, scaled]

theorem Fraction.run (h : Fraction text nano)
    (hrest : ∀ c ∈ rest.head?, c ≠ '.' ∧ c.isDigit = false) :
    fraction.run (text ++ rest) = some (nano, rest) := by
  cases h with
  | none =>
    have htaken : (taken '.').run rest = some (false, rest) :=
      taken_eq_some_iff.mpr ⟨rfl, fun hc => (hrest _ hc).1 rfl⟩
    simp [fraction, StateT.run_bind, htaken]
  | @point n ds h =>
    have hne : ds ≠ [] := fun hnil => by simpa [hnil] using h.length
    have htaken : (taken '.').run ('.' :: (ds ++ rest)) = some (true, ds ++ rest) := rfl
    simp [fraction, StateT.run_bind, htaken, hne,
      billionths_run h.digit fun c hc => (hrest c hc).2]

theorem exists_fraction (h : fraction.run s = some (nano, rest)) :
    ∃ text, Fraction text nano ∧ s = text ++ rest := by
  rw [fraction, bind_eq_some_iff] at h
  obtain ⟨_ | _, s', htaken, h⟩ := h <;> rw [taken_eq_some_iff] at htaken
  · obtain ⟨rfl, -⟩ := htaken
    obtain ⟨rfl, rfl⟩ := pure_eq_some_iff.mp h
    exact ⟨[], .none, rfl⟩
  · subst htaken
    have hdigits : ∀ d ∈ s'.takeWhile Char.isDigit, d.isDigit = true :=
      fun _ => List.mem_takeWhile_imp
    have hrest : ∀ c ∈ (s'.dropWhile Char.isDigit).head?, c.isDigit = false := by
      intro c hc
      have hnot := List.head?_dropWhile_not Char.isDigit s'
      rwa [Option.mem_def.mp hc] at hnot
    rw [← List.takeWhile_append_dropWhile (p := Char.isDigit) (l := s'), if_pos rfl,
      billionths_run hdigits hrest] at h
    split_ifs at h with hnil
    cases h
    obtain ⟨n, hn⟩ := Nat.exists_eq_succ_of_ne_zero (mt List.length_eq_zero_iff.mp hnil)
    refine ⟨_, .point ⟨hn, hdigits⟩, ?_⟩
    rw [List.cons_append, List.takeWhile_append_dropWhile]

theorem strictOffset_eq_some_iff : strictOffset.run s = some (offset, rest) ↔
    ∃ text, Offset text offset ∧ s = text ++ rest := by
  rw [strictOffset, bind_eq_some_iff]
  simp only [anyOf_eq_some_iff]
  constructor
  · rintro ⟨sign, s', ⟨hsign, rfl⟩, h⟩
    split at h
    · obtain ⟨rfl, rfl⟩ := pure_eq_some_iff.mp h
      exact ⟨['Z'], .universal (.inl rfl), rfl⟩
    · obtain ⟨rfl, rfl⟩ := pure_eq_some_iff.mp h
      exact ⟨['z'], .universal (.inr rfl), rfl⟩
    · rename_i hZ hz
      simp only [bind_eq_some_iff, number_eq_some_iff, char_eq_some_iff, ite_eq_some_iff,
        pure_eq_some_iff] at h
      obtain ⟨_, _, ⟨hours, hhours, rfl, rfl⟩, _, _, rfl, _, _, ⟨minutes, hminutes, rfl, rfl⟩,
        ⟨hle, hle'⟩, rfl, rfl⟩ := h
      have hsigns : sign = '+' ∨ sign = '-' ∨ sign = '−' := by
        simpa [show sign ≠ 'Z' from hZ, show sign ≠ 'z' from hz] using hsign
      exact ⟨_, .signed hsigns hhours hle hminutes hle', by simp⟩
  · rintro ⟨text, htext, rfl⟩
    cases htext with
    | universal h =>
      rcases h with rfl | rfl <;> exact ⟨_, _, ⟨by simp, rfl⟩, pure_eq_some_iff.mpr ⟨rfl, rfl⟩⟩
    | @signed sign hours minutes hsign hhours hle hminutes hle' =>
      refine ⟨sign, hours ++ ':' :: (minutes ++ rest), ⟨by simp [hsign], by simp⟩, ?_⟩
      split
      · simp at hsign
      · simp at hsign
      · simp only [bind_eq_some_iff, number_eq_some_iff, char_eq_some_iff, ite_eq_some_iff,
          pure_eq_some_iff]
        exact ⟨_, _, ⟨hours, hhours, rfl, rfl⟩, (), _, rfl, _, _, ⟨minutes, hminutes, rfl, rfl⟩,
          ⟨hle, hle'⟩, rfl, rfl⟩

/-- An offset starts with a character that no fraction has. -/
theorem Offset.head (h : Offset text offset) :
    ∀ c ∈ text.head?, c ≠ '.' ∧ c.isDigit = false := by
  cases h with
  | universal h => rcases h with rfl | rfl <;> simp
  | signed hsign => rcases hsign with rfl | rfl | rfl <;> simp

end Tails

end Reader

/-! ## The strict form -/

open Reader

/-- A text shows a stamp in the strict form: the numbers of a date, a letter between, the numbers of
a time with a fraction or none, and an offset. -/
inductive Strict : List Char → Stamp → Prop where
  | mk {year month day hour minute second fraction offset : List Char} {sep : Char} {nano : Nat}
      {minutes : Int} {date : Date} {time : Time}
      (hyear : Digits 4 year) (hmonth : Digits 2 month) (hday : Digits 2 day)
      (hsep : sep = 'T' ∨ sep = 't' ∨ sep = ' ')
      (hhour : Digits 2 hour) (hminute : Digits 2 minute) (hsecond : Digits 2 second)
      (hfraction : Fraction fraction nano) (hoffset : Offset offset minutes)
      (hdate : Date.of? (value year) (value month) (value day) = some date)
      (htime : Time.of? (value hour) (value minute) (value second) nano = some time) :
      Strict (year ++ '-' :: (month ++ '-' :: (day ++ sep :: (hour ++ ':' ::
        (minute ++ ':' :: (second ++ (fraction ++ offset)))))))
        ⟨some date, some time, some minutes⟩

variable {s : List Char} {stamp : Stamp}

theorem strict_eq_some_iff : strict.run s = some (stamp, []) ↔ Strict s stamp := by
  constructor
  · intro h
    -- Numbers and marks open up to the first reader of another kind: the letter, the fraction.
    simp only [strict, number_bind_iff, char_bind_iff] at h
    obtain ⟨year, _, hyear, rfl, _, rfl, month, _, hmonth, rfl, _, rfl, day, _, hday, rfl, h⟩ := h
    rw [bind_eq_some_iff] at h
    obtain ⟨_, _, hread, h⟩ := h
    obtain ⟨sep, hread⟩ := discard_eq_some_iff.mp hread
    obtain ⟨hsep, rfl⟩ := anyOf_eq_some_iff.mp hread
    simp only [number_bind_iff, char_bind_iff] at h
    obtain ⟨hour, _, hhour, rfl, _, rfl, minute, _, hminute, rfl, _, rfl, second, _, hsecond, rfl,
      h⟩ := h
    simp only [bind_eq_some_iff, strictOffset_eq_some_iff, done_eq_some_iff, lift_eq_some_iff,
      pure_eq_some_iff] at h
    obtain ⟨nano, _, hread, minutes, _, ⟨offset, hoffset, rfl⟩, h⟩ := h
    obtain ⟨_, _, ⟨rfl, rfl⟩, date, _, ⟨hdate, rfl⟩, time, _, ⟨htime, rfl⟩, rfl, -⟩ := h
    obtain ⟨fraction, hfraction, rfl⟩ := exists_fraction hread
    rw [List.append_nil]
    exact .mk hyear hmonth hday (by simpa using hsep) hhour hminute hsecond hfraction hoffset hdate
      htime
  · rintro ⟨hyear, hmonth, hday, hsep, hhour, hminute, hsecond, hfraction, hoffset, hdate, htime⟩
    refine number_bind_iff.mpr ⟨_, _, hyear, rfl, char_bind_iff.mpr ⟨_, rfl, ?_⟩⟩
    refine number_bind_iff.mpr ⟨_, _, hmonth, rfl, char_bind_iff.mpr ⟨_, rfl, ?_⟩⟩
    refine number_bind_iff.mpr ⟨_, _, hday, rfl, bind_eq_some_iff.mpr ⟨(), _,
      discard_eq_some_iff.mpr ⟨_, anyOf_eq_some_iff.mpr ⟨by simpa using hsep, rfl⟩⟩, ?_⟩⟩
    refine number_bind_iff.mpr ⟨_, _, hhour, rfl, char_bind_iff.mpr ⟨_, rfl, ?_⟩⟩
    refine number_bind_iff.mpr ⟨_, _, hminute, rfl, char_bind_iff.mpr ⟨_, rfl, ?_⟩⟩
    refine number_bind_iff.mpr ⟨_, _, hsecond, rfl, bind_eq_some_iff.mpr ⟨_, _,
      hfraction.run hoffset.head, ?_⟩⟩
    simp only [bind_eq_some_iff, done_eq_some_iff, lift_eq_some_iff, pure_eq_some_iff]
    exact ⟨_, _, strictOffset_eq_some_iff.mpr ⟨_, hoffset, (List.append_nil _).symm⟩,
      (), _, ⟨rfl, rfl⟩, _, _, ⟨hdate, rfl⟩, _, _, ⟨htime, rfl⟩, rfl, rfl⟩

/-- The strict form is tried before all others. -/
theorem Strict.ofText?_eq_some {text : String} (h : Strict text.toList stamp) :
    ofText? text = some stamp := by
  simp only [ofText?, strict_eq_some_iff.mpr h]
  rfl

theorem Strict.full (h : Strict s stamp) :
    ∃ date time offset, stamp = ⟨some date, some time, some offset⟩ := by
  cases h
  exact ⟨_, _, _, rfl⟩

end JsonBinding.Calendar.Stamp
