import JsonBinding.SerializerUnit.Naming
import Mathlib

/-!
# Distinct names of units

No two units of a generation get the same file, and so none the same name.

* `Text.lowerFrom_append`: the lower-case form of a text that is cut behind a letter.
* `UnitId.fileStem_numbered`: the number of a name stands at the end of the name of its file.
* `UnitId.claim_free`, `UnitId.claim_of_taken`: a claimed name gives a file that is not taken, and
  its number is the first one of which this is so.
* **`UnitId.nodup_assign`**: the names assigned to root types are distinct.
* `UnitId.Named`, **`UnitId.assigned_assign`**: which name each of them gets.
-/

namespace JsonBinding

/-! ## Lower case -/

namespace Text

theorem casedAhead_append {c : Char} (hc : inside ignorablePoints c = false)
    (xs ys : List Char) : casedAhead (xs ++ c :: ys) = casedAhead (xs ++ [c]) := by
  have hdrop : ∀ ys : List Char, ∃ d rest, (xs ++ c :: ys).dropWhile (inside ignorablePoints) =
      d :: (rest ++ ys) ∧ (xs ++ [c]).dropWhile (inside ignorablePoints) = d :: rest := by
    intro ys
    induction xs with
    | nil => exact ⟨c, [], by simp [hc], by simp [hc]⟩
    | cons x xs ih =>
      cases hx : inside ignorablePoints x with
      | true =>
        obtain ⟨d, rest, h, h'⟩ := ih
        exact ⟨d, rest, by simpa [hx] using h, by simpa [hx] using h'⟩
      | false => exact ⟨x, xs ++ [c], by simp [hx], by simp [hx]⟩
  obtain ⟨d, rest, h, h'⟩ := hdrop ys
  simp only [casedAhead, h, h']

/-- The lower-case form of a text that is cut behind a letter other than a sigma. -/
theorem lowerFrom_append {c : Char} (hc : inside ignorablePoints c = false)
    (hs : c.toNat ≠ 0x3A3) (before xs ys : List Char) :
    lowerFrom before (xs ++ c :: ys) =
      lowerFrom before (xs ++ [c]) ++ lowerFrom (c :: (xs.reverse ++ before)) ys := by
  induction xs generalizing before with
  | nil => simp [lowerFrom, hs]
  | cons x xs ih =>
    simp only [List.cons_append, lowerFrom, isWordFinal, casedAhead_append hc xs ys, ih,
      List.append_assoc, List.reverse_cons, List.nil_append]
    rfl

theorem lowerChar_digit {d : Char} (hd : d.isDigit = true) : lowerChar d = [d] := by
  rw [Char.isDigit_iff_toNat] at hd
  have hlower : d.toLower = d := by
    rw [Char.toLower, dif_neg]
    rintro ⟨h, -⟩
    have : 65 ≤ d.toNat := h
    have : '9'.toNat = 57 := rfl
    omega
  rw [lowerChar, if_pos (by have : '9'.toNat = 57 := rfl; omega), hlower]

theorem lowerFrom_digits {ds : List Char} (hd : ∀ d ∈ ds, d.isDigit = true)
    (before : List Char) : lowerFrom before ds = ds := by
  induction ds generalizing before with
  | nil => rfl
  | cons d ds ih =>
    have hdigit := hd d List.mem_cons_self
    have hs : d.toNat ≠ 0x3A3 := by
      intro h
      rw [Char.isDigit_iff_toNat, h] at hdigit
      exact absurd hdigit.2 (by decide)
    rw [lowerFrom, if_neg hs, lowerChar_digit hdigit,
      ih fun d' hd' => hd d' (List.mem_cons_of_mem _ hd')]
    rfl

end Text

namespace UnitId

variable {front base : String} {count : Nat} {taken : List String}

/-! ## Numbered names -/

theorem isDigit_of_mem_toString {n : Nat} {d : Char} (h : d ∈ (toString n).toList) :
    d.isDigit = true := by
  rw [show toString n = String.ofList (Nat.toDigits 10 n) from rfl, String.toList_ofList] at h
  exact Nat.isDigit_of_mem_toDigits (by decide) (by decide) h

/-- A character of a unit name as it stands in the name of the file, but for its case. -/
abbrev mangleChar (c : Char) : Char := if ClassName.isSeparator c then '_' else c

theorem toList_fileStem (name : String) :
    (fileStem ⟨name⟩).toList = Text.lowerFrom [] (name.toList.map mangleChar) := by
  rw [fileStem, Text.lowercase, ClassName.mangle, String.toList_ofList, String.toList_ofList]

theorem map_mangleChar_digits {ds : List Char} (hd : ∀ d ∈ ds, d.isDigit = true) :
    ds.map mangleChar = ds := by
  refine (List.map_congr_left fun d hm => ?_).trans (List.map_id ds)
  have hs : ClassName.isSeparator d = false := by
    by_contra h
    rw [Bool.not_eq_false, ClassName.isSeparator, Bool.or_eq_true, decide_eq_true_eq,
      decide_eq_true_eq] at h
    have := hd d hm
    rcases h with rfl | rfl <;> cases this
  rw [mangleChar, hs]
  rfl

/-- The number of a name stands at the end of the name of its file. -/
theorem fileStem_numbered (name : String) (n : Nat) :
    fileStem ⟨name ++ ending ++ toString n⟩ = fileStem ⟨name ++ ending⟩ ++ toString n := by
  have hd := fun d => isDigit_of_mem_toString (n := n) (d := d)
  have hbase : (name ++ ending).toList.map mangleChar =
      (name.toList ++ "Serialize".toList).map mangleChar ++ ['r'] := by
    rw [String.toList_append, List.map_append, List.map_append, List.append_assoc]
    rfl
  refine String.toList_injective ?_
  rw [String.toList_append, toList_fileStem, toList_fileStem, String.toList_append,
    List.map_append, hbase, map_mangleChar_digits hd, List.append_assoc, List.singleton_append,
    Text.lowerFrom_append (by decide +kernel) (by decide), Text.lowerFrom_digits hd]

theorem nodup_candidates (front base : String) (count : Nat) :
    ((candidates front base count).map fileStem).Nodup := by
  simp only [candidates, List.map_cons, List.map_map, Function.comp_def, fileStem_numbered]
  refine List.nodup_cons.mpr ⟨fun h => ?_, List.nodup_range.map fun i j h => ?_⟩
  · obtain ⟨i, -, h⟩ := List.mem_map.mp h
    simp at h
  · have : (i + 2).repr = (j + 2).repr := by simpa using h
    have := Nat.repr_inj.mp this
    omega

/-- One more name than files are taken gives a file that is not taken. -/
theorem exists_candidate (front base : String) (taken : List String) :
    ∃ id ∈ candidates front base taken.length, id.fileStem ∉ taken := by
  by_contra hnone
  push Not at hnone
  have hsub : (candidates front base taken.length).map fileStem ⊆ taken := by
    intro stem hs
    obtain ⟨id, hid, rfl⟩ := List.mem_map.mp hs
    exact hnone id hid
  have hlength := ((nodup_candidates front base taken.length).subperm hsub).length_le
  simp [candidates] at hlength

theorem find?_candidates (front base : String) (taken : List String) :
    (candidates front base taken.length).find? (fun id => id.fileStem ∉ taken) =
      some (claim front base taken) := by
  obtain ⟨id, hid, hfree⟩ := exists_candidate front base taken
  have hsome : ((candidates front base taken.length).find? fun id => id.fileStem ∉ taken).isSome :=
    List.find?_isSome.mpr ⟨id, hid, decide_eq_true hfree⟩
  obtain ⟨id', hfind⟩ := Option.isSome_iff_exists.mp hsome
  rw [claim, hfind, Option.getD_some]

/-- **A claimed name gives a file that is not taken.** -/
theorem claim_free (front base : String) (taken : List String) :
    (claim front base taken).fileStem ∉ taken := by
  simpa using List.find?_some (find?_candidates front base taken)

/-- The name with a number behind it. -/
def numbered (id : UnitId) (n : Nat) : UnitId := ⟨id.text ++ toString n⟩

theorem claim_of_free (h : fileStem ⟨front ++ base ++ ending⟩ ∉ taken) :
    claim front base taken = ⟨front ++ base ++ ending⟩ := by
  simp [claim, candidates, h]

/-- **When the file of the plain name is taken, the first number is claimed with which it is
not.** -/
theorem claim_of_taken (h : fileStem ⟨front ++ base ++ ending⟩ ∈ taken) :
    ∃ n, 2 ≤ n ∧ n ≤ taken.length + 1 ∧
      claim front base taken = numbered ⟨front ++ base ++ ending⟩ n ∧
      ∀ k, 2 ≤ k → k < n → (numbered ⟨front ++ base ++ ending⟩ k).fileStem ∈ taken := by
  have hfind := find?_candidates front base taken
  rw [candidates, List.find?_cons_of_neg (by simpa using h), List.find?_map,
    Option.map_eq_some_iff] at hfind
  obtain ⟨i, hi, hclaim⟩ := hfind
  obtain ⟨-, hrange, hbefore⟩ := List.find?_range_eq_some.mp hi
  have hlt : i < taken.length := List.mem_range.mp hrange
  refine ⟨i + 2, by omega, by omega, hclaim.symm, fun k hk hki => ?_⟩
  have hnumber := hbefore (k - 2) (by omega)
  have hk2 : k - 2 + 2 = k := by omega
  simpa [hk2, numbered] using hnumber

/-! ## Assignments -/

variable {roots : List TypeRef}

theorem map_fst_assignFrom (taken : List String) (ts : List TypeRef) :
    (assignFrom front roots taken ts).map (·.1) = ts := by
  induction ts generalizing taken with
  | nil => rfl
  | cons t rest ih => exact congrArg (t :: ·) (ih _)

theorem map_fst_assign (front : String) (roots : List TypeRef) :
    (assign front roots).map (·.1) = roots := map_fst_assignFrom [] roots

theorem nodup_assignFrom (taken : List String) (ts : List TypeRef) :
    ((assignFrom front roots taken ts).map (·.2.fileStem)).Nodup ∧
      ∀ x ∈ assignFrom front roots taken ts, x.2.fileStem ∉ taken := by
  induction ts generalizing taken with
  | nil => simp [assignFrom]
  | cons t rest ih =>
    obtain ⟨hnodup, hfree⟩ := ih ((claim front (base roots t) taken).fileStem :: taken)
    simp only [assignFrom]
    constructor
    · refine List.nodup_cons.mpr ⟨fun h => ?_, hnodup⟩
      obtain ⟨x, hx, he⟩ := List.mem_map.mp h
      exact hfree x hx (by rw [he]; exact List.mem_cons_self)
    · refine List.forall_mem_cons.mpr ⟨claim_free _ _ _, fun x hx ht => ?_⟩
      exact hfree x hx (List.mem_cons_of_mem _ ht)

/-- **No two root types get the same name**, nor even the same file. -/
theorem nodup_assign (front : String) (roots : List TypeRef) :
    ((assign front roots).map (·.2.fileStem)).Nodup ∧
      ((assign front roots).map (·.2)).Nodup := by
  have h : ((assign front roots).map (·.2.fileStem)).Nodup := (nodup_assignFrom [] roots).1
  refine ⟨h, List.Nodup.of_map fileStem ?_⟩
  rwa [List.map_map]

/-- The plain name of a root type among others. -/
def plain (front : String) (others : List TypeRef) (t : TypeRef) : UnitId :=
  ⟨front ++ (if t.simpleName ∈ others.map TypeRef.simpleName then t.mangledName
    else t.simpleName) ++ ending⟩

/-- The name of a root type whose plain name is given, when some files are taken: the plain name if
its file is not taken, else this name with the first number from 2 on for which it is not. -/
inductive Named (plain : UnitId) (taken : List String) : UnitId → Prop
  | unnumbered : plain.fileStem ∉ taken → Named plain taken plain
  | numbered {n : Nat} : plain.fileStem ∈ taken → 2 ≤ n → n ≤ taken.length + 1 →
    (plain.numbered n).fileStem ∉ taken →
    (∀ k, 2 ≤ k → k < n → (plain.numbered k).fileStem ∈ taken) →
    Named plain taken (plain.numbered n)

theorem Named.of_perm {id id' : UnitId} {taken' : List String} (hp : taken.Perm taken')
    (h : Named id taken id') : Named id taken' id' := by
  cases h with
  | unnumbered hfree => exact .unnumbered fun hm => hfree (hp.mem_iff.mpr hm)
  | numbered htaken hn hle hfree hleast =>
    exact .numbered (hp.mem_iff.mp htaken) hn (hp.length_eq ▸ hle)
      (fun hm => hfree (hp.mem_iff.mpr hm)) fun k hk hkn => hp.mem_iff.mp (hleast k hk hkn)

theorem named_claim (front base : String) (taken : List String) :
    Named ⟨front ++ base ++ ending⟩ taken (claim front base taken) := by
  by_cases h : fileStem ⟨front ++ base ++ ending⟩ ∈ taken
  · obtain ⟨n, hn, hle, hclaim, hleast⟩ := claim_of_taken h
    have hfree := claim_free front base taken
    rw [hclaim] at hfree ⊢
    exact .numbered h hn hle hfree hleast
  · rw [claim_of_free h]
    exact .unnumbered h

/-- A simple name comes twice when another root type has it. -/
theorem plain_eq (front : String) (before after : List TypeRef) (t : TypeRef) :
    (⟨front ++ UnitId.base (before ++ t :: after) t ++ ending⟩ : UnitId) =
      plain front (before ++ after) t := by
  have hcount : 1 < ((before ++ t :: after).map TypeRef.simpleName).count t.simpleName ↔
      t.simpleName ∈ (before ++ after).map TypeRef.simpleName := by
    rw [← List.count_pos_iff, List.map_append, List.map_append, List.map_cons, List.count_append,
      List.count_append, List.count_cons_self]
    omega
  rw [UnitId.base, plain]
  simp only [hcount]

theorem named_assignFrom {ts : List TypeRef} {x : TypeRef × UnitId}
    {before after : List (TypeRef × UnitId)} (taken : List String)
    (h : assignFrom front roots taken ts = before ++ x :: after) :
    Named ⟨front ++ UnitId.base roots x.1 ++ ending⟩ (before.map (·.2.fileStem) ++ taken) x.2 := by
  induction ts generalizing taken before with
  | nil => simp [assignFrom] at h
  | cons t rest ih =>
    rw [assignFrom] at h
    cases before with
    | nil =>
      obtain ⟨rfl, -⟩ := List.cons.inj h
      exact named_claim _ _ _
    | cons y before =>
      obtain ⟨rfl, hrest⟩ := List.cons.inj h
      exact (ih _ hrest).of_perm List.perm_middle

/-- Names of root types as they are to be. -/
structure Assigned (front : String) (roots : List TypeRef) (named : List (TypeRef × UnitId)) :
    Prop where
  map_fst : named.map (·.1) = roots
  nodup_stems : (named.map (·.2.fileStem)).Nodup
  nodup_ids : (named.map (·.2)).Nodup
  name : ∀ before x after, named = before ++ x :: after →
    Named (plain front ((before ++ after).map (·.1)) x.1) (before.map (·.2.fileStem)) x.2

/-- **Every root type gets its plain name, or the first numbered one whose file is not taken by a
root type before it.** -/
theorem assigned_assign (front : String) (roots : List TypeRef) :
    Assigned front roots (assign front roots) := by
  refine ⟨map_fst_assign front roots, (nodup_assign front roots).1, (nodup_assign front roots).2,
    fun before x after h => ?_⟩
  have hroots : roots = before.map (·.1) ++ x.1 :: after.map (·.1) := by
    rw [← map_fst_assign front roots, h, List.map_append, List.map_cons]
  have hnamed := named_assignFrom [] h
  rw [List.append_nil, hroots, plain_eq, ← List.map_append] at hnamed
  exact hnamed

end UnitId

end JsonBinding
