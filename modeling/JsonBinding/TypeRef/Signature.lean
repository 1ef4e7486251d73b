import JsonBinding.Text.Alphanumeric
import JsonBinding.Text.Blank
import JsonBinding.Text.Diagnostic
import JsonBinding.TypeRef.Basic

/-!
# Reading signatures

A signature is a type between spacing. A type is a base with any number of bracket pairs behind it;
a base is a name with type arguments or without, or a question mark with a bound or without
(`ofText`). A part that may be absent is taken when it is complete and passed over otherwise, so a
signature is refused for one of two causes: no type at its start, or text behind its type.

The longest type in front of a text is `TypeRef.front?`; every reader returns a rest that is shorter
than what it was given.
-/

namespace JsonBinding.TypeRef

open Text (skipSpacing length_skipSpacing_le isSpacing)

/-- What is left of a text behind something. -/
abbrev Rest (s : List Char) : Type := { r : List Char // r.length < s.length }

/-- What is left of a text behind something that may be nothing. -/
abbrev RestOrAll (s : List Char) : Type := { r : List Char // r.length ≤ s.length }

/-! ## Names -/

/-- Whether a character may stand in a part of a name. -/
def isNameChar (c : Char) : Bool := Text.isAlphanumeric c || c = '_' || c = '$'

/-- The rest of a name behind one of its characters: more of them, and dots that have one behind. -/
def nameTail : List Char → List Char × List Char
  | [] => ([], [])
  | c :: s =>
    if isNameChar c then
      let (n, r) := nameTail s
      (c :: n, r)
    else
      match s with
      | d :: s' =>
        if c = '.' ∧ isNameChar d then
          let (n, r) := nameTail s'
          (c :: d :: n, r)
        else ([], c :: d :: s')
      | [] => ([], [c])

theorem nameTail_append (s : List Char) : (nameTail s).1 ++ (nameTail s).2 = s := by
  fun_induction nameTail s <;> simp_all

theorem nameTail_length_le (s : List Char) : (nameTail s).2.length ≤ s.length := by
  have h := congrArg List.length (nameTail_append s)
  rw [List.length_append] at h
  omega

/-- The longest name in front of a text. -/
def name? (s : List Char) : Option (List Char × Rest s) :=
  match s with
  | [] => none
  | c :: rest =>
    if isNameChar c then
      some (c :: (nameTail rest).1, ⟨(nameTail rest).2, Nat.lt_succ_of_le (nameTail_length_le rest)⟩)
    else none

/-! ## Brackets and bounds -/

theorem length_lt_of_skipSpacing {c d : Char} {s r : List Char} (h : skipSpacing s = c :: d :: r) :
    r.length < s.length := by
  have := length_skipSpacing_le s
  rw [h, List.length_cons, List.length_cons] at this
  omega

/-- How many pairs of brackets stand in front of a text. -/
def brackets (s : List Char) : Nat × RestOrAll s :=
  match h : skipSpacing s with
  | '[' :: ']' :: r =>
    have hr : r.length < s.length := length_lt_of_skipSpacing h
    let inner := brackets r
    (inner.1 + 1, ⟨inner.2.1, Nat.le_trans inner.2.2 (Nat.le_of_lt hr)⟩)
  | _ => (0, ⟨s, Nat.le_refl _⟩)
termination_by s.length

/-- The array type with so many dimensions. -/
def arrays (t : TypeRef) : Nat → TypeRef
  | 0 => t
  | n + 1 => .array (arrays t n)

/-- What is left behind a word. -/
def behind? : (word s : List Char) → Option (RestOrAll s)
  | [], s => some ⟨s, Nat.le_refl _⟩
  | c :: word, d :: s =>
    if c = d then (behind? word s).map fun r => ⟨r.1, Nat.le_succ_of_le r.2⟩ else none
  | _ :: _, [] => none

/-- What is left behind spacing, which must not be empty. -/
def behindSpacing? (s : List Char) : Option (Rest s) :=
  match s with
  | [] => none
  | c :: r => if isSpacing c then some ⟨skipSpacing r, Nat.lt_succ_of_le (length_skipSpacing_le r)⟩
    else none

/-- What is left behind one of the words for a bound, with spacing on both sides of it. -/
def boundMark? (s : List Char) : Option (Rest s) :=
  (behindSpacing? s).bind fun r =>
    ((behind? "extends".toList r.1).or (behind? "super".toList r.1)).bind fun r' =>
      (behindSpacing? r'.1).map fun r'' => ⟨r''.1, by have := r.2; have := r'.2; have := r''.2; omega⟩

/-! ## Types -/

mutual

/-- The longest type in front of a text. -/
def front? (s : List Char) : Option (TypeRef × Rest s) :=
  (base? s).map fun (t, r) =>
    let (n, r') := brackets r.1
    (arrays t n, ⟨r'.1, Nat.lt_of_le_of_lt r'.2 r.2⟩)
termination_by 3 * s.length + 1

/-- The longest base in front of a text. -/
def base? (s : List Char) : Option (TypeRef × Rest s) :=
  match s with
  | '?' :: s' =>
    match boundMark? s' with
    | some r =>
      have : r.1.length < s'.length := r.2
      match front? r.1 with
      | some (_, r') => some (.wildcard, ⟨r'.1, by have := r'.2; simp only [List.length_cons]; omega⟩)
      | none => some (.wildcard, ⟨s', Nat.lt_succ_self _⟩)
    | none => some (.wildcard, ⟨s', Nat.lt_succ_self _⟩)
  | s =>
    match name? s with
    | none => none
    | some (n, r) =>
      let name : String := .ofList n
      let plain : TypeRef := (Primitive.ofName? name).elim (.cls ⟨name⟩) .prim
      match h : skipSpacing r.1 with
      | '<' :: r' =>
        have hr : r'.length < s.length := by
          have h1 := length_skipSpacing_le r.1
          have h2 := r.2
          rw [h, List.length_cons] at h1
          omega
        match arguments? r' with
        | some (args, r'') => some (.app ⟨name⟩ args, ⟨r''.1, Nat.lt_trans r''.2 hr⟩)
        | none => some (plain, r)
      | _ => some (plain, r)
termination_by 3 * s.length

/-- Type arguments behind the opening bracket. -/
def arguments? (s : List Char) : Option (List TypeRef × Rest s) :=
  have hs := length_skipSpacing_le s
  match front? (skipSpacing s) with
  | none => none
  | some (t, r) =>
    have hr : r.1.length < s.length := Nat.lt_of_lt_of_le r.2 hs
    let (ts, r') := moreArguments r.1
    match h : skipSpacing r'.1 with
    | '>' :: r'' =>
      some (t :: ts, ⟨r'', by
        have h1 := length_skipSpacing_le r'.1
        have h2 := r'.2
        rw [h, List.length_cons] at h1
        omega⟩)
    | _ => none
termination_by 3 * s.length + 2

/-- Further type arguments, each behind a comma. -/
def moreArguments (s : List Char) : List TypeRef × RestOrAll s :=
  match h : skipSpacing s with
  | ',' :: s' =>
    have hs' : s'.length < s.length := by
      have h1 := length_skipSpacing_le s
      rw [h, List.length_cons] at h1
      omega
    have hs'' := length_skipSpacing_le s'
    match front? (skipSpacing s') with
    | none => ([], ⟨s, Nat.le_refl _⟩)
    | some (t, r) =>
      have hr : r.1.length < s.length := by have := r.2; omega
      let (ts, r') := moreArguments r.1
      (t :: ts, ⟨r'.1, Nat.le_trans r'.2 (Nat.le_of_lt hr)⟩)
  | _ => ([], ⟨s, Nat.le_refl _⟩)
termination_by 3 * s.length + 2

end

/-! ## Signatures -/

/-- Why a text is no signature: with no type at its start, or with text behind its type. -/
inductive SignatureFault where
  | noName (rest : List Char)
  | unread (rest : List Char)
  deriving DecidableEq

/-- The diagnostic of a text that is no signature. -/
def SignatureFault.message : SignatureFault → String
  | .noName rest => located rest "TakeWhile1"
  | .unread rest => located rest "Eof"
where
  /-- The place and the code of a fault. -/
  located (rest : List Char) (code : String) : String :=
    "Parsing Error: Error \x7b input: " ++ Text.diagnostic rest ++ ", code: " ++ code ++ " \x7d"

/-- The type that a text denotes. -/
def ofText (s : String) : Except SignatureFault TypeRef :=
  let start := skipSpacing s.toList
  match front? start with
  | none => .error (.noName start)
  | some (t, r) =>
    match skipSpacing r.1 with
    | [] => .ok t
    | rest => .error (.unread rest)

end JsonBinding.TypeRef
