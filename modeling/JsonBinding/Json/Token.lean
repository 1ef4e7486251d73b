import JsonBinding.Json.Basic
import JsonBinding.Text.Blank

/-!
# Tokens of JSON text

The tokens of a text (`tokens?`), none when some character starts no token. Two faults are kept
inside a token, because only a reader that uses its value minds them: a number out of range, and a
string with half of a surrogate pair.
-/

namespace JsonBinding.Json

/-- A token. -/
inductive Token where
  | openObject
  | closeObject
  | openArray
  | closeArray
  | colon
  | comma
  | null
  | bool (b : Bool)
  /-- A number, none when it is out of range. -/
  | number (n? : Option Number)
  /-- A string, none when it holds half of a surrogate pair. -/
  | string (s? : Option String)

/-! ## Numbers -/

/-- The longest run of digits whose value after `n` fits 64 bits, and the other digits. -/
def absorb (n : Nat) : List Char → Nat × List Char
  | [] => (n, [])
  | c :: rest =>
    let next := 10 * n + (c.toNat - '0'.toNat)
    if next < UInt64.size then absorb next rest else (n, c :: rest)

/-- The value of digits. -/
def digitsValue (ds : List Char) : Nat :=
  ds.foldl (fun n c => 10 * n + (c.toNat - '0'.toNat)) 0

/-- The parts of a number in a text. -/
structure NumberParts where
  negative : Bool
  whole : List Char
  fraction : List Char
  power : Int
  isWhole : Bool

/-- The binary number with these parts. Digits beyond those that fit 64 bits are dropped. -/
def NumberParts.float? (p : NumberParts) : Option Binary64 :=
  let (n, beyond) := absorb 0 p.whole
  let (n, unused) := absorb n p.fraction
  let used := p.fraction.length - unused.length
  Binary64.ofDecimal? p.negative n (beyond.length - used + p.power)

/-- The number with these parts: an integer of 64 bits with or without a sign when it is written
without a fraction and a power and is no negative zero, else a binary number. -/
def NumberParts.number? (p : NumberParts) : Option Number :=
  let n := digitsValue p.whole
  if p.isWhole && !p.negative && n < UInt64.size then some (.int n)
  else if p.isWhole && p.negative && 0 < n && n ≤ UInt64.size / 2 then some (.int (-n))
  else p.float?.map .float

/-- The digits in front of a text, and its rest. -/
def digits (s : List Char) : List Char × List Char :=
  (s.takeWhile Char.isDigit, s.dropWhile Char.isDigit)

/-- The digits before the point: a zero alone, or digits that start with no zero. -/
def wholePart? (s : List Char) : Option (List Char × List Char) :=
  match digits s with
  | ([], _) => none
  | ('0' :: _ :: _, _) => none
  | (ds, rest) => some (ds, rest)

/-- A fraction, if there is a point; the point needs a digit behind it. -/
def fractionPart? : List Char → Option (Option (List Char) × List Char)
  | '.' :: s =>
    match digits s with
    | ([], _) => none
    | (ds, rest) => some (some ds, rest)
  | s => some (none, s)

/-- The digits of a power, which needs one. -/
def powerDigits? (negative : Bool) (s : List Char) : Option (Option Int × List Char) :=
  match digits s with
  | ([], _) => none
  | (ds, rest) => some (some (if negative then -digitsValue ds else digitsValue ds), rest)

/-- A power of ten, if there is its mark. -/
def powerPart? : List Char → Option (Option Int × List Char)
  | c :: s =>
    if c = 'e' ∨ c = 'E' then
      match s with
      | '+' :: s => powerDigits? false s
      | '-' :: s => powerDigits? true s
      | s => powerDigits? false s
    else some (none, c :: s)
  | [] => some (none, [])

/-- The number in front of a text that follows its sign. -/
def unsigned? (negative : Bool) (s : List Char) : Option (Token × List Char) := do
  let (whole, s) ← wholePart? s
  let (fraction, s) ← fractionPart? s
  let (power, s) ← powerPart? s
  let parts : NumberParts :=
    ⟨negative, whole, fraction.getD [], power.getD 0, fraction.isNone && power.isNone⟩
  return (.number parts.number?, s)

/-! ## Strings -/

/-- The value of a hexadecimal digit. -/
def hexValue? (c : Char) : Option Nat :=
  if c.isDigit then some (c.toNat - '0'.toNat)
  else if 'a' ≤ c ∧ c ≤ 'f' then some (c.toNat - 'a'.toNat + 10)
  else if 'A' ≤ c ∧ c ≤ 'F' then some (c.toNat - 'A'.toNat + 10)
  else none

/-- The value of four hexadecimal digits. -/
def hex4? (a b c d : Char) : Option Nat := do
  return ((← hexValue? a) * 16 + (← hexValue? b)) * 256 + (← hexValue? c) * 16 + (← hexValue? d)

/-- The character a letter stands for behind a backslash. -/
def escaped? (c : Char) : Option Char :=
  if c = '"' ∨ c = '\\' ∨ c = '/' then some c
  else if c = 'b' then some (Char.ofNat 8)
  else if c = 'f' then some (Char.ofNat 12)
  else if c = 'n' then some '\n'
  else if c = 'r' then some '\r'
  else if c = 't' then some '\t'
  else none

/-- What has been read of a string: its characters in reverse, the first half of a surrogate pair
that waits for the second, and whether no half was left alone. -/
structure StringSoFar where
  chars : List Char := []
  half : Option Nat := none
  whole : Bool := true

/-- A character that is no half of a pair. -/
def StringSoFar.push (t : StringSoFar) (c : Char) : StringSoFar :=
  ⟨c :: t.chars, none, t.whole && t.half.isNone⟩

/-- A code of sixteen bits. -/
def StringSoFar.pushCode (t : StringSoFar) (n : Nat) : StringSoFar :=
  if 0xD800 ≤ n ∧ n < 0xDC00 then ⟨t.chars, some n, t.whole && t.half.isNone⟩
  else if 0xDC00 ≤ n ∧ n < 0xE000 then
    match t.half with
    | some h => ⟨Char.ofNat (0x10000 + (h - 0xD800) * 0x400 + (n - 0xDC00)) :: t.chars, none, t.whole⟩
    | none => ⟨t.chars, none, false⟩
  else t.push (Char.ofNat n)

/-- The string, none when half of a pair was left alone. -/
def StringSoFar.string? (t : StringSoFar) : Option String :=
  if t.whole && t.half.isNone then some (.ofList t.chars.reverse) else none

/-- The rest of a string behind its opening quote. -/
def stringBody? (t : StringSoFar) : List Char → Option (Option String × List Char)
  | [] => none
  | '"' :: s => some (t.string?, s)
  | '\\' :: 'u' :: a :: b :: c :: d :: s =>
    match hex4? a b c d with
    | some n => stringBody? (t.pushCode n) s
    | none => none
  | '\\' :: c :: s =>
    match escaped? c with
    | some e => stringBody? (t.push e) s
    | none => none
  | c :: s => if c.toNat < 32 ∨ c = '\\' then none else stringBody? (t.push c) s

/-! ## Tokens -/

/-- The rest of a text behind a word. -/
def behind? : List Char → List Char → Option (List Char)
  | [], s => some s
  | c :: word, d :: s => if c = d then behind? word s else none
  | _ :: _, [] => none

/-- The token of a single mark. -/
def mark? (c : Char) : Option Token :=
  if c = '\x7b' then some .openObject
  else if c = '\x7d' then some .closeObject
  else if c = '[' then some .openArray
  else if c = ']' then some .closeArray
  else if c = ':' then some .colon
  else if c = ',' then some .comma
  else none

/-- The token that starts with `c` and goes on in `s`, and the text behind it. -/
def token? (c : Char) (s : List Char) : Option (Token × List Char) :=
  match mark? c with
  | some t => some (t, s)
  | none =>
    if c = '"' then (stringBody? {} s).map fun (t, s) => (.string t, s)
    else if c = '-' then unsigned? true s
    else if c = 'n' then (behind? ['u', 'l', 'l'] s).map (.null, ·)
    else if c = 't' then (behind? ['r', 'u', 'e'] s).map (.bool true, ·)
    else if c = 'f' then (behind? ['a', 'l', 's', 'e'] s).map (.bool false, ·)
    else unsigned? false (c :: s)

/-! ## Every token takes a character -/

theorem behind?_length {word s r : List Char} (h : behind? word s = some r) :
    r.length ≤ s.length := by
  induction word generalizing s with
  | nil => cases h; exact Nat.le_refl _
  | cons c word ih =>
    cases s with
    | nil => cases h
    | cons d s =>
      rw [behind?] at h
      split at h
      · exact Nat.le_succ_of_le (ih h)
      · cases h

theorem stringBody?_length {t : StringSoFar} {s r : List Char} {x : Option String}
    (h : stringBody? t s = some (x, r)) : r.length ≤ s.length := by
  fun_induction stringBody? t s <;> simp_all <;> omega

theorem digits_length {s ds r : List Char} (h : digits s = (ds, r)) :
    r.length + ds.length = s.length := by
  have : ds ++ r = s := by
    rw [← (Prod.mk.inj h).1, ← (Prod.mk.inj h).2]; exact List.takeWhile_append_dropWhile
  rw [← this, List.length_append]; omega

theorem wholePart?_length {s ds r : List Char} (h : wholePart? s = some (ds, r)) :
    r.length < s.length := by
  simp only [wholePart?] at h
  split at h
  · cases h
  · cases h
  · rename_i hne _ heq
    cases h
    have := digits_length heq
    have : ds ≠ [] := fun e => hne e
    have := List.length_pos_iff.mpr this
    omega

theorem fractionPart?_length {s r : List Char} {x : Option (List Char)}
    (h : fractionPart? s = some (x, r)) : r.length ≤ s.length := by
  unfold fractionPart? at h
  split at h
  · split at h
    · cases h
    · rename_i heq
      cases h
      have := digits_length heq
      simp only [List.length_cons]; omega
  · cases h; exact Nat.le_refl _

theorem powerDigits?_length {b : Bool} {s r : List Char} {x : Option Int}
    (h : powerDigits? b s = some (x, r)) : r.length ≤ s.length := by
  unfold powerDigits? at h
  split at h
  · cases h
  · rename_i heq
    cases h
    have := digits_length heq
    omega

theorem powerPart?_length {s r : List Char} {x : Option Int}
    (h : powerPart? s = some (x, r)) : r.length ≤ s.length := by
  unfold powerPart? at h
  split at h
  · split at h
    · split at h
      all_goals
        have := powerDigits?_length h
        simp only [List.length_cons] at *
        omega
    · cases h; exact Nat.le_refl _
  · cases h; exact Nat.le_refl _

theorem unsigned?_length {b : Bool} {s r : List Char} {t : Token}
    (h : unsigned? b s = some (t, r)) : r.length < s.length := by
  simp only [unsigned?, Option.bind_eq_bind, Option.bind_eq_some_iff, Prod.exists, Option.pure_def,
    Option.some.injEq, Prod.mk.injEq] at h
  obtain ⟨w, s1, h1, f, s2, h2, p, s3, h3, -, rfl⟩ := h
  have := wholePart?_length h1
  have := fractionPart?_length h2
  have := powerPart?_length h3
  omega

theorem token?_length {c : Char} {s r : List Char} {t : Token} (h : token? c s = some (t, r)) :
    r.length ≤ s.length := by
  unfold token? at h
  split at h
  · cases h; exact Nat.le_refl _
  · split at h
    · obtain ⟨⟨x, s'⟩, h, e⟩ := Option.map_eq_some_iff.mp h
      cases e; exact stringBody?_length h
    split at h
    · exact Nat.le_of_lt (unsigned?_length h)
    split at h
    · obtain ⟨s', h, e⟩ := Option.map_eq_some_iff.mp h
      cases e; exact behind?_length h
    split at h
    · obtain ⟨s', h, e⟩ := Option.map_eq_some_iff.mp h
      cases e; exact behind?_length h
    split at h
    · obtain ⟨s', h, e⟩ := Option.map_eq_some_iff.mp h
      cases e; exact behind?_length h
    · exact Nat.le_of_lt_succ (unsigned?_length h)

/-- The tokens of a text. -/
def tokens? (s : List Char) : Option (List Token) :=
  match _hs : s.dropWhile Text.isSpacing with
  | [] => some []
  | c :: rest =>
    match _ht : token? c rest with
    | none => none
    | some (t, r) => (tokens? r).map (t :: ·)
termination_by s.length
decreasing_by
  have h1 := Text.length_dropWhile_le Text.isSpacing s
  have h2 := token?_length _ht
  rw [_hs, List.length_cons] at h1
  omega

end JsonBinding.Json
