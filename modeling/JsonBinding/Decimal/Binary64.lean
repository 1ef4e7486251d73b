/-!
# Binary floating-point numbers of 64 bits

A finite number is a sign and the 63 bits below it (`Binary64`). Its magnitude is a significand
times a power of two (`significand`, `exponent`). A quotient of natural numbers is rounded to the
nearest number, a tie going to the even one (`ofRatio?`). A decimal is read as its significand
times or over a power of ten, each of the two rounded (`ofDecimal?`).
-/

namespace JsonBinding

/-- The bits of the magnitude of infinity. -/
abbrev infinityBits : Nat := 0x7FF0000000000000

/-- The number of values of the 52 fraction bits. -/
abbrev fractionRange : Nat := 0x10000000000000

/-- A finite number: its sign, and the bits of its magnitude. -/
structure Binary64 where
  negative : Bool
  bits : Nat
  finite : bits < infinityBits := by decide
  deriving DecidableEq

namespace Binary64

/-- Zero. -/
def zero : Binary64 := ⟨false, 0, by decide⟩

/-- The number with the sign `negative` and the magnitude of `x`. -/
def withSign (negative : Bool) (x : Binary64) : Binary64 := { x with negative }

/-- The eleven exponent bits. -/
def exponentBits (x : Binary64) : Nat := x.bits / fractionRange

/-- The integer significand. -/
def significand (x : Binary64) : Nat :=
  if x.exponentBits = 0 then x.bits else x.bits % fractionRange + fractionRange

/-- The exponent of the unit of the significand, over the least one, `2 ^ -1074`. -/
def unit (x : Binary64) : Nat := x.exponentBits - 1

/-- The magnitude as a quotient of natural numbers. -/
def ratio (x : Binary64) : Nat × Nat :=
  if 1074 ≤ x.unit then (x.significand <<< (x.unit - 1074), 1)
  else (x.significand, 1 <<< (1074 - x.unit))

/-- The quotient rounded to a natural number, a tie going to the even one. -/
def roundRatio (num den : Nat) : Nat :=
  let q := num / den
  let r := num % den
  if 2 * r < den then q else if den < 2 * r then q + 1 else q + q % 2

/-- The exponent of the unit, over the least one, in which a quotient has 53 bits. -/
def unitOf (num den : Nat) : Nat :=
  -- the quotient lies in `[2 ^ (l - 1), 2 ^ (l + 1))`, everything scaled by `2 ^ 1074`
  let num := num <<< 1074
  let l := num.log2 - den.log2
  (if den <<< l ≤ num then l else l - 1) - 52

/-- The quotient rounded to the nearest number, none when that is infinite. -/
def ofRatio? (num den : Nat) : Option Binary64 :=
  let u := unitOf num den
  let bits := u * fractionRange + roundRatio (num <<< 1074) (den <<< u)
  if h : bits < infinityBits then some ⟨false, bits, h⟩ else none

/-- The natural number rounded. -/
def ofNat? (n : Nat) : Option Binary64 := ofRatio? n 1

/-- The product of two magnitudes, rounded. -/
def mul? (x y : Binary64) : Option Binary64 :=
  ofRatio? (x.ratio.1 * y.ratio.1) (x.ratio.2 * y.ratio.2)

/-- The quotient of two magnitudes, rounded. -/
def div? (x y : Binary64) : Option Binary64 :=
  ofRatio? (x.ratio.1 * y.ratio.2) (x.ratio.2 * y.ratio.1)

/-- The largest power of ten that is a number. -/
abbrev maxPower : Nat := 308

/-- A magnitude times a power of ten; beyond the largest power it is first divided by that power
as often as needed, and a positive power beyond it is refused unless the magnitude is zero. -/
def scale? (x : Binary64) (power : Int) : Option Binary64 :=
  if h : power.natAbs ≤ maxPower then
    match power with
    | .ofNat p => (ofNat? (Nat.pow 10 p)).bind x.mul?
    | .negSucc p => (ofNat? (Nat.pow 10 (p + 1))).bind x.div?
  else if x.bits = 0 then some x
  else if 0 ≤ power then none
  else ((ofNat? (Nat.pow 10 maxPower)).bind x.div?).bind fun y => scale? y (power + maxPower)
termination_by power.natAbs
decreasing_by simp only [maxPower] at h ⊢; omega

/-- The decimal `±digits · 10 ^ power`, none when it is out of range. -/
def ofDecimal? (negative : Bool) (digits : Nat) (power : Int) : Option Binary64 :=
  ((ofNat? digits).bind (scale? · power)).map (withSign negative)

end Binary64

end JsonBinding
