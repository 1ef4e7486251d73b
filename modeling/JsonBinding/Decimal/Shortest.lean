import JsonBinding.Decimal.Binary64

/-!
# Shortest decimals

The decimal with the fewest digits that reads back as a given number, of several the nearest one
(`Binary64.shortest`), and the text of a number (`Binary64.text`).
-/

namespace JsonBinding

/-- A decimal `digits · 10 ^ power`. -/
structure Decimal where
  digits : Nat
  power : Int

namespace Binary64

/-- The reals that round to a number, times four over its unit: the significand times four, less
and plus these two, the ends included when the significand is even. -/
def margins (x : Binary64) : Nat × Nat :=
  if x.bits % fractionRange = 0 ∧ 1 < x.exponentBits then (1, 2) else (2, 2)

/-- Whether the quotient `num / den` rounds to `x`. -/
def holds (x : Binary64) (num den : Nat) : Bool :=
  let (n, d) := x.ratio
  -- a quarter of the unit is `n / (4 · significand · d)`
  let m := x.significand
  let low := (4 * m - x.margins.1) * n * den
  let high := (4 * m + x.margins.2) * n * den
  let here := 4 * m * d * num
  if m % 2 = 0 then low ≤ here && here ≤ high else low < here && here < high

/-- The least power of ten above a quotient less than one, as a count of decimal places. -/
def leadingZeros (num den : Nat) : Nat → Nat
  | 0 => 0
  | n + 1 => if den ≤ num then 0 else leadingZeros (num * 10) den n + 1

/-- The exponent of the first digit of a positive quotient. -/
def leadingExponent (num den : Nat) : Int :=
  if den ≤ num then (Nat.toDigits 10 (num / den)).length - 1
  else -(leadingZeros num den 400 : Int)

/-- The point of the grid of multiples of `10 ^ power` next to `x` that reads back as `x`. -/
def onGrid? (x : Binary64) (power : Int) : Option Decimal :=
  let (n, d) := x.ratio
  let step := Nat.pow 10 power.natAbs
  let (num, den) := if 0 ≤ power then (n, d * step) else (n * step, d)
  let q := num / den
  let reads (c : Nat) : Bool := if 0 ≤ power then x.holds (c * step) 1 else x.holds c step
  let nearest := roundRatio num den
  let other := if nearest = q then q + 1 else q
  if reads nearest then some ⟨nearest, power⟩
  else if reads other then some ⟨other, power⟩
  else none

/-- The decimal with the fewest digits that reads back as the magnitude of `x`. -/
def shortest (x : Binary64) : Decimal :=
  if x.bits = 0 then ⟨0, 0⟩
  else
    let top := leadingExponent x.ratio.1 x.ratio.2
    ((List.range 17).findSome? fun (k : Nat) => onGrid? x (top - k)).getD ⟨0, 0⟩

end Binary64

/-- The digits without trailing zeros. -/
def dropTrailingZeros (ds : List Char) : List Char :=
  (ds.reverse.dropWhile (· == '0')).reverse

/-- The text of a decimal with the first digit at `10 ^ top`: positional with a point for exponents
from -5 to 15, else with one digit before the point and a signed exponent. -/
def placed (ds : List Char) (top : Int) : List Char :=
  if -5 ≤ top ∧ top < 0 then
    ['0', '.'] ++ List.replicate (-top - 1).toNat '0' ++ ds
  else if 0 ≤ top ∧ top < 16 then
    let whole := top.toNat + 1
    let front := ds.take whole ++ List.replicate (whole - ds.length) '0'
    front ++ ['.'] ++ (if ds.length ≤ whole then ['0'] else ds.drop whole)
  else
    let mantissa := ds.take 1 ++ (if ds.length ≤ 1 then [] else '.' :: ds.drop 1)
    mantissa ++ ['e', if top < 0 then '-' else '+'] ++ Nat.toDigits 10 top.natAbs

/-- The text of a number: the shortest decimal that reads back, with its sign. -/
def Binary64.text (x : Binary64) : String :=
  let d := x.shortest
  let ds := Nat.toDigits 10 d.digits
  let top : Int := d.power + ds.length - 1
  let body := if d.digits = 0 then ['0', '.', '0'] else placed (dropTrailingZeros ds) top
  .ofList (if x.negative then '-' :: body else body)

end JsonBinding
