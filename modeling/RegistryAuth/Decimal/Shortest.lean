import RegistryAuth.Binary64

/-!
# Shortest decimal text

`shortest` gives the fewest decimal digits that name a number and no other double: of all grids of
decimal numbers with 1, 2, … 17 leading digits it takes the first that has a point among the reals
that round to the number, and on it the point nearest to the number, a tie to the even digit.
`Binary64.text` writes these digits out.
-/

namespace RegistryAuth.Decimal

/-- The reals around a value that round to it: bounds and value over the denominator `den`. -/
structure Interval where
  low : Nat
  value : Nat
  high : Nat
  den : Nat
  /-- Whether the bounds themselves round to the value. -/
  closed : Bool

/-- The interval of a positive magnitude: half way to either neighbour, where the lower one is
nearer below a power of two. The bounds go to the even significand. -/
def Interval.ofUnits (units : Nat) : Interval :=
  let step := Nat.pow 2 (Binary64.spacing units)
  let below := if units = Nat.pow 2 52 * step ∧ 1 < step then step else 2 * step
  ⟨4 * units - below, 4 * units, 4 * units + 2 * step, 4 * Binary64.one, units / step % 2 = 0⟩

/-- How many decimal digits a natural number has. -/
def digitCount (n : Nat) : Nat := (Nat.toDigits 10 n).length

/-- The exponent of the first decimal digit of a positive quotient. -/
def leadingExponent (num den : Nat) : Int :=
  if den ≤ num then digitCount (num / den) - 1 else -digitCount ((den - 1) / num)

/-- The multiple of 10 ^ `grid` nearest to the value among its two neighbours on that grid, as a
factor of it, if one of them lies in the interval. -/
def Interval.nearestOn? (i : Interval) (grid : Int) : Option Nat :=
  let point := i.den * Nat.pow 10 grid.toNat
  let scale := Nat.pow 10 (-grid).toNat
  let inside (n : Nat) : Bool :=
    let x := n * point
    (i.low * scale < x && x < i.high * scale) ||
      (i.closed && (x = i.low * scale || x = i.high * scale))
  let n := i.value * scale / point
  let left := i.value * scale - n * point
  let right := (n + 1) * point - i.value * scale
  match inside n, inside (n + 1) with
  | true, true => if left < right ∨ (left = right ∧ n % 2 = 0) then some n else some (n + 1)
  | true, false => some n
  | false, true => some (n + 1)
  | false, false => none

/-- The shortest decimal digits in an interval, and the exponent of the last one. -/
def Interval.shortest (i : Interval) : Nat × Int :=
  let leading := leadingExponent i.value i.den
  ((List.range 17).findSome? fun (n : Nat) =>
    (i.nearestOn? (leading - n)).map (·, leading - n)).getD (0, 0)

/-- Decimal digits without the zeros at their end. -/
def significant (n : Nat) : List Char :=
  ((Nat.toDigits 10 n).reverse.dropWhile (· == '0')).reverse

/-- Digits with the point after the one of exponent 0, where the first one has exponent `leading`;
zeros fill the places up to the point, and at least one digit stands on each side of it. -/
def positional (digits : List Char) (leading : Int) : List Char :=
  if leading < 0 then
    ['0', '.'] ++ List.replicate ((-leading).toNat - 1) '0' ++ digits
  else
    let whole := leading.toNat + 1
    let fraction := digits.drop whole
    digits.take whole ++ List.replicate (whole - digits.length) '0' ++
      '.' :: (if fraction = [] then ['0'] else fraction)

/-- Digits with the point after the first one, and the exponent with its sign, also a plus. -/
def scientific (digits : List Char) (leading : Int) : List Char :=
  digits.take 1 ++ (if digits.length ≤ 1 then [] else '.' :: digits.drop 1) ++
    ['e', if leading < 0 then '-' else '+'] ++ Nat.toDigits 10 leading.natAbs

end RegistryAuth.Decimal

namespace RegistryAuth

open Decimal

/-- The shortest text of a number: positional from 1e-5 up to below 1e16, scientific outside. -/
def Binary64.text (x : Binary64) : String :=
  let magnitude :=
    if x.units = 0 then ['0', '.', '0']
    else
      let (n, last) := (Interval.ofUnits x.units).shortest
      let leading := last + digitCount n - 1
      if -5 ≤ leading ∧ leading ≤ 15 then positional (significant n) leading
      else scientific (significant n) leading
  String.ofList (if x.negative then '-' :: magnitude else magnitude)

end RegistryAuth
