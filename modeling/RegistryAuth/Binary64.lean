/-!
# Double precision

A finite double-precision number is a sign and a whole number of the smallest positive one, which
is 2 ^ -1074. Every operation takes its exact result, a quotient of natural numbers of that unit,
to the nearest double, a tie to the even significand, and gives nothing where that would be
infinite.
-/

namespace RegistryAuth

/-- A finite double-precision number. -/
structure Binary64 where
  /-- The sign; zero has one too. -/
  negative : Bool
  /-- The magnitude in units of 2 ^ -1074. -/
  units : Nat
  deriving DecidableEq, Repr

namespace Binary64

/-- How many units make one. -/
def one : Nat := Nat.pow 2 1074

/-- The least magnitude, in units, that no finite number has. -/
def limit : Nat := Nat.pow 2 1024 * one

/-- The exponent of the spacing between neighbours at the magnitude `units`: a significand has 53
bits, and small numbers are one unit apart. -/
def spacing (units : Nat) : Nat := units.log2 + 1 - 53

/-- A quotient taken to the nearest whole number, a tie to the even one. -/
def nearest (num den : Nat) : Nat :=
  let q := num / den
  let r := num % den
  if den < 2 * r ∨ (2 * r = den ∧ q % 2 = 1) then q + 1 else q

/-- The magnitude nearest to `num / den` units, if it is finite. -/
def round? (num den : Nat) : Option Nat :=
  let step := Nat.pow 2 (spacing (num / den))
  let units := nearest num (den * step) * step
  if units < limit then some units else none

/-- The magnitude nearest to a natural number. -/
def ofNat? (n : Nat) : Option Nat := round? (n * one) 1

/-- The product of two magnitudes. -/
def mul? (x y : Nat) : Option Nat := round? (x * y) one

/-- The quotient of two magnitudes. -/
def div? (x y : Nat) : Option Nat := round? (x * one) y

end Binary64

end RegistryAuth
