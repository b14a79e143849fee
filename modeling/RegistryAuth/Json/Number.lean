import RegistryAuth.Json.Reader

/-!
# Numbers

A number is read in two steps: `numeral` takes its digits, and `Numeral.value` computes what they
stand for. The digits make a significand as long as that fits 64 bits; further digits before the
point raise the exponent and further ones after it are dropped. A numeral without fraction and
exponent whose digits all fit stays whole; every other is the double of its significand, multiplied
or divided once by the double of a power of ten. `skipNumber` passes over the digits alone.
-/

namespace RegistryAuth.Json

/-! ## Numerals -/

/-- Whether a byte is a decimal digit. -/
def isDigit (b : UInt8) : Bool := '0'.toUInt8 ≤ b && b ≤ '9'.toUInt8

/-- The value of a decimal digit. -/
def digitValue (b : UInt8) : Nat := b.toNat - 48

/-- Whether a byte is the sign of a negative number. -/
def isMinus (b : UInt8) : Bool := b = '-'.toUInt8

/-- Whether a byte starts a fraction. -/
def isPoint (b : UInt8) : Bool := b = '.'.toUInt8

/-- Whether a byte starts an exponent. -/
def isExponentMark (b : UInt8) : Bool := b = 'e'.toUInt8 || b = 'E'.toUInt8

/-- The exponent of a numeral. -/
structure Exponent where
  /-- Whether it is negative. -/
  down : Bool
  digits : Bytes
  deriving DecidableEq, Repr

/-- A number as it is written. -/
structure Numeral where
  negative : Bool
  /-- The digits before the point. -/
  whole : Bytes
  /-- The digits after the point, none if there is no point. -/
  fraction : Bytes
  exponent : Option Exponent
  deriving DecidableEq, Repr

/-- Reads digits, one at least; `ended` is the cause where the text ends before it. -/
def digits (ended : Cause) : Reader Bytes where
  read
    | [] => .error (.atEnd ended)
    | b :: rest =>
      if isDigit b then .ok (b :: rest.takeWhile isDigit, rest.dropWhile isDigit)
      else .error (.before .invalidNumber rest)
  shorter h := by
    split at h
    · cases h
    · split at h
      · cases h
        exact Nat.lt_succ_of_le (List.dropWhile_suffix isDigit).length_le
      · cases h

/-- The digits before the point: no further digit follows a leading zero. -/
def wholeDigits : Bytes → Except Fault Bytes
  | first :: second :: more =>
    if first = '0'.toUInt8 then .error (.before .invalidNumber more)
    else .ok (first :: second :: more)
  | ds => .ok ds

/-- A text without the sign at its start that `isSign` recognises, and whether the sign is minus. -/
def sign (isSign : UInt8 → Bool) (s : Bytes) : Bool × Bytes :=
  match s with
  | [] => (false, [])
  | b :: rest => if isSign b then (isMinus b, rest) else (false, b :: rest)

theorem length_sign_le (isSign : UInt8 → Bool) (s : Bytes) :
    (sign isSign s).2.length ≤ s.length := by
  unfold sign
  split
  · simp
  · split <;> simp

/-- Reads an exponent after its mark. -/
def exponent (ended : Cause) : Reader Exponent where
  read s :=
    let (down, s) := sign (fun b => isMinus b || b = '+'.toUInt8) s
    (digits ended s).map fun (ds, rest) => (⟨down, ds⟩, rest)
  shorter {s _ _} h := by
    obtain ⟨⟨ds, rest⟩, hr, h⟩ := map_eq_ok.1 h
    cases h
    exact Nat.lt_of_lt_of_le ((digits ended).shorter hr) (length_sign_le _ s)

/-- Reads a numeral. Wherever a digit is missing at the end of the text, the cause is `ended`. -/
def numeral (ended : Cause) : Reader Numeral where
  read s := do
    let (negative, s) := sign isMinus s
    let (whole, s) ← (digits ended).refine wholeDigits s
    let (fraction, s) ← optional isPoint [] (digits ended) s
    let (exponent, s) ← optional isExponentMark none ((exponent ended).map some) s
    return (⟨negative, whole, fraction, exponent⟩, s)
  shorter {s _ _} h := by
    obtain ⟨⟨whole, s₁⟩, h₁, h⟩ := bind_eq_ok.1 h
    obtain ⟨⟨fraction, s₂⟩, h₂, h⟩ := bind_eq_ok.1 h
    obtain ⟨⟨exponent, s₃⟩, h₃, h⟩ := bind_eq_ok.1 h
    cases h
    have h₁ := Nat.lt_of_lt_of_le (Reader.shorter _ h₁) (length_sign_le isMinus s)
    have := length_le_of_optional h₂
    have := length_le_of_optional h₃
    omega

/-! ## The double of a decimal -/

/-- The largest power of ten that is a double. -/
def largestPower : Nat := 308

/-- A magnitude divided by 10 ^ `e`, in steps of the largest power. -/
def dividePower? (magnitude e : Nat) : Option Nat :=
  if magnitude = 0 then some 0
  else if e ≤ largestPower then do Binary64.div? magnitude (← Binary64.ofNat? (Nat.pow 10 e))
  else do
    let smaller ← Binary64.div? magnitude (← Binary64.ofNat? (Nat.pow 10 largestPower))
    dividePower? smaller (e - largestPower)
termination_by e
decreasing_by simp only [largestPower] at *; omega

/-- A magnitude multiplied by 10 ^ `e`, if that is finite. -/
def multiplyPower? (magnitude e : Nat) : Option Nat :=
  if e ≤ largestPower then do Binary64.mul? magnitude (← Binary64.ofNat? (Nat.pow 10 e))
  else if magnitude = 0 then some 0
  else none

/-- The double of `significand * 10 ^ exponent` with the given sign. -/
def real (negative : Bool) (significand : Nat) (exponent : Int) : Except Fault Number :=
  let units? := (Binary64.ofNat? significand).bind fun magnitude =>
    if exponent < 0 then dividePower? magnitude exponent.natAbs
    else multiplyPower? magnitude exponent.natAbs
  match units? with
  | some units => .ok (.real ⟨negative, units⟩)
  | none => .error (.atEnd .numberOutOfRange)

/-! ## Values -/

/-- The least natural number that does not fit 64 bits. -/
def wordLimit : Nat := Nat.pow 2 64

/-- Appends decimal digits to `n` as long as the result fits 64 bits. Gives the result and how many
digits went in. -/
def appendDigits (n : Nat) : Bytes → Nat × Nat
  | [] => (n, 0)
  | d :: ds =>
    if n * 10 + digitValue d < wordLimit then
      let (m, count) := appendDigits (n * 10 + digitValue d) ds
      (m, count + 1)
    else (n, 0)

/-- The number of a sign and a natural number of 64 bits. A negative one stays whole if it fits 64
bits with its sign, and minus zero does not. -/
def wholeNumber (negative : Bool) (n : Nat) : Except Fault Number :=
  if negative then
    if 0 < n ∧ n ≤ Nat.pow 2 63 then .ok (.negative n) else real true n 0
  else .ok (.natural n)

/-- The least natural number that does not fit an exponent. -/
def exponentLimit : Nat := Nat.pow 2 31

/-- The digits behind the one with which a number that starts with `n` reaches the limit of
exponents. -/
def beyondLimit (n : Nat) : Bytes → Bytes
  | [] => []
  | d :: ds =>
    if exponentLimit ≤ n * 10 + digitValue d then ds else beyondLimit (n * 10 + digitValue d) ds

/-- The double of a significand with a power of ten and a written exponent. An exponent beyond 31
bits makes zero of a zero significand or if it is negative, and is out of range otherwise; then the
digits behind the limit are not looked at. -/
def withExponent (negative : Bool) (significand : Nat) (power : Int) (e : Exponent) :
    Except Fault Number :=
  let n := e.digits.foldl (fun n d => n * 10 + digitValue d) 0
  if exponentLimit ≤ n then
    if significand ≠ 0 ∧ !e.down then
      .error (.before .numberOutOfRange (beyondLimit 0 e.digits))
    else .ok (.real ⟨negative, 0⟩)
  else real negative significand (if e.down then power - n else power + n)

/-- The number that a numeral stands for. -/
def Numeral.value (n : Numeral) : Except Fault Number :=
  let (whole, used) := appendDigits 0 n.whole
  let dropped := n.whole.length - used
  let (significand, places) := appendDigits whole n.fraction
  let power : Int := dropped - places
  match n.exponent with
  | some e => withExponent n.negative significand power e
  | none =>
    if n.fraction = [] ∧ dropped = 0 then wholeNumber n.negative whole
    else real n.negative significand power

/-- Reads a number. -/
def number : Reader Number := (numeral .endInValue).refine Numeral.value

/-- Passes over a number. -/
def skipNumber : Reader Unit := (numeral .invalidNumber).skip

end RegistryAuth.Json
