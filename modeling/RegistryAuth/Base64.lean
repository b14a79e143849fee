import RegistryAuth.Text.Utf8

/-!
# Base64

The standard alphabet with required padding. `encode` writes three bytes as four symbols and fills
the last group with `=`; `decode` accepts what `encode` writes and nothing else, and otherwise
names the first fault: groups before the last hold four symbols each, the last one two to four, with
padding up to four and no bits left over.
-/

namespace RegistryAuth.Base64

/-- The padding symbol. -/
def pad : UInt8 := '='.toUInt8

/-- The symbol for a value below 64. -/
def symbol (n : Nat) : UInt8 :=
  if n < 26 then UInt8.ofNat (n + 65)
  else if n < 52 then UInt8.ofNat (n + 71)
  else if n < 62 then UInt8.ofNat (n - 4)
  else if n = 62 then '+'.toUInt8
  else '/'.toUInt8

/-- The value of a symbol of the alphabet. -/
def value? (b : UInt8) : Option Nat :=
  let n := b.toNat
  if 65 ≤ n ∧ n ≤ 90 then some (n - 65)
  else if 97 ≤ n ∧ n ≤ 122 then some (n - 71)
  else if 48 ≤ n ∧ n ≤ 57 then some (n + 4)
  else if n = 43 then some 62
  else if n = 47 then some 63
  else none

/-! ## Writing -/

/-- The padded base64 form of a list of bytes. -/
def encode : Bytes → Bytes
  | [] => []
  | [a] =>
    let n := a.toNat * 16
    [symbol (n / 64), symbol (n % 64), pad, pad]
  | [a, b] =>
    let n := (a.toNat * 256 + b.toNat) * 4
    [symbol (n / 4096), symbol (n / 64 % 64), symbol (n % 64), pad]
  | a :: b :: c :: rest =>
    let n := (a.toNat * 256 + b.toNat) * 256 + c.toNat
    symbol (n / 262144) :: symbol (n / 4096 % 64) :: symbol (n / 64 % 64) :: symbol (n % 64)
      :: encode rest

/-! ## Reading -/

/-- What can be wrong with a base64 text. Offsets count bytes from its start. -/
inductive Error where
  /-- A byte that may not stand where it does. -/
  | invalidSymbol (byte : UInt8) (offset : Nat)
  /-- The last group holds a single symbol. -/
  | invalidLength (length : Nat)
  /-- The last group is not filled up to four. -/
  | invalidPadding
  /-- The last symbol has bits that belong to no byte. -/
  | invalidLastSymbol (byte : UInt8) (offset : Nat)
  deriving DecidableEq, Repr

/-- The wording of a base64 error. -/
def Error.message : Error → String
  | .invalidSymbol byte offset => s!"Invalid symbol {byte.toNat}, offset {offset}."
  | .invalidLength length => s!"Invalid input length: {length}"
  | .invalidPadding => "Invalid padding"
  | .invalidLastSymbol byte offset => s!"Invalid last symbol {byte.toNat}, offset {offset}."

/-- The value of the symbol at `offset`, which must be in the alphabet. -/
def valueAt (offset : Nat) (b : UInt8) : Except Error Nat :=
  match value? b with
  | some n => .ok n
  | none => .error (.invalidSymbol b offset)

/-- The three bytes of a number below 2 ^ 24. -/
def threeBytes (n : Nat) : Bytes :=
  [UInt8.ofNat (n / 65536), UInt8.ofNat (n / 256), UInt8.ofNat n]

/-- The bytes of the last group, which starts at `start`. Padding may stand for its last two bytes,
and only for both or for the very last. -/
def decodeLast (start : Nat) : Bytes → Except Error Bytes
  | [] => return []
  | [a] => do
    let _ ← valueAt start a
    throw (.invalidLength (start + 1))
  | [a, b] => do
    let _ ← valueAt start a
    let _ ← valueAt (start + 1) b
    throw .invalidPadding
  | [a, b, c] => do
    let _ ← valueAt start a
    let _ ← valueAt (start + 1) b
    if c ≠ pad then
      let _ ← valueAt (start + 2) c
    throw .invalidPadding
  | a :: b :: c :: d :: _ => do
    let m ← valueAt start a
    let n ← valueAt (start + 1) b
    if c = pad then
      if d ≠ pad then throw (.invalidSymbol pad (start + 2))
      if n % 16 ≠ 0 then throw (.invalidLastSymbol b (start + 1))
      return (threeBytes (m * 262144 + n * 4096)).take 1
    let o ← valueAt (start + 2) c
    if d = pad then
      if o % 4 ≠ 0 then throw (.invalidLastSymbol c (start + 2))
      return (threeBytes (m * 262144 + n * 4096 + o * 64)).take 2
    let p ← valueAt (start + 3) d
    return threeBytes (m * 262144 + n * 4096 + o * 64 + p)

/-- The bytes of the groups from `start` on. -/
def decodeGroups (start : Nat) : Bytes → Except Error Bytes
  | a :: b :: c :: d :: rest =>
    if rest = [] then decodeLast start [a, b, c, d]
    else do
      let m ← valueAt start a
      let n ← valueAt (start + 1) b
      let o ← valueAt (start + 2) c
      let p ← valueAt (start + 3) d
      return threeBytes (m * 262144 + n * 4096 + o * 64 + p) ++ (← decodeGroups (start + 4) rest)
  | group => decodeLast start group

/-- The bytes that a base64 text stands for. A text with a single byte after its complete groups
is refused for that byte before all else, if the byte is neither a symbol nor padding. -/
def decode (text : Bytes) : Except Error Bytes :=
  match text.getLast? with
  | some last =>
    if text.length % 4 = 1 ∧ last ≠ pad ∧ (value? last).isNone then
      .error (.invalidSymbol last (text.length - 1))
    else decodeGroups 0 text
  | none => .ok []

end RegistryAuth.Base64
