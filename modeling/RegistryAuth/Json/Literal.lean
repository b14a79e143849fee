import RegistryAuth.Json.Reader

/-!
# String literals

`literal` reads a JSON string after its opening quote: plain bytes, escapes by a letter, and UTF-16
units in four hexadecimal digits, of which a surrogate pair makes one character. The bytes are
checked to be UTF-8 once the closing quote is reached. `skipLiteral` only finds the end of a literal
whose content does not matter: it looks at neither UTF-8 nor surrogates.

Where a literal is cut off by a control character, the place of the fault is behind it for `literal`
and in front of it for `skipLiteral`.
-/

namespace RegistryAuth.Json

/-- The quote around a literal. -/
def quote : UInt8 := '"'.toUInt8

/-- The byte that starts an escape. -/
def backslash : UInt8 := '\\'.toUInt8

/-- The byte that starts an escape by code unit. -/
def unitMark : UInt8 := 'u'.toUInt8

/-! ## Escapes -/

/-- The character that an escape by a letter stands for. -/
def letterEscape? (b : UInt8) : Option Char :=
  if b = quote then some '"'
  else if b = backslash then some '\\'
  else if b = '/'.toUInt8 then some '/'
  else if b = 'b'.toUInt8 then some '\x08'
  else if b = 'f'.toUInt8 then some '\x0c'
  else if b = 'n'.toUInt8 then some '\n'
  else if b = 'r'.toUInt8 then some '\r'
  else if b = 't'.toUInt8 then some '\t'
  else none

/-- The value of a hexadecimal digit, in either case. -/
def hexValue? (b : UInt8) : Option Nat :=
  let n := b.toNat
  if 48 ≤ n ∧ n ≤ 57 then some (n - 48)
  else if 65 ≤ n ∧ n ≤ 70 then some (n - 55)
  else if 97 ≤ n ∧ n ≤ 102 then some (n - 87)
  else none

/-- The UTF-16 unit that four hexadecimal digits name. -/
def unit? (a b c d : UInt8) : Option Nat := do
  return (((← hexValue? a) * 16 + (← hexValue? b)) * 16 + (← hexValue? c)) * 16 + (← hexValue? d)

/-- Reads a UTF-16 unit in four hexadecimal digits. -/
def unit : Reader Nat where
  read
    | a :: b :: c :: d :: rest =>
      match unit? a b c d with
      | some n => .ok (n, rest)
      | none => .error (.before .invalidEscape rest)
    | _ => .error (.atEnd .endInString)
  shorter h := by
    split at h
    · split at h
      · cases h; simp only [List.length_cons]; omega
      · cases h
    · cases h

/-- Whether a unit is the first of a surrogate pair. -/
def isLeading (n : Nat) : Bool := 0xD800 ≤ n && n ≤ 0xDBFF

/-- Whether a unit is the second of a surrogate pair. -/
def isTrailing (n : Nat) : Bool := 0xDC00 ≤ n && n ≤ 0xDFFF

/-- The character of a surrogate pair. -/
def pairChar (leading trailing : Nat) : Char :=
  Char.ofNat (0x10000 + (leading - 0xD800) * 0x400 + (trailing - 0xDC00))

/-- Passes over a byte that must follow the first unit of a surrogate pair. -/
def pairByte (expected : UInt8) : Bytes → Except Fault Bytes
  | [] => .error (.atEnd .endInString)
  | b :: rest => if b = expected then .ok rest else .error (.before .unfinishedSurrogate rest)

theorem length_lt_of_pairByte {expected : UInt8} {s rest : Bytes}
    (h : pairByte expected s = .ok rest) : rest.length < s.length := by
  unfold pairByte at h
  split at h
  · cases h
  · split at h
    · cases h; simp
    · cases h

/-- Reads the second unit of a surrogate pair, with the escape that it starts with. -/
def trailingUnit : Reader Nat where
  read s := do
    let (n, rest) ← unit (← pairByte unitMark (← pairByte backslash s))
    if isTrailing n then return (n, rest) else throw (.before .loneSurrogate rest)
  shorter h := by
    obtain ⟨s₁, h₁, h⟩ := bind_eq_ok.1 h
    obtain ⟨s₂, h₂, h⟩ := bind_eq_ok.1 h
    obtain ⟨⟨n, s₃⟩, h₃, h⟩ := bind_eq_ok.1 h
    have := length_lt_of_pairByte h₁
    have := length_lt_of_pairByte h₂
    have := unit.shorter h₃
    dsimp only at h
    split at h
    · cases h; omega
    · cases h

/-- Reads an escape by code unit after its `u`. -/
def unitEscape : Reader Char where
  read s := do
    let (n, rest) ← unit s
    if isTrailing n then throw (.before .loneSurrogate rest)
    else if isLeading n then
      let (second, rest) ← trailingUnit rest
      return (pairChar n second, rest)
    else return (Char.ofNat n, rest)
  shorter h := by
    obtain ⟨⟨n, s₁⟩, h₁, h⟩ := bind_eq_ok.1 h
    have := unit.shorter h₁
    dsimp only at h
    split at h
    · cases h
    · split at h
      · obtain ⟨⟨second, s₂⟩, h₂, h⟩ := bind_eq_ok.1 h
        have := trailingUnit.shorter h₂
        obtain ⟨-, rfl⟩ := Prod.mk.inj (Except.ok.inj h)
        dsimp only
        omega
      · cases h; omega

/-- Reads an escape after its backslash: by `letter` one that stands for a character, and by `units`
one by code unit. -/
def escapeBy {α : Type} (letter : Char → α) (units : Reader α) : Reader α where
  read
    | [] => .error (.atEnd .endInString)
    | mark :: rest =>
      match letterEscape? mark with
      | some c => .ok (letter c, rest)
      | none => if mark = unitMark then units rest else .error (.before .invalidEscape rest)
  shorter h := by
    split at h
    · cases h
    · split at h
      · cases h; simp
      · split at h
        · have := units.shorter h; rw [List.length_cons]; omega
        · cases h

/-- Reads an escape as the UTF-8 form of its character. -/
def escape : Reader Bytes :=
  escapeBy String.utf8EncodeChar (unitEscape.map String.utf8EncodeChar)

/-- Passes over an escape. Any unit will do. -/
def skipEscape : Reader Bytes := escapeBy (fun _ => []) (unit.map fun _ => [])

/-! ## Literals -/

/-- How the content of a literal is read. -/
structure Style where
  /-- Reads an escape after its backslash. -/
  escape : Reader Bytes
  /-- Whether a control character is passed over before it is refused. -/
  passesControl : Bool

/-- How the content of a literal is read that matters. -/
def reading : Style := ⟨escape, true⟩

/-- How the content of a literal is read that does not matter. -/
def skipping : Style := ⟨skipEscape, false⟩

/-- The content of a literal up to its closing quote. -/
def contentFrom (style : Style) (s : Bytes) : Except Fault (Bytes × Bytes) :=
  match s with
  | [] => .error (.atEnd .endInString)
  | b :: rest =>
    if b = quote then .ok ([], rest)
    else if b < 0x20 then
      .error (.before .controlCharacter (if style.passesControl then rest else b :: rest))
    else if b = backslash then
      match h : style.escape rest with
      | .error e => .error e
      | .ok (bytes, after) =>
        have : after.length < rest.length := style.escape.shorter h
        (contentFrom style after).map fun (content, rest) => (bytes ++ content, rest)
    else (contentFrom style rest).map fun (content, rest) => (b :: content, rest)
termination_by s.length
decreasing_by all_goals rw [List.length_cons]; omega

theorem contentFrom_cons (style : Style) (b : UInt8) (rest : Bytes) :
    contentFrom style (b :: rest) =
      if b = quote then .ok ([], rest)
      else if b < 0x20 then
        .error (.before .controlCharacter (if style.passesControl then rest else b :: rest))
      else if b = backslash then do
        let (bytes, after) ← style.escape rest
        (contentFrom style after).map fun (content, rest) => (bytes ++ content, rest)
      else (contentFrom style rest).map fun (content, rest) => (b :: content, rest) := by
  rw [contentFrom]
  congr 3
  split <;> simp_all [bind, Except.bind]

/-- Reads the content of a literal. -/
def content (style : Style) : Reader Bytes where
  read := contentFrom style
  shorter {s x rest} h := by
    fun_induction contentFrom style s generalizing x rest with
    | case1 => cases h
    | case2 => cases h; simp
    | case3 => cases h
    | case4 => cases h
    | case5 b tail _ _ bytes after found ih =>
      obtain ⟨⟨more, rest⟩, hr, h⟩ := map_eq_ok.1 h
      cases h
      have := ih hr
      rw [List.length_cons]; omega
    | case6 b tail _ _ _ ih =>
      obtain ⟨⟨more, rest⟩, hr, h⟩ := map_eq_ok.1 h
      cases h
      have := ih hr
      rw [List.length_cons]; omega

/-- The text of the content of a literal. -/
def textOf (bytes : Bytes) : Except Cause String :=
  match Text.ofUtf8? bytes with
  | some text => .ok text
  | none => .error .invalidUtf8

/-- Reads a literal after its opening quote. -/
def literal : Reader String := (content reading).check textOf

/-- Passes over a literal after its opening quote. -/
def skipLiteral : Reader Unit := (content skipping).skip

end RegistryAuth.Json
