import RegistryAuth.Json.Error

/-!
# Readers

A reader takes something off the start of a text. What it leaves is shorter than the text
(`Reader.shorter`), so reading again and again comes to an end. A reader gives the first fault from
the left, and its place by how much of the text is left behind it (`Fault`): that needs no account of
what stood before the text. Only the reader of a whole text counts lines (`Reader.whole`).
-/

namespace RegistryAuth.Json

/-! ## Results -/

theorem bind_eq_ok {ε α β : Type} {x : Except ε α} {f : α → Except ε β} {y : β} :
    x >>= f = .ok y ↔ ∃ a, x = .ok a ∧ f a = .ok y := by
  cases x with
  | error e => simp [bind, Except.bind]
  | ok a => simp [bind, Except.bind]

theorem map_eq_ok {ε α β : Type} {x : Except ε α} {f : α → β} {y : β} :
    x.map f = .ok y ↔ ∃ a, x = .ok a ∧ f a = y := by
  cases x with
  | error e => simp [Except.map]
  | ok a => simp [Except.map]

/-! ## Blanks -/

/-- Whether a byte is one of the four blanks of JSON. -/
def isSpace (b : UInt8) : Bool := b = 0x20 || b = 0x09 || b = 0x0A || b = 0x0D

/-- A text without the blanks at its start. -/
def skipSpace (s : Bytes) : Bytes := s.dropWhile isSpace

theorem length_skipSpace_le (s : Bytes) : (skipSpace s).length ≤ s.length :=
  (List.dropWhile_suffix _).length_le

theorem length_lt_of_skipSpace {s : Bytes} {b : UInt8} {rest : Bytes}
    (h : skipSpace s = b :: rest) : rest.length < s.length := by
  have hs := length_skipSpace_le s
  rw [h, List.length_cons] at hs
  omega

/-! ## Faults -/

/-- A fault that a reader comes upon. -/
structure Fault where
  cause : Cause
  /-- How many bytes of the text stand behind its place. -/
  left : Nat
  deriving DecidableEq, Repr

namespace Fault

/-- The fault whose place is in front of `rest`. -/
def before (cause : Cause) (rest : Bytes) : Fault := ⟨cause, rest.length⟩

/-- The fault whose place is the end of the text. -/
def atEnd (cause : Cause) : Fault := ⟨cause, 0⟩

/-- A fault of the text in front of `rest`, as one of the whole text. -/
def followedBy (rest : Bytes) (fault : Fault) : Fault := ⟨fault.cause, fault.left + rest.length⟩

/-- A fault of a text as an error. -/
def inText (s : Bytes) (fault : Fault) : Error :=
  ⟨fault.cause, some (.behind (s.take (s.length - fault.left)))⟩

end Fault

/-! ## Readers -/

/-- A reader takes a value of type `α` off the start of a text. -/
structure Reader (α : Type) where
  /-- The value and the rest of the text, or the fault. -/
  read : Bytes → Except Fault (α × Bytes)
  shorter {s : Bytes} {x : α} {rest : Bytes} : read s = .ok (x, rest) → rest.length < s.length

namespace Reader

variable {α β : Type}

instance : CoeFun (Reader α) fun _ => Bytes → Except Fault (α × Bytes) := ⟨Reader.read⟩

/-- Reads nothing. -/
def fail (fault : Bytes → Fault) : Reader α where
  read s := .error (fault s)
  shorter h := by cases h

/-- Reads a value and applies `f` to it, which may find a fault in the text of the value. -/
def refine (r : Reader α) (f : α → Except Fault β) : Reader β where
  read s := do
    let (x, rest) ← r s
    return (← (f x).mapError (.followedBy rest), rest)
  shorter h := by
    obtain ⟨⟨x, rest⟩, hr, h⟩ := bind_eq_ok.1 h
    obtain ⟨y, -, h⟩ := bind_eq_ok.1 h
    cases h
    exact r.shorter hr

/-- Reads a value and applies `f` to it, which may refuse it as a whole. -/
def check (r : Reader α) (f : α → Except Cause β) : Reader β :=
  r.refine fun x => (f x).mapError .atEnd

/-- Reads a value and applies `f` to it. -/
def map (r : Reader α) (f : α → β) : Reader β where
  read s := (r s).map fun (x, rest) => (f x, rest)
  shorter h := by
    obtain ⟨⟨x, rest⟩, hr, h⟩ := map_eq_ok.1 h
    cases h
    exact r.shorter hr

theorem map_read_eq_ok {r : Reader α} {f : α → β} {s rest : Bytes} {y : β} :
    r.map f s = .ok (y, rest) ↔ ∃ x, r s = .ok (x, rest) ∧ f x = y := by
  refine map_eq_ok.trans ⟨fun ⟨⟨x, after⟩, hr, h⟩ => ?_, fun ⟨x, hr, h⟩ => ⟨(x, rest), hr, ?_⟩⟩
  · cases h
    exact ⟨x, hr, rfl⟩
  · cases h
    rfl

/-- Reads a value and drops it. -/
def skip (r : Reader α) : Reader Unit := r.map fun _ => ()

/-- The value that is read, if only blanks follow it. -/
def last : α × Bytes → Except Fault α
  | (x, rest) =>
    match skipSpace rest with
    | [] => .ok x
    | _ :: after => .error (.before .trailingCharacters after)

/-- Reads a whole text, in which only blanks may follow the value. -/
def whole (r : Reader α) (s : Bytes) : Except Error α := (r s >>= last).mapError (Fault.inText s)

/-- Reads, after blanks, by `array` what follows an opening bracket, by `object` what follows an
opening brace, and all else from its first byte on by `scalar`. -/
def byBracket (array object scalar : Reader α) : Reader α where
  read s :=
    match skipSpace s with
    | [] => .error (.atEnd .endInValue)
    | b :: rest =>
      if b = '['.toUInt8 then array rest
      else if b = '\x7b'.toUInt8 then object rest
      else scalar (b :: rest)
  shorter {s x rest} h := by
    split at h
    · cases h
    · next hs =>
      have hs := length_lt_of_skipSpace hs
      split at h
      · have := array.shorter h; omega
      · split at h
        · have := object.shorter h; omega
        · have := scalar.shorter h; rw [List.length_cons] at this; omega

end Reader

/-- Reads by `r` what follows a mark. A text that does not start with one has the value `absent`. -/
def optional {α : Type} (isMark : UInt8 → Bool) (absent : α) (r : Reader α) (s : Bytes) :
    Except Fault (α × Bytes) :=
  match s with
  | [] => .ok (absent, [])
  | b :: rest => if isMark b then r rest else .ok (absent, b :: rest)

theorem length_le_of_optional {α : Type} {isMark : UInt8 → Bool} {absent : α} {r : Reader α}
    {s : Bytes} {x : α} {rest : Bytes} (h : optional isMark absent r s = .ok (x, rest)) :
    rest.length ≤ s.length := by
  unfold optional at h
  split at h
  · cases h; simp
  · split at h
    · have := r.shorter h; rw [List.length_cons]; omega
    · cases h; simp

end RegistryAuth.Json
