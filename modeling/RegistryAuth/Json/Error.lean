import RegistryAuth.Json.Basic
import RegistryAuth.Text.Utf8

/-!
# JSON errors

What can be wrong with a JSON text, and with the type of a value in it. An error of a text names the
place where it was found, by line and column; a value that is already read has no places.
-/

namespace RegistryAuth.Json

/-- What a reader wanted where it found something else. -/
inductive Wanted where
  | text
  | sequence
  | map
  /-- A record of that name. -/
  | record (name : String)
  deriving DecidableEq, Repr

/-- A wish in words. -/
def Wanted.phrase : Wanted → String
  | .text => "a string"
  | .sequence => "a sequence"
  | .map => "a map"
  | .record name => s!"struct {name}"

/-- What is wrong with a JSON text or value. -/
inductive Cause where
  /-- The text ends where a value is due. -/
  | endInValue
  | endInString
  | endInArray
  | endInObject
  /-- No value starts with what is there. -/
  | valueExpected
  /-- A word that starts like `null`, `true` or `false` and is none of them. -/
  | wordExpected
  | colonExpected
  | arrayCommaOrEndExpected
  | objectCommaOrEndExpected
  | nameNotString
  | trailingComma
  | trailingCharacters
  | invalidNumber
  | numberOutOfRange
  | controlCharacter
  | invalidEscape
  | loneSurrogate
  | unfinishedSurrogate
  | invalidUtf8
  /-- Too many arrays and objects are open at once. -/
  | tooDeep
  | duplicateField (name : String)
  | missingField (name : String)
  | invalidType (found : Found) (wanted : Wanted)
  /-- A record written as an array ends before a field that it must have. -/
  | tooShort (length : Nat) (record : String) (fields : Nat)
  /-- A record written as an array has more items than the record has fields. -/
  | tooLong (length : Nat)
  deriving DecidableEq, Repr

/-- A cause in words. -/
def Cause.message : Cause → String
  | .endInValue => "EOF while parsing a value"
  | .endInString => "EOF while parsing a string"
  | .endInArray => "EOF while parsing a list"
  | .endInObject => "EOF while parsing an object"
  | .valueExpected => "expected value"
  | .wordExpected => "expected ident"
  | .colonExpected => "expected `:`"
  | .arrayCommaOrEndExpected => "expected `,` or `]`"
  | .objectCommaOrEndExpected => "expected `,` or `\x7d`"
  | .nameNotString => "key must be a string"
  | .trailingComma => "trailing comma"
  | .trailingCharacters => "trailing characters"
  | .invalidNumber => "invalid number"
  | .numberOutOfRange => "number out of range"
  | .controlCharacter => "control character (\\u0000-\\u001F) found while parsing a string"
  | .invalidEscape => "invalid escape"
  | .loneSurrogate => "lone leading surrogate in hex escape"
  | .unfinishedSurrogate => "unexpected end of hex escape"
  | .invalidUtf8 => "invalid unicode code point"
  | .tooDeep => "recursion limit exceeded"
  | .duplicateField name => s!"duplicate field `{name}`"
  | .missingField name => s!"missing field `{name}`"
  | .invalidType found wanted => s!"invalid type: {found.text}, expected {wanted.phrase}"
  | .tooShort length record fields =>
    s!"invalid length {length}, expected struct {record} with {fields} elements"
  | .tooLong length => s!"invalid length {length}, expected fewer elements in array"

/-! ## Places -/

/-- The byte that ends a line. -/
def newline : UInt8 := '\n'.toUInt8

/-- A place between two bytes of a text. -/
structure Place where
  /-- The number of its line, the first being 1. -/
  line : Nat
  /-- How many bytes of that line stand before it. -/
  column : Nat
  deriving DecidableEq, Repr

/-- The place behind a text. -/
def Place.behind (s : Bytes) : Place :=
  ⟨s.count newline + 1, (s.reverse.takeWhile (· ≠ newline)).length⟩

/-- A place in words, as they follow the cause. -/
def Place.phrase (place : Place) : String := s!" at line {place.line} column {place.column}"

/-- What is wrong with a JSON text, and where, or with a value. -/
structure Error where
  cause : Cause
  place : Option Place
  deriving DecidableEq, Repr

/-- The wording of a JSON error. -/
def Error.message (e : Error) : String := e.cause.message ++ e.place.elim "" Place.phrase

end RegistryAuth.Json
