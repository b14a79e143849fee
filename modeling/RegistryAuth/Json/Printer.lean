import RegistryAuth.Json.Basic

/-!
# Writing JSON

`Value.render` writes a value as compact text. In a literal the quote and the backslash are escaped,
and so is every control character, five of them by a letter; all else stands for itself.
-/

namespace RegistryAuth.Json

/-- A hexadecimal digit, in lower case. -/
def hexDigit (n : Nat) : Char := (Nat.digitChar (n % 16))

/-- The characters that stand for `c` in a literal. -/
def escaped (c : Char) : List Char :=
  if c = '"' ∨ c = '\\' then ['\\', c]
  else if c = '\x08' then ['\\', 'b']
  else if c = '\t' then ['\\', 't']
  else if c = '\n' then ['\\', 'n']
  else if c = '\x0c' then ['\\', 'f']
  else if c = '\r' then ['\\', 'r']
  else if c.toNat < 0x20 then ['\\', 'u', '0', '0', hexDigit (c.toNat / 16), hexDigit c.toNat]
  else [c]

/-- A text as a JSON literal. -/
def renderText (s : String) : String :=
  String.ofList ('"' :: s.toList.flatMap escaped ++ ['"'])

/-- A number as JSON text. -/
def Number.render : Number → String
  | .natural n => toString n
  | .negative n => "-" ++ toString n
  | .real x => x.text

mutual

/-- A value as compact JSON text. -/
def Value.render : Value → String
  | .null => "null"
  | .bool true => "true"
  | .bool false => "false"
  | .number n => n.render
  | .string s => renderText s
  | .array [] => "[]"
  | .array (v :: vs) => "[" ++ v.render ++ renderItems vs ++ "]"
  | .object [] => "\x7b\x7d"
  | .object (m :: ms) => "\x7b" ++ renderMember m ++ renderMembers ms ++ "\x7d"

/-- The further items of an array, each after a comma. -/
def renderItems : List Value → String
  | [] => ""
  | v :: vs => "," ++ v.render ++ renderItems vs

/-- A member of an object. -/
def renderMember : String × Value → String
  | (name, v) => renderText name ++ ":" ++ v.render

/-- The further members of an object, each after a comma. -/
def renderMembers : List (String × Value) → String
  | [] => ""
  | m :: ms => "," ++ renderMember m ++ renderMembers ms

end

end RegistryAuth.Json
