import RegistryAuth.Text.Printable

/-!
# Quoted text

`quoted` is the form in which a text appears inside a message: between double quotes, with the
quote and the backslash behind a backslash, the four common control characters by a letter, and
every other character that is not printable by its code point in hexadecimal.
-/

namespace RegistryAuth.Text

/-- The characters that stand for `c` between quotes. -/
def escaped (c : Char) : List Char :=
  if c = '"' ∨ c = '\\' then ['\\', c]
  else if c = '\t' then ['\\', 't']
  else if c = '\n' then ['\\', 'n']
  else if c = '\r' then ['\\', 'r']
  else if c = '\x00' then ['\\', '0']
  else if isPrintable c then [c]
  else ['\\', 'u', '\x7b'] ++ Nat.toDigits 16 c.toNat ++ ['\x7d']

/-- A text between double quotes, with the characters that need it escaped. -/
def quoted (s : String) : String :=
  String.ofList ('"' :: s.toList.flatMap escaped ++ ['"'])

end RegistryAuth.Text
