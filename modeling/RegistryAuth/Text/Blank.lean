/-!
# Blank characters

The blank characters are those with the Unicode property White_Space; `trim` takes them off both
ends of a text.
-/

namespace RegistryAuth.Text

/-- The ranges of White_Space, ends included, in order. -/
def blankRanges : List (Nat × Nat) :=
  [(0x9, 0xD), (0x20, 0x20), (0x85, 0x85), (0xA0, 0xA0), (0x1680, 0x1680), (0x2000, 0x200A),
    (0x2028, 0x2029), (0x202F, 0x202F), (0x205F, 0x205F), (0x3000, 0x3000)]

/-- Whether a character has the property White_Space. -/
def isBlank (c : Char) : Bool :=
  blankRanges.any fun range => range.1 ≤ c.toNat && c.toNat ≤ range.2

/-- A text without the blank characters at its end. -/
def trimEnd (s : String) : String :=
  String.ofList (s.toList.reverse.dropWhile isBlank).reverse

/-- A text without the blank characters at either end. -/
def trim (s : String) : String :=
  trimEnd (String.ofList (s.toList.dropWhile isBlank))

/-- Whether a text holds a blank character anywhere. -/
def hasBlank (s : String) : Bool := s.toList.any isBlank

end RegistryAuth.Text
