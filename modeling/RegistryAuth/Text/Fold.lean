/-!
# ASCII case

Registry hosts and URL schemes compare without regard to ASCII case. Other letters keep theirs:
`lower` changes `A` to `Z` only.
-/

namespace RegistryAuth.Text

/-- A text with its ASCII letters in lower case. -/
def lower (s : String) : String := String.ofList (s.toList.map Char.toLower)

/-- The rest of `s` after `start`, if `s` begins with it in any ASCII case. -/
def dropFolded? (start s : String) : Option String :=
  let n := start.toList.length
  if lower (String.ofList (s.toList.take n)) = lower start then
    some (String.ofList (s.toList.drop n))
  else none

end RegistryAuth.Text
