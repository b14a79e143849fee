/-!
# Cutting a text at a character

`before` and `after` are the two sides of the first occurrence of a character, `split` the parts
between all its occurrences, and `join` puts such parts together again. Splitting always gives at
least one part, and the parts may be empty.
-/

namespace RegistryAuth.Text

/-- The part of `s` before its first `c`; all of `s` if `c` does not occur. -/
def before (c : Char) (s : String) : String :=
  String.ofList (s.toList.takeWhile (· != c))

/-- The part of `s` after its first `c`; empty if `c` does not occur. -/
def after (c : Char) (s : String) : String :=
  String.ofList ((s.toList.dropWhile (· != c)).drop 1)

/-- The parts of `s` between the occurrences of `c`. -/
def split (c : Char) (s : String) : List String :=
  (s.toList.splitOn c).map String.ofList

/-- The texts of a list with a `c` between neighbours. -/
def join (c : Char) (parts : List String) : String :=
  String.ofList ([c].intercalate (parts.map String.toList))

/-- A text without the `c`s at its end. -/
def dropTrailing (c : Char) (s : String) : String :=
  String.ofList (s.toList.reverse.dropWhile (· == c)).reverse

theorem join_split (c : Char) (s : String) : join c (split c s) = s := by
  have h : String.toList ∘ String.ofList = id := funext fun _ => String.toList_ofList
  simp [join, split, h, List.intercalate_splitOn]

theorem split_ne_nil (c : Char) (s : String) : split c s ≠ [] := by
  simp [split, List.splitOn_ne_nil]

end RegistryAuth.Text
