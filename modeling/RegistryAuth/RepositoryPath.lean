import RegistryAuth.Text.Cut

/-!
# Repository paths

A repository path is a list of segments with `/` between neighbours; the empty path is the registry
itself. The normal form has no empty segments, and a path lies under another one if that is equal
to it or ends right before one of its `/`.
-/

namespace RegistryAuth.RepositoryPath

/-- The segments of a path that are not empty. -/
def segments (path : String) : List String := (Text.split '/' path).filter (· ≠ "")

/-- The path of a list of segments. -/
def ofSegments (segments : List String) : String := Text.join '/' segments

/-- The normal form of a path. -/
def normalize (path : String) : String := ofSegments (segments path)

/-- Whether `path` lies under `top`, on whole segments. Every path lies under the empty one. -/
def liesUnder (path top : String) : Bool :=
  top = "" || path = top || (top.toList ++ ['/']).isPrefixOf path.toList

end RegistryAuth.RepositoryPath
