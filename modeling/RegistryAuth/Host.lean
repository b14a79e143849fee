import RegistryAuth.Text.Cut
import RegistryAuth.Text.Fold

/-!
# Registry hosts

A registry is named by its host, a number after a colon included. Hosts compare in lower case, and
the aliases of Docker Hub all become `Host.default`, the registry that a reference without host
means.

A host pattern may hold `*`. `Host.covers` compares it with a host label by label, where labels
stand between dots, so a `*` never reaches over a dot.
-/

namespace RegistryAuth.Host

/-- The registry of references that name no host. -/
def default : String := "index.docker.io"

/-- The hosts that name Docker Hub. -/
def hubAliases : List String := [default, "docker.io", "registry-1.docker.io"]

/-- The schemes that may stand in front of a host, in the order in which they are tried. -/
def schemes : List String := ["https://", "http://"]

/-- A text without the scheme at its start, if it has one. -/
def stripScheme (s : String) : String :=
  (schemes.findSome? fun scheme => Text.dropFolded? scheme s).getD s

/-- Whether a host names Docker Hub. -/
def isHub (host : String) : Bool := hubAliases.any fun hub => Text.lower host = Text.lower hub

/-- The normal form of a host. -/
def normalize (host : String) : String := if isHub host then default else Text.lower host

/-! ## Patterns -/

/-- Whether `accepts` holds of some end of a list, the whole and the empty one included. -/
def someEnd (accepts : List Char → Bool) : List Char → Bool
  | [] => accepts []
  | c :: rest => accepts (c :: rest) || someEnd accepts rest

/-- Whether a label belongs to a pattern, in which `*` stands for any characters, also none. -/
def labelMatches : List Char → List Char → Bool
  | [], label => label.isEmpty
  | p :: pattern, label =>
    if p = '*' then someEnd (labelMatches pattern) label
    else
      match label with
      | [] => false
      | c :: rest => c = p && labelMatches pattern rest

/-- Whether a host is a pattern. -/
def isWildcard (pattern : String) : Bool := pattern.toList.contains '*'

/-- Whether a host belongs to a pattern: it is equal to one without `*`, and else it has the same
number of labels and each belongs to the pattern's. -/
def covers (pattern host : String) : Bool :=
  if isWildcard pattern then
    let labels := Text.split '.' host
    let patterns := Text.split '.' pattern
    patterns.length = labels.length &&
      (patterns.zip labels).all fun (p, label) => labelMatches p.toList label.toList
  else pattern = host

end RegistryAuth.Host
