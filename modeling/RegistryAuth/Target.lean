import RegistryAuth.Error
import RegistryAuth.Host
import RegistryAuth.RepositoryPath
import RegistryAuth.Text.Blank

/-!
# Targets

A target is what credentials are wanted for: a registry or a repository on one. Host and path are
compared as they stand, so both functions that make a target give them in normal form:
`Target.parse` reads an image or registry reference, and `Target.ofHostAndPath` takes a host and a
path and never fails.
-/

namespace RegistryAuth

/-- A registry, or a repository on one. -/
inductive Target where
  | registry (host : String)
  | repository (host path : String)
  deriving DecidableEq, Repr

namespace Target

/-- The host of a target. -/
def host : Target → String
  | .registry host | .repository host _ => host

/-- The path of a target, empty for a registry. -/
def path : Target → String
  | .registry _ => ""
  | .repository _ path => path

/-- The registry that a target is on. -/
def toRegistry (t : Target) : Target := .registry t.host

/-- The text of a target. -/
def text : Target → String
  | .registry host => host
  | .repository host path => host ++ "/" ++ path

/-- The target of a host and a path on it. What follows a slash in the host goes before the path,
and without any path the target is the registry. -/
def ofHostAndPath (host path : String) : Target :=
  let stripped := Host.stripScheme (Text.trim host)
  let host := Host.normalize (Text.before '/' stripped)
  let path := RepositoryPath.normalize (Text.after '/' stripped ++ "/" ++ path)
  if path = "" then .registry host else .repository host path

/-- The target of a host alone. -/
def ofHost (host : String) : Target := ofHostAndPath host ""

/-! ## References -/

/-- The namespace of Docker Hub that a repository without one is in. -/
def officialNamespace : String := "library"

/-- Whether the first of several components is a host. -/
def looksLikeHost (component : String) : Bool :=
  component.toList.contains '.' || component.toList.contains ':' || component = "localhost"

/-- Whether a lone component is a registry, such as `r.io` and `r.io:5000`, and no image with a tag,
such as `nginx:1.25`. -/
def namesRegistry (component : String) : Bool :=
  let name := Text.before ':' component
  name.toList.contains '.' || name = "localhost"

/-- The segments of a repository without the tag of the last one. -/
def dropTag : List String → List String
  | [] => []
  | [last] => [Text.before ':' last]
  | segment :: more => segment :: dropTag more

/-- The repository of a host and its segments. -/
def ofSegments (host : String) (segments : List String) : Target :=
  let host := Host.normalize host
  let segments :=
    if host = Host.default ∧ segments.length = 1 then officialNamespace :: segments else segments
  .repository host (RepositoryPath.ofSegments segments)

/-- The target of the components of a reference, none of them empty. -/
def ofComponents (components : List String) : Except ReferenceFault Target :=
  match components with
  | [single] => if namesRegistry single then .ok (ofHost single) else named Host.default [single]
  | first :: second :: rest =>
    if looksLikeHost first then named first (second :: rest)
    else named Host.default (first :: second :: rest)
  | [] => .error .emptyName
where
  /-- The repository of a host and the components after it. -/
  named (host : String) (components : List String) : Except ReferenceFault Target :=
    let segments := dropTag components
    if segments.getLast? = some "" then .error .emptyName else .ok (ofSegments host segments)

/-- The components of a reference without scheme, digest and slashes at its end. -/
def components (trimmed : String) : List String :=
  Text.split '/' (Text.before '@' (Text.dropTrailing '/' (Host.stripScheme trimmed)))

/-- The target that a reference names. -/
def parse (reference : String) : Except ReadError Target :=
  let trimmed := Text.trim reference
  let result :=
    if trimmed = "" then .error .empty
    else if Text.hasBlank trimmed then .error .blank
    else if "" ∈ components trimmed then .error .emptyComponent
    else ofComponents (components trimmed)
  result.mapError (.invalidReference reference)

end Target

end RegistryAuth
