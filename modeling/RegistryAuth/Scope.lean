import RegistryAuth.Error
import RegistryAuth.Host
import RegistryAuth.RepositoryPath
import RegistryAuth.Text.Blank

/-!
# Scopes

The key of a credential entry says where the credential applies: on the hosts of a pattern, and
there on all repositories under a path. `Scope.parse` reads a key, with or without scheme, into
normal form; `Scope.text` writes it.
-/

namespace RegistryAuth

/-- Where a credential applies: a host, which may be a pattern, and a repository path under it. The
empty path stands for the whole registry. -/
structure Scope where
  host : String
  path : String
  deriving DecidableEq, Repr

namespace Scope

/-- The paths that on Docker Hub name a version of its interface and no repository. -/
def versionPaths : List String := ["v1", "v2"]

/-- The scope of a host and path in normal form. -/
def ofNormal (host path : String) : Scope :=
  if host = Host.default ∧ path ∈ versionPaths then ⟨host, ""⟩ else ⟨host, path⟩

/-- The scope that a key names. -/
def parse (key : String) : Except ReadError Scope :=
  let stripped := Host.stripScheme (Text.trim key)
  let host := Text.before '/' stripped
  if host = "" then .error (.malformedConfig (.emptyHost key))
  else if Text.hasBlank host then .error (.malformedConfig (.blankInHost key))
  else .ok (ofNormal (Host.normalize host) (RepositoryPath.normalize (Text.after '/' stripped)))

/-- Whether the scope is a whole registry. -/
def isRegistryWide (s : Scope) : Bool := s.path = ""

/-- Whether the host of the scope is a pattern. -/
def isWildcard (s : Scope) : Bool := Host.isWildcard s.host

/-- Whether the scope takes in a path on a host. -/
def covers (s : Scope) (host path : String) : Bool :=
  Host.covers s.host host && RepositoryPath.liesUnder path s.path

/-- The text of a scope. -/
def text (s : Scope) : String := if s.path = "" then s.host else s.host ++ "/" ++ s.path

end Scope

end RegistryAuth
