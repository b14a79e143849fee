import RegistryAuth.Base64
import RegistryAuth.Json.Error

/-!
# Errors

Only reading a configuration or a reference can fail, and looking up the records of a cluster. Each
error is a cause; the wording is in its `message`.
-/

namespace RegistryAuth

/-- What can be wrong with the `auth` field of an entry. -/
inductive AuthFault where
  | base64 (error : Base64.Error)
  /-- The decoded bytes are not UTF-8. -/
  | notUtf8
  deriving DecidableEq, Repr

/-- The wording of a fault of an `auth` field. -/
def AuthFault.message : AuthFault → String
  | .base64 error => s!"auth field is not valid base64: {error.message}"
  | .notUtf8 => "auth field is not valid UTF-8"

/-- What can be wrong with a credential document. -/
inductive DocumentFault where
  /-- The document is not JSON or has the wrong type. -/
  | undecodable (error : Json.Error)
  /-- The key of an entry has no host. -/
  | emptyHost (key : String)
  /-- The host in the key of an entry holds a blank. -/
  | blankInHost (key : String)
  /-- The value of an entry has the wrong type. It is taken from a value that is already read, so the
  text of the document has no place for it. -/
  | entryType (key : String) (cause : Json.Cause)
  /-- The `auth` field of an entry cannot be read. -/
  | entryAuth (key : String) (fault : AuthFault)
  /-- Another reason, in words. -/
  | other (reason : String)
  deriving DecidableEq, Repr

/-- The wording of a fault of a document. -/
def DocumentFault.message : DocumentFault → String
  | .undecodable error => s!"failed to parse document: {error.message}"
  | .emptyHost key => s!"entry {Text.quoted key} has an empty registry host"
  | .blankInHost key => s!"entry {Text.quoted key} has whitespace in its registry host"
  | .entryType key cause => s!"entry {Text.quoted key}: {cause.message}"
  | .entryAuth key fault => s!"entry {Text.quoted key}: {fault.message}"
  | .other reason => reason

/-- What can be wrong with an image or registry reference. -/
inductive ReferenceFault where
  | empty
  | blank
  /-- Nothing stands between two of its slashes, or before the first one. -/
  | emptyComponent
  /-- The last component begins with its tag. -/
  | emptyName
  /-- Another reason, in words. -/
  | other (reason : String)
  deriving DecidableEq, Repr

/-- The wording of a fault of a reference. -/
def ReferenceFault.message : ReferenceFault → String
  | .empty => "empty reference"
  | .blank => "reference contains whitespace"
  | .emptyComponent => "empty path component"
  | .emptyName => "empty repository name"
  | .other reason => reason

/-- The errors of reading. -/
inductive ReadError where
  | malformedConfig (fault : DocumentFault)
  | invalidReference (reference : String) (fault : ReferenceFault)
  deriving DecidableEq, Repr

/-- The wording of an error of reading. -/
def ReadError.message : ReadError → String
  | .malformedConfig fault => s!"malformed credential config: {fault.message}"
  | .invalidReference reference fault =>
    s!"invalid reference {Text.quoted reference}: {fault.message}"

/-- The errors of looking up the records of a cluster. -/
inductive ClusterError where
  | secretNotFound (space name : String)
  | accountNotFound (space name : String)
  /-- The cluster could not answer. -/
  | provider (reason : String)
  /-- A record was found and what it holds cannot be read. -/
  | unreadable (error : ReadError)
  deriving DecidableEq, Repr

/-- The wording of an error of looking up. -/
def ClusterError.message : ClusterError → String
  | .secretNotFound space name => s!"Secret not found: {space}/{name}"
  | .accountNotFound space name => s!"Service account not found: {space}/{name}"
  | .provider reason => s!"Provider error: {reason}"
  | .unreadable error => s!"Keychain error: {error.message}"

/-- Whether an error says that a record does not exist. -/
def ClusterError.isNotFound : ClusterError → Bool
  | .secretNotFound .. | .accountNotFound .. => true
  | .provider _ | .unreadable _ => false

end RegistryAuth
