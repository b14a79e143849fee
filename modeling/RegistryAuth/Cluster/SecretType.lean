import RegistryAuth.Json.Printer
import RegistryAuth.Json.Typed

/-!
# Secret types

The type of a secret of a cluster is a name; three of the names have a meaning of their own here.
-/

namespace RegistryAuth

/-- The type of a secret. -/
inductive SecretType where
  | dockercfg
  | dockerconfigjson
  | opaqueData
  /-- Any other type. -/
  | other (name : String)
  deriving DecidableEq, Repr

namespace SecretType

/-- The name of a type. -/
def name : SecretType → String
  | .dockercfg => "kubernetes.io/dockercfg"
  | .dockerconfigjson => "kubernetes.io/dockerconfigjson"
  | .opaqueData => "Opaque"
  | .other name => name

/-- The types whose names have a meaning here. -/
def known : List SecretType := [.dockercfg, .dockerconfigjson, .opaqueData]

/-- The type of a name. -/
def ofName (name : String) : SecretType :=
  (known.find? fun type => type.name = name).getD (.other name)

/-- The type as a description shows it. -/
def description : SecretType → String
  | .dockercfg => "DockerCfg"
  | .dockerconfigjson => "DockerConfigJson"
  | .opaqueData => "Opaque"
  | .other name => "Other(" ++ Text.quoted name ++ ")"

/-- The type as JSON text. -/
def toJson (t : SecretType) : String := Json.renderText t.name

/-- The type that a JSON text holds. -/
def ofJson (s : Bytes) : Except Json.Error SecretType :=
  (Json.readText.whole s).map ofName

end SecretType

end RegistryAuth
