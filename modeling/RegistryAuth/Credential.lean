import RegistryAuth.Base64
import RegistryAuth.Text.Cut
import RegistryAuth.Text.Quoted

/-!
# Credentials

A credential is sent in the `Authorization` header of a request: a user name and password in base64,
or a token as it is. Two credentials are equal under `==` if they send the same header. Their
descriptions show no secret.
-/

namespace RegistryAuth

/-- What is sent to a registry. -/
inductive Credential where
  | basic (username password : String)
  | bearer (token : String)
  deriving DecidableEq, Repr

namespace Credential

/-- The user name, if there is one. -/
def username? : Credential → Option String
  | .basic username _ => some username
  | .bearer _ => none

/-- The text that a basic credential sends in base64. -/
def userAndPassword (username password : String) : String := username ++ ":" ++ password

/-- The credential of the decoded text of an `auth` field: user name and password on the two sides
of the first colon, or a token if there is no colon. -/
def ofDecoded (text : String) : Credential :=
  if text.toList.contains ':' then .basic (Text.before ':' text) (Text.after ':' text)
  else .bearer text

/-- The text of a list of ASCII bytes. -/
def asciiText (bytes : Bytes) : String := String.ofList (bytes.map fun b => Char.ofNat b.toNat)

/-- The value of the `Authorization` header. -/
def authorization : Credential → String
  | .basic username password =>
    "Basic " ++ asciiText (Base64.encode (Text.utf8 (userAndPassword username password)))
  | .bearer token => "Bearer " ++ token

/-- The credential with its secret left out. -/
def description : Credential → String
  | .basic username _ =>
    "Basic \x7b username: " ++ Text.quoted username ++ ", password: \"[REDACTED]\" \x7d"
  | .bearer _ => "Bearer([REDACTED])"

/-- Credentials are equal if they send the same header. -/
instance : BEq Credential := ⟨fun a b => a.authorization == b.authorization⟩

end Credential

/-- How to authenticate to a registry. -/
inductive Access where
  | anonymous
  | credential (credential : Credential)
  deriving DecidableEq, Repr, Inhabited

namespace Access

/-- Whether no credential is sent. -/
def isAnonymous : Access → Bool
  | .anonymous => true
  | .credential _ => false

/-- The credential that is sent, if any. -/
def credential? : Access → Option Credential
  | .anonymous => none
  | .credential c => some c

/-- The value of the `Authorization` header, if one is sent. -/
def authorization? (a : Access) : Option String := a.credential?.map (·.authorization)

/-- The access with its secret left out. -/
def description : Access → String
  | .anonymous => "Anonymous"
  | .credential c => c.description

/-- Both anonymous, or both with equal credentials. -/
instance : BEq Access := ⟨fun a b => a.credential? == b.credential?⟩

end Access

end RegistryAuth
