import RegistryAuth.Credential
import RegistryAuth.Event
import RegistryAuth.Json.Record

/-!
# Credential documents

A credential document is a JSON object of entries, the key of each a scope, either bare
(`.dockercfg`) or as the `auths` member of another object (`.dockerconfigjson`). The value of an
entry gives its credential in one of three ways, and the first that is there counts: an `auth` field
in base64, a registry token, a user name and password. An entry with none of them is skipped with an
event. One entry that cannot be read makes the whole document unreadable.
-/

namespace RegistryAuth

/-- The two shapes of a credential document. -/
inductive DocumentFormat where
  /-- The entries themselves. -/
  | dockercfg
  /-- An object with the entries as its member `auths`. -/
  | dockerconfigjson
  deriving DecidableEq, Repr

/-- A scope and the credential for it. -/
structure Entry where
  scope : Scope
  credential : Credential
  deriving DecidableEq, Repr

/-! ## The value of an entry -/

/-- The fields of an entry's value that matter; `null` counts as absent. -/
structure EntryFields where
  auth : Option String
  username : Option String
  password : Option String
  registryToken : Option String
  deriving DecidableEq, Repr

namespace EntryFields

/-- An entry's value without any field. -/
def blank : EntryFields := ⟨none, none, none, none⟩

/-- The fields by name, in the order in which an array gives them. -/
def parts : List (Json.Part EntryFields) :=
  [.of "auth" (fun fields x => { fields with auth := x }) Json.Value.toText?,
    .of "username" (fun fields x => { fields with username := x }) Json.Value.toText?,
    .of "password" (fun fields x => { fields with password := x }) Json.Value.toText?,
    .of "registrytoken" (fun fields x => { fields with registryToken := x }) Json.Value.toText?]

/-- The fields of an entry's value. -/
def ofValue (v : Json.Value) : Except Json.Cause EntryFields :=
  Json.recordOfValue "AuthEntry" parts blank v

/-- The credential of an `auth` field. -/
def decodeAuth (auth : String) : Except AuthFault Credential := do
  let bytes ← (Base64.decode (Text.utf8 (Text.trim auth))).mapError .base64
  match Text.ofUtf8? bytes with
  | some text => return .ofDecoded text
  | none => throw .notUtf8

/-- A field that is there and not empty. -/
def nonempty (field : Option String) : Option String := field.filter (· ≠ "")

/-- The credential of an entry, if it has one. -/
def credential? (fields : EntryFields) : Except AuthFault (Option Credential) :=
  match nonempty fields.auth, nonempty fields.registryToken with
  | some auth, _ => (decodeAuth auth).map some
  | none, some token => .ok (some (.bearer token))
  | none, none =>
    if fields.username.isNone && fields.password.isNone then .ok none
    else .ok (some (.basic (fields.username.getD "") (fields.password.getD "")))

end EntryFields

/-- The credential in the value of the entry under `key`, if it has one. -/
def entryCredential? (key : String) (v : Json.Value) : Except ReadError (Option Credential) := do
  let fields ← (EntryFields.ofValue v).mapError fun cause => .malformedConfig (.entryType key cause)
  fields.credential?.mapError fun fault => .malformedConfig (.entryAuth key fault)

/-! ## The document -/

/-- The object around the entries of a `.dockerconfigjson` document; without `auths` it has none. -/
def wrapper : Json.Record (Option Json.Members) :=
  { name := "DockerConfigJson"
    fields := [.of "auths" false id (fun _ ms => some ms) (Json.readObject (Json.depthLimit - 2))]
    blank := none }

/-- The entries of a document as JSON members, in order. -/
def DocumentFormat.decode : DocumentFormat → Bytes → Except Json.Error Json.Members
  | .dockercfg, s => (Json.readObject (Json.depthLimit - 1)).whole s
  | .dockerconfigjson, s => (wrapper.decode s).map (·.getD [])

/-- The entries that carry a credential, in order. The first entry that cannot be read is the
error, its key before its value. -/
def entriesOf : Json.Members → ExceptT ReadError Logged (List Entry)
  | [] => pure []
  | (key, v) :: rest => do
    let scope ← Scope.parse key
    match ← entryCredential? key v with
    | some credential => return ⟨scope, credential⟩ :: (← entriesOf rest)
    | none =>
      Logged.emit (.entrySkipped key)
      entriesOf rest

/-- The members of a document. What cannot be decoded is the error of the whole document. -/
def DocumentFormat.members (format : DocumentFormat) (s : Bytes) : Except ReadError Json.Members :=
  (format.decode s).mapError fun error => .malformedConfig (.undecodable error)

/-- The entries of a document. -/
def DocumentFormat.entries (format : DocumentFormat) (s : Bytes) :
    ExceptT ReadError Logged (List Entry) := do
  entriesOf (← format.members s)

end RegistryAuth
