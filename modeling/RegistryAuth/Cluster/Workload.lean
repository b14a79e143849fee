import RegistryAuth.Json.Printer
import RegistryAuth.Json.Record

/-!
# Workloads

A workload says where its pull secrets are found: in a namespace, by their names, and through a
service account. As JSON it is a record all of whose fields have defaults.
-/

namespace RegistryAuth

/-- Where the pull secrets of a workload are found. -/
structure Workload where
  /-- The namespace of the secrets and the service account. -/
  space : String
  /-- The service account whose secrets are used too, or `Workload.noAccount`. -/
  account : String
  /-- The names of its own pull secrets, which come first. -/
  secretNames : List String
  deriving DecidableEq, Repr

namespace Workload

/-- The account name that stands for no service account. -/
def noAccount : String := "no service account"

/-- The namespace and the service account of a workload that names none. -/
def defaultName : String := "default"

/-- The workload of a namespace that names no account and no secrets. -/
def inSpace (space : String) : Workload := ⟨space, defaultName, []⟩

/-- The workload that names nothing. -/
def default : Workload := inSpace defaultName

/-- Whether a service account is looked up. -/
def usesAccount (w : Workload) : Bool := w.account ≠ noAccount

/-! ## JSON -/

/-- A workload as far as it is read. -/
structure Draft where
  space : Option String
  account : Option String
  secretNames : Option (List String)

/-- The draft of which nothing is read. -/
def Draft.blank : Draft := ⟨none, none, none⟩

/-- The workload of a draft, with a default for what it lacks. -/
def ofDraft (draft : Draft) : Workload :=
  ⟨draft.space.getD defaultName, draft.account.getD defaultName, draft.secretNames.getD []⟩

/-- The name of the JSON record of a workload. -/
def recordName : String := "KeychainOptions"

/-- The JSON record of a workload. -/
def record : Json.Record Draft :=
  { name := recordName
    fields :=
      [.of "namespace" false (·.space) (fun draft x => { draft with space := some x })
          Json.readText,
        .of "service_account_name" false (·.account)
          (fun draft x => { draft with account := some x }) Json.readText,
        .of "image_pull_secrets" false (·.secretNames)
          (fun draft x => { draft with secretNames := some x }) Json.readTexts]
    blank := Draft.blank }

/-- The fields of a workload that is taken from a value. -/
def parts : List (Json.Part Draft) :=
  [.of "namespace" (fun draft x => { draft with space := some x }) Json.Value.toText,
    .of "service_account_name" (fun draft x => { draft with account := some x })
      Json.Value.toText,
    .of "image_pull_secrets" (fun draft x => { draft with secretNames := some x })
      Json.Value.toTexts]

/-- The workload that a JSON text holds. -/
def ofJson (s : Bytes) : Except Json.Error Workload := (record.decode s).map ofDraft

/-- The workload that a JSON value is. -/
def ofValue (v : Json.Value) : Except Json.Error Workload :=
  ((Json.recordOfValue recordName parts Draft.blank v).map ofDraft).mapError (⟨·, none⟩)

/-- The workload as compact JSON text. -/
def toJson (w : Workload) : String :=
  (Json.Value.object
    [("namespace", .string w.space), ("service_account_name", .string w.account),
      ("image_pull_secrets", .array (w.secretNames.map .string))]).render

end Workload

end RegistryAuth
