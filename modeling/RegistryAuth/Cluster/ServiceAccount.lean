import RegistryAuth.Json.Printer
import RegistryAuth.Json.Record

/-!
# Service accounts

A service account names the pull secrets of the workloads that run under it. As JSON it is a record
that must have a name and a namespace.
-/

namespace RegistryAuth

/-- A service account of a cluster. -/
structure ServiceAccount where
  name : String
  /-- The namespace that the account is in. -/
  space : String
  /-- The names of its pull secrets, in order. -/
  secretNames : List String
  deriving DecidableEq, Repr

namespace ServiceAccount

/-- The account without pull secrets. -/
def ofName (space name : String) : ServiceAccount := ⟨name, space, []⟩

/-- The account with one more pull secret. -/
def attach (a : ServiceAccount) (secret : String) : ServiceAccount :=
  { a with secretNames := a.secretNames ++ [secret] }

/-! ## JSON -/

/-- An account as far as it is read. -/
structure Draft where
  name : Option String
  space : Option String
  secretNames : Option (List String)

/-- The JSON record of an account. -/
def record : Json.Record Draft :=
  { name := "ServiceAccount"
    fields :=
      [.of "name" true (·.name) (fun draft x => { draft with name := some x }) Json.readText,
        .of "namespace" true (·.space) (fun draft x => { draft with space := some x })
          Json.readText,
        .of "image_pull_secrets" false (·.secretNames)
          (fun draft x => { draft with secretNames := some x }) Json.readTexts]
    blank := ⟨none, none, none⟩ }

/-- The account of a draft. The record requires name and namespace, so both are there. -/
def ofDraft (draft : Draft) : ServiceAccount :=
  ⟨draft.name.getD "", draft.space.getD "", draft.secretNames.getD []⟩

/-- The account that a JSON text holds. -/
def ofJson (s : Bytes) : Except Json.Error ServiceAccount := (record.decode s).map ofDraft

/-- The account as compact JSON text. -/
def toJson (a : ServiceAccount) : String :=
  (Json.Value.object
    [("name", .string a.name), ("namespace", .string a.space),
      ("image_pull_secrets", .array (a.secretNames.map .string))]).render

end ServiceAccount

end RegistryAuth
