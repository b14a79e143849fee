import RegistryAuth.Source

/-!
# Pull secrets

A pull secret is a record of a cluster that may hold a credential document: under the data key that
belongs to its type, if the data there is not empty. Its description lists the data keys and shows
no data.
-/

namespace RegistryAuth

/-! ## Data -/

/-- Bytes under keys, of which each stands once. -/
structure SecretData where
  entries : List (String × Bytes)
  nodup : (entries.map (·.1)).Nodup
  deriving DecidableEq, Repr

namespace SecretData

/-- No data. -/
def empty : SecretData := ⟨[], List.nodup_nil⟩

/-- The data with `content` under a key, in the place of what is there. -/
def insert (d : SecretData) (key : String) (content : Bytes) : SecretData where
  entries := (key, content) :: d.entries.filter (·.1 ≠ key)
  nodup := by
    refine List.nodup_cons.2 ⟨fun h => ?_, d.nodup.sublist (List.filter_sublist.map _)⟩
    obtain ⟨e, he, rfl⟩ := List.mem_map.1 h
    simp at he

/-- The data that is put under keys one after the other. -/
def ofList (puts : List (String × Bytes)) : SecretData :=
  puts.foldl (fun d (key, content) => d.insert key content) empty

/-- What is under a key. -/
def get? (d : SecretData) (key : String) : Option Bytes :=
  (d.entries.find? (·.1 = key)).map (·.2)

/-- The keys. -/
def keys (d : SecretData) : List String := d.entries.map (·.1)

end SecretData

/-! ## Secrets -/

/-- A secret of a cluster. -/
structure PullSecret where
  name : String
  /-- The namespace that the secret is in. -/
  space : String
  type : SecretType
  /-- What is put under its data keys, one after the other. -/
  puts : List (String × Bytes)
  deriving DecidableEq, Repr

namespace PullSecret

/-- The data of a secret. -/
def data (s : PullSecret) : SecretData := .ofList s.puts

/-- The data key of a document. -/
def dataKey : DocumentFormat → String
  | .dockercfg => ".dockercfg"
  | .dockerconfigjson => ".dockerconfigjson"

/-- The type of a secret with a document. -/
def typeOf : DocumentFormat → SecretType
  | .dockercfg => .dockercfg
  | .dockerconfigjson => .dockerconfigjson

/-- The secret that holds a document. -/
def ofDocument (space name : String) (format : DocumentFormat) (document : Bytes) : PullSecret :=
  ⟨name, space, typeOf format, [(dataKey format, document)]⟩

/-- The document format of a secret type, if it has one. -/
def format? : SecretType → Option DocumentFormat
  | .dockercfg => some .dockercfg
  | .dockerconfigjson => some .dockerconfigjson
  | .opaqueData | .other _ => none

/-- The credential document of a secret, if it has one. -/
def document? (s : PullSecret) : Option (DocumentFormat × Bytes) := do
  let format ← format? s.type
  let content ← s.data.get? (dataKey format)
  if content = [] then none else some (format, content)

/-- The source of a secret, if it has a document. -/
def source? (s : PullSecret) : ExceptT ClusterError Logged (Option Source) :=
  match s.document? with
  | none => return none
  | some (format, content) => do
    match ← liftM (Source.parse format content).run with
    | .ok source => return some source
    | .error error => throw (.unreadable error)

/-- The secret with its data left out. -/
def description (s : PullSecret) : String :=
  let keys := s.data.keys.mergeSort fun a b => !decide (b < a)
  "PullSecret \x7b name: " ++ Text.quoted s.name ++ ", namespace: " ++ Text.quoted s.space ++
    ", secret_type: " ++ s.type.description ++
    ", data: [" ++ ", ".intercalate (keys.map Text.quoted) ++ "] \x7d"

end PullSecret

end RegistryAuth
