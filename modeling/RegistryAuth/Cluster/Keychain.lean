import RegistryAuth.Cluster.Lookup
import RegistryAuth.Cluster.Workload
import RegistryAuth.Keychain

/-!
# The keychain of a workload

The sources of a workload's keychain are the documents of its pull secrets: those it names itself,
then those of its service account. A secret or account that does not exist is passed over with an
event, and so is a secret without a document that can be read. Any other error of the cluster ends
the construction.
-/

namespace RegistryAuth.Keychain

/-- Adds the source of a secret, and tells by one event what became of it. -/
def addSecret (k : Keychain) (s : PullSecret) : Logged Keychain := do
  match ← s.source?.run with
  | .ok (some source) =>
    Logged.emit (.secretLoaded s.name source.entries.length)
    return k.addSource source
  | .ok none =>
    Logged.emit (.secretWithoutDocument s.name s.type)
    return k
  | .error error =>
    Logged.emit (.secretMalformed s.name error)
    return k

/-- The keychain of secrets that have been looked up, in order. -/
def ofSecrets (secrets : List PullSecret) : Logged Keychain := secrets.foldlM addSecret empty

/-- Looks up a secret; one that does not exist is passed over. -/
def fetchSecret (c : Cluster) (space name : String) :
    ExceptT ClusterError Logged (Option PullSecret) :=
  match c.secret space name with
  | .ok s => return some s
  | .error error => do
    if error.isNotFound then
      Logged.emit (.secretMissing name space)
      return none
    else throw error

/-- Looks up secrets in order; the first that cannot be looked up ends it. -/
def fetchSecrets (c : Cluster) (space : String) :
    List String → ExceptT ClusterError Logged (List PullSecret)
  | [] => return []
  | name :: names => do
    let s ← fetchSecret c space name
    return s.toList ++ (← fetchSecrets c space names)

/-- Looks up the secrets of a service account; an account that does not exist has none. -/
def fetchAttached (c : Cluster) (space account : String) :
    ExceptT ClusterError Logged (List PullSecret) :=
  match c.account space account with
  | .ok a => fetchSecrets c space a.secretNames
  | .error error => do
    if error.isNotFound then
      Logged.emit (.accountMissing account)
      return []
    else throw error

/-- The keychain of a workload. -/
def ofWorkload (c : Cluster) (w : Workload) : ExceptT ClusterError Logged Keychain := do
  let named ← fetchSecrets c w.space w.secretNames
  let attached ← if w.usesAccount then fetchAttached c w.space w.account else pure []
  ofSecrets (named ++ attached)

end RegistryAuth.Keychain
