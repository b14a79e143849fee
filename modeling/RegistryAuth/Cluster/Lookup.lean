import RegistryAuth.Cluster.PullSecret
import RegistryAuth.Cluster.ServiceAccount

/-!
# Clusters

A cluster answers two questions: which secret and which service account has a namespace and a name.
An `Outage` lists names for which it cannot answer, in any namespace.
-/

namespace RegistryAuth

/-- The records of a cluster, each by namespace and name. -/
structure Cluster where
  secret : String → String → Except ClusterError PullSecret
  account : String → String → Except ClusterError ServiceAccount

/-- The names that a cluster fails to look up, each with a reason. -/
structure Outage where
  secrets : List (String × String)
  accounts : List (String × String)

namespace Outage

/-- No name fails. -/
def none : Outage := ⟨[], []⟩

/-- The reason for which a name fails: the one given last. -/
def reason? (failures : List (String × String)) (name : String) : Option String :=
  (failures.find? fun (failing, _) => failing = name).map (·.2)

/-- The outage in which looking up a secret name fails too. -/
def failSecret (o : Outage) (name reason : String) : Outage :=
  { o with secrets := (name, reason) :: o.secrets }

/-- The outage in which looking up an account name fails too. -/
def failAccount (o : Outage) (name reason : String) : Outage :=
  { o with accounts := (name, reason) :: o.accounts }

end Outage

/-- The cluster during an outage. -/
def Cluster.during (c : Cluster) (o : Outage) : Cluster where
  secret space name :=
    match Outage.reason? o.secrets name with
    | some reason => .error (.provider reason)
    | none => c.secret space name
  account space name :=
    match Outage.reason? o.accounts name with
    | some reason => .error (.provider reason)
    | none => c.account space name

end RegistryAuth
