import RegistryAuth.Cluster.Lookup

/-!
# Stores

A store keeps the records of a cluster in memory, each under its own namespace and name. Of two
records with the same namespace and name it keeps the one put in last.
-/

namespace RegistryAuth

/-- Records in memory, at most one of each kind for a namespace and name. -/
structure Store where
  secrets : List PullSecret
  accounts : List ServiceAccount
  deriving DecidableEq, Repr

namespace Store

/-- The store without records. -/
def empty : Store := ⟨[], []⟩

/-- Whether a secret has a namespace and name. -/
def isSecret (space name : String) (s : PullSecret) : Bool := s.space = space && s.name = name

/-- Whether an account has a namespace and name. -/
def isAccount (space name : String) (a : ServiceAccount) : Bool :=
  a.space = space && a.name = name

/-- The secret of a namespace and name. -/
def secret? (store : Store) (space name : String) : Option PullSecret :=
  store.secrets.find? (isSecret space name)

/-- The account of a namespace and name. -/
def account? (store : Store) (space name : String) : Option ServiceAccount :=
  store.accounts.find? (isAccount space name)

/-- The store without the secret of a namespace and name. -/
def eraseSecret (store : Store) (space name : String) : Store :=
  { store with secrets := store.secrets.filter (!isSecret space name ·) }

/-- The store with a secret in the place of another one of its namespace and name. -/
def insertSecret (store : Store) (s : PullSecret) : Store :=
  { store with secrets := s :: (store.eraseSecret s.space s.name).secrets }

/-- The store with an account in the place of another one of its namespace and name. -/
def insertAccount (store : Store) (a : ServiceAccount) : Store :=
  { store with accounts := a :: store.accounts.filter (!isAccount a.space a.name ·) }

/-- Takes out the secret of a namespace and name. -/
def takeSecret (store : Store) (space name : String) : Option PullSecret × Store :=
  (store.secret? space name, store.eraseSecret space name)

/-! ## Changes -/

/-- A change of a store. -/
inductive Change where
  | insertSecret (s : PullSecret)
  | eraseSecret (space name : String)
  | insertAccount (a : ServiceAccount)
  deriving DecidableEq, Repr

/-- The store after a change. -/
def apply (store : Store) : Change → Store
  | .insertSecret s => store.insertSecret s
  | .eraseSecret space name => store.eraseSecret space name
  | .insertAccount a => store.insertAccount a

/-- The store after a list of changes to the one without records. -/
def ofChanges (changes : List Change) : Store := changes.foldl apply empty

/-! ## Looking up -/

/-- The cluster whose records a store keeps. -/
def cluster (store : Store) : Cluster where
  secret space name :=
    match store.secret? space name with
    | some s => .ok s
    | none => .error (.secretNotFound space name)
  account space name :=
    match store.account? space name with
    | some a => .ok a
    | none => .error (.accountNotFound space name)

end Store

end RegistryAuth
