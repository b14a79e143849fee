import RegistryAuth.Cluster.SecretType
import RegistryAuth.Scope
import RegistryAuth.Target

/-!
# Events

What happens on the way to a result is told by events. A computation that tells of events gives
them with its value, in order (`Logged`).
-/

namespace RegistryAuth

/-- How specific the scope of an entry is: first by the bytes of its path, then by whether its host
is no pattern. -/
structure Rank where
  pathBytes : Nat
  exactHost : Bool
  deriving DecidableEq, Repr

/-- Whether a rank is less specific than another one. -/
def Rank.below (a b : Rank) : Bool :=
  a.pathBytes < b.pathBytes ||
    (a.pathBytes = b.pathBytes && !a.exactHost && b.exactHost)

/-- The text of a rank. -/
def Rank.text (r : Rank) : String := s!"({r.pathBytes}, {r.exactHost})"

/-- The rank of a scope. -/
def Scope.rank (s : Scope) : Rank := ⟨s.path.utf8ByteSize, !s.isWildcard⟩

/-- How important an event is. -/
inductive Level where
  | trace
  | debug
  | warn
  deriving DecidableEq, Repr

/-- The name of a level. -/
def Level.name : Level → String
  | .trace => "TRACE"
  | .debug => "DEBUG"
  | .warn => "WARN"

/-- Something that happened. -/
inductive Event where
  /-- An entry covers the target that is looked for. -/
  | candidate (scope : Scope) (rank : Rank)
  /-- An entry of a document holds no credential. -/
  | entrySkipped (key : String)
  /-- The source at a position has the credential for a target. -/
  | resolved (target : Target) (position : Nat)
  /-- No source has a credential for a target. -/
  | fellBack (target : Target)
  | sourceLoaded (label : String) (entries : Nat)
  | sourceSkipped (label : String) (error : ReadError)
  | secretLoaded (name : String) (entries : Nat)
  /-- A secret has no credential document. -/
  | secretWithoutDocument (name : String) (type : SecretType)
  | secretMalformed (name : String) (error : ClusterError)
  | secretMissing (name space : String)
  | accountMissing (name : String)
  deriving DecidableEq, Repr

namespace Event

/-- How important an event is. -/
def level : Event → Level
  | .candidate .. => .trace
  | .entrySkipped _ | .resolved .. | .fellBack _ | .sourceLoaded .. | .secretLoaded .. => .debug
  | .sourceSkipped .. | .secretWithoutDocument .. | .secretMalformed .. | .secretMissing ..
  | .accountMissing _ => .warn

/-- The event in words. -/
def message : Event → String
  | .candidate .. => "candidate entry"
  | .entrySkipped _ => "entry has no credential fields; skipping"
  | .resolved .. => "resolved credentials"
  | .fellBack _ => "no credentials configured, using fallback"
  | .sourceLoaded .. => "loaded credential source"
  | .sourceSkipped .. => "skipping malformed credential source"
  | .secretLoaded .. => "loaded pull secret"
  | .secretWithoutDocument .. => "secret has no docker config data; ignoring"
  | .secretMalformed .. => "malformed pull secret; ignoring"
  | .secretMissing .. => "secret not found; ignoring"
  | .accountMissing _ => "service account not found; ignoring"

/-- The names and texts of what an event is about. -/
def fields : Event → List (String × String)
  | .candidate scope rank => [("key", scope.text), ("rank", rank.text)]
  | .entrySkipped key => [("entry", key)]
  | .resolved target position => [("target", target.text), ("source", toString position)]
  | .fellBack target => [("target", target.text)]
  | .sourceLoaded label entries => [("source", label), ("entries", toString entries)]
  | .sourceSkipped label error => [("source", label), ("error", error.message)]
  | .secretLoaded name entries => [("secret", name), ("entries", toString entries)]
  | .secretWithoutDocument name type => [("secret", name), ("secret_type", type.name)]
  | .secretMalformed name error => [("secret", name), ("error", error.message)]
  | .secretMissing name space => [("secret", name), ("namespace", space)]
  | .accountMissing name => [("service_account", name)]

end Event

/-- A value and the events on the way to it. -/
structure Logged (α : Type) where
  value : α
  events : List Event

namespace Logged

variable {α β γ : Type}

instance : Monad Logged where
  pure a := ⟨a, []⟩
  bind x f := ⟨(f x.value).value, x.events ++ (f x.value).events⟩

/-- Tells of an event. -/
def emit (e : Event) : Logged Unit := ⟨(), [e]⟩

@[simp] theorem value_pure (a : α) : (pure a : Logged α).value = a := rfl

@[simp] theorem events_pure (a : α) : (pure a : Logged α).events = [] := rfl

@[simp] theorem value_bind (x : Logged α) (f : α → Logged β) :
    (x >>= f).value = (f x.value).value := rfl

@[simp] theorem events_bind (x : Logged α) (f : α → Logged β) :
    (x >>= f).events = x.events ++ (f x.value).events := rfl

@[simp] theorem value_emit (e : Event) : (emit e).value = () := rfl

@[simp] theorem events_emit (e : Event) : (emit e).events = [e] := rfl

instance : LawfulMonad Logged := LawfulMonad.mk' Logged
  (fun _ => by simp [Functor.map])
  (fun _ _ => by simp [bind, pure])
  (fun _ _ _ => by simp [bind])

end Logged

end RegistryAuth
