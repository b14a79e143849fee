import RegistryAuth.Document

/-!
# Credential sources

A source is the list of entries of one document. For a target it gives the credential of the most
specific entry that covers it: the one with the longest path, at equal paths one whose host is no
pattern, and then the first.
-/

namespace RegistryAuth

/-- The entries of a document, in order. -/
structure Source where
  entries : List Entry
  deriving DecidableEq, Repr

namespace Source

/-- The source of a document. -/
def parse (format : DocumentFormat) (s : Bytes) : ExceptT ReadError Logged Source := do
  return ⟨← format.entries s⟩

/-- Compares an entry with the best one before it. Only a greater rank takes over, so the earliest
of several equal ones stays. -/
def consider (t : Target) (best : Option Entry) (e : Entry) : Logged (Option Entry) :=
  if e.scope.covers t.host t.path then do
    Logged.emit (.candidate e.scope e.scope.rank)
    match best with
    | none => return some e
    | some b => return some (if b.scope.rank.below e.scope.rank then e else b)
  else return best

/-- The most specific entry that covers a target, and an event for every entry that does. -/
def search (s : Source) (t : Target) : Logged (Option Entry) := s.entries.foldlM (consider t) none

/-- The credential for a target, if an entry covers it. -/
def credentialFor (s : Source) (t : Target) : Logged (Option Credential) := do
  return (← s.search t).map (·.credential)

end Source

end RegistryAuth
