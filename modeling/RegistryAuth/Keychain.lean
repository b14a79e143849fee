import RegistryAuth.Source

/-!
# Keychains

A keychain holds sources in order and an access to fall back on. The first source with any entry
that covers a target decides, also where a later one has a more specific entry.
-/

namespace RegistryAuth

/-- Sources in the order in which they are asked, and what applies if none has a credential. -/
structure Keychain where
  sources : List Source
  fallback : Access
  deriving DecidableEq, Repr

namespace Keychain

/-- The keychain without sources that falls back on anonymous access. -/
def empty : Keychain := ⟨[], .anonymous⟩

/-- Asks the sources from `position` on. -/
def resolveFrom (fallback : Access) (t : Target) : Nat → List Source → Logged Access
  | _, [] => do
    Logged.emit (.fellBack t)
    return fallback
  | position, source :: rest => do
    match ← source.credentialFor t with
    | some credential =>
      Logged.emit (.resolved t position)
      return .credential credential
    | none => resolveFrom fallback t (position + 1) rest

/-- How to authenticate for a target. -/
def resolve (k : Keychain) (t : Target) : Logged Access := resolveFrom k.fallback t 0 k.sources

/-! ## Building -/

/-- A step of building a keychain. -/
inductive Step where
  /-- Adds the source of a document; one that cannot be read is left out. -/
  | document (label : String) (format : DocumentFormat) (content : Bytes)
  | source (source : Source)
  | fallback (access : Access)

/-- Adds a source at the end. -/
def addSource (k : Keychain) (s : Source) : Keychain := { k with sources := k.sources ++ [s] }

/-- The keychain after a step. -/
def add (k : Keychain) : Step → Logged Keychain
  | .document label format content => do
    match ← (Source.parse format content).run with
    | .ok source =>
      Logged.emit (.sourceLoaded label source.entries.length)
      return k.addSource source
    | .error error =>
      Logged.emit (.sourceSkipped label error)
      return k
  | .source source => return k.addSource source
  | .fallback access => return { k with fallback := access }

/-- The keychain of a list of steps. -/
def build (steps : List Step) : Logged Keychain := steps.foldlM add empty

end Keychain

end RegistryAuth
