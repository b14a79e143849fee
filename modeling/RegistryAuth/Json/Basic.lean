import RegistryAuth.Decimal.Shortest
import RegistryAuth.Text.Quoted

/-!
# JSON values

The members of an object keep the order in which their names were first written, and a name written
again replaces the value in its place (`Members.insert`). Numbers are kept in three kinds, because a
message names them: natural numbers of 64 bits, negative whole numbers of 64 bits, and double
precision for all others.
-/

namespace RegistryAuth.Json

/-- A JSON number. -/
inductive Number where
  | natural (n : Nat)
  /-- The number `-n`. -/
  | negative (n : Nat)
  | real (x : Binary64)
  deriving DecidableEq, Repr

/-- A JSON value. -/
inductive Value where
  | null
  | bool (b : Bool)
  | number (n : Number)
  | string (s : String)
  | array (items : List Value)
  | object (members : List (String × Value))
  deriving Inhabited, Repr

/-- The members of an object, in order, each name once. -/
abbrev Members := List (String × Value)

/-- Sets a member: in its place if the name is there, else at the end. -/
def Members.insert (name : String) (value : Value) : Members → Members
  | [] => [(name, value)]
  | member :: rest =>
    if member.1 = name then (name, value) :: rest else member :: Members.insert name value rest

/-- The value of a member. -/
def Members.get? (name : String) : Members → Option Value
  | [] => none
  | member :: rest => if member.1 = name then some member.2 else Members.get? name rest

/-- The names of the members, in order. -/
def Members.names (members : Members) : List String := members.map (·.1)

/-! ## What a message calls a value -/

/-- The kind of a value, with its content where a message shows it. -/
inductive Found where
  | null
  | bool (b : Bool)
  | number (n : Number)
  | string (s : String)
  | sequence
  | map
  deriving DecidableEq, Repr

/-- The kind of a value. -/
def Value.found : Value → Found
  | .null => .null
  | .bool b => .bool b
  | .number n => .number n
  | .string s => .string s
  | .array _ => .sequence
  | .object _ => .map

/-- A kind of value in words. -/
def Found.text : Found → String
  | .null => "null"
  | .bool b => s!"boolean `{b}`"
  | .number (.natural n) => s!"integer `{n}`"
  | .number (.negative n) => s!"integer `-{n}`"
  | .number (.real x) => s!"floating point `{x.text}`"
  | .string s => s!"string {Text.quoted s}"
  | .sequence => "sequence"
  | .map => "map"

theorem Members.get?_insert (name : String) (value : Value) (members : Members) (other : String) :
    (members.insert name value).get? other =
      if name = other then some value else members.get? other := by
  induction members with
  | nil => simp [Members.insert, Members.get?]
  | cons member rest ih =>
    by_cases hk : member.1 = name
    · by_cases h : name = other <;> simp [Members.insert, Members.get?, hk, h]
    · by_cases h : name = other <;> simp_all [Members.insert, Members.get?]

theorem Members.names_insert (name : String) (value : Value) (members : Members) :
    (members.insert name value).names =
      if name ∈ members.names then members.names else members.names ++ [name] := by
  induction members with
  | nil => simp [Members.insert, Members.names]
  | cons member rest ih =>
    by_cases hk : member.1 = name
    · simp [Members.insert, Members.names, hk]
    · have hk' : ¬ name = member.1 := fun h => hk h.symm
      by_cases h : name ∈ Members.names rest <;> simp_all [Members.insert, Members.names]

end RegistryAuth.Json
