import RegistryAuth.Json.Decode

/-!
# Values of a wanted type

Readers for a text, a list of texts and an object, each from JSON text and from a value already
read. Where something else is found the error names both. From text the found value is itself read
first unless it is an array or object, so a fault inside it wins.
-/

namespace RegistryAuth.Json

/-! ## From values -/

/-- The text that a value is. -/
def Value.toText : Value → Except Cause String
  | .string s => .ok s
  | v => .error (.invalidType v.found .text)

/-- The list of texts that a value is. -/
def Value.toTexts : Value → Except Cause (List String)
  | .array items => items.mapM Value.toText
  | v => .error (.invalidType v.found .sequence)

/-- The text that a value is, where `null` stands for none. -/
def Value.toText? : Value → Except Cause (Option String)
  | .null => .ok none
  | v => v.toText.map some

/-! ## From text -/

namespace Reader

variable {α : Type}

/-- Refuses what starts with a bracket, which has been taken; the place of the fault is in front of
the bracket. -/
def notBracket (found : Found) (wanted : Wanted) : Reader α :=
  .fail fun s => ⟨.invalidType found wanted, s.length + 1⟩

/-- Refuses an array. -/
def notArray (wanted : Wanted) : Reader α := notBracket .sequence wanted

/-- Refuses an object. -/
def notObject (wanted : Wanted) : Reader α := notBracket .map wanted

/-- Refuses a value that is neither array nor object. -/
def notScalar (wanted : Wanted) : Reader α :=
  scalar.check fun v => .error (.invalidType v.found wanted)

end Reader

/-- Reads a text. -/
def readText : Reader String :=
  .byBracket (.notArray .text) (.notObject .text) (scalar.check Value.toText)

/-- Reads a list of texts. -/
def readTexts : Reader (List String) :=
  .byBracket (items readText) (.notObject .sequence) (.notScalar .sequence)

/-- Reads an object in which no more than `depth` further arrays and objects are open at once. -/
def readObject (depth : Nat) : Reader Members :=
  .byBracket (.notArray .map) (members (insertMember (value depth)) []) (.notScalar .map)

end RegistryAuth.Json
