import RegistryAuth.Json.Layout
import RegistryAuth.Json.Number

/-!
# Decoding

`value` reads any JSON value from the start of a text; its argument is how many arrays and objects
may still be opened. `decode` reads a whole text, in which `depthLimit` of them may be open at once.
-/

namespace RegistryAuth.Json

/-- How many arrays and objects may be open at once. -/
def depthLimit : Nat := 127

/-! ## Values that are neither array nor object -/

/-- Passes over the rest of a word. -/
def word : Bytes → Bytes → Except Fault Bytes
  | [], s => .ok s
  | _ :: _, [] => .error (.atEnd .endInValue)
  | expected :: more, b :: rest =>
    if b = expected then word more rest else .error (.before .wordExpected rest)

theorem length_le_of_word {expected s rest : Bytes} (h : word expected s = .ok rest) :
    rest.length ≤ s.length := by
  fun_induction word expected s with
  | case1 s => cases h; exact Nat.le_refl _
  | case2 => cases h
  | case3 _ _ _ ih => have := ih h; rw [List.length_cons]; omega
  | case4 => cases h

/-- Reads a value that is neither array nor object, a literal by `text` after its quote and a number
by `number`. -/
def scalarBy {α : Type} (ofWord : Value → α) (text number : Reader α) : Reader α where
  read
    | [] => .error (.atEnd .endInValue)
    | b :: rest =>
      if b = 'n'.toUInt8 then (word (Text.utf8 "ull") rest).map (ofWord .null, ·)
      else if b = 't'.toUInt8 then (word (Text.utf8 "rue") rest).map (ofWord (.bool true), ·)
      else if b = 'f'.toUInt8 then (word (Text.utf8 "alse") rest).map (ofWord (.bool false), ·)
      else if b = quote then text rest
      else if isMinus b || isDigit b then number (b :: rest)
      else .error (.before .valueExpected rest)
  shorter {_ x rest} h := by
    have hword {expected tail : Bytes} {v : α}
        (h : (word expected tail).map (v, ·) = .ok (x, rest)) : rest.length < tail.length + 1 := by
      obtain ⟨after, hw, h⟩ := map_eq_ok.1 h
      cases h
      exact Nat.lt_succ_of_le (length_le_of_word hw)
    split at h
    · cases h
    · repeat' split at h
      · exact hword h
      · exact hword h
      · exact hword h
      · have := text.shorter h; rw [List.length_cons]; omega
      · exact number.shorter h
      · cases h

/-- Reads a value that is neither array nor object. -/
def scalar : Reader Value := scalarBy id (literal.map .string) (number.map .number)

/-! ## All values -/

/-- Reads a member into an object, its value by `value`. -/
def insertMember (value : Reader Value) (before : Members) (name : String) : Reader Members :=
  value.afterColon.map (before.insert name)

/-- Reads a value in which no more than the given number of arrays and objects are open at once. -/
def value : Nat → Reader Value
  | 0 => .byBracket (.fail (.before .tooDeep)) (.fail (.before .tooDeep)) scalar
  | depth + 1 =>
    .byBracket ((items (value depth)).map .array)
      ((members (insertMember (value depth)) []).map .object) scalar

/-- The value that a text holds. -/
def decode (s : Bytes) : Except Error Value := (value depthLimit).whole s

end RegistryAuth.Json
