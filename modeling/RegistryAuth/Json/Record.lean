import RegistryAuth.Json.Skim
import RegistryAuth.Json.Typed

/-!
# Records

A record is written as an object, whose members are its fields in any order, or as an array of its
fields in their own order. `Record.reader` reads one from text and `Record.ofValue` takes one from a
value already read. In an object other members are passed over. A field left out keeps its default,
unless the record requires it.

The type `σ` is the record as far as it is read.
-/

namespace RegistryAuth.Json

/-- A field of a record that is read from text. -/
structure Field (σ : Type) where
  /-- The name of the member. -/
  name : String
  /-- Whether it must be there. -/
  required : Bool
  /-- Whether it has been read. -/
  isRead : σ → Bool
  /-- Reads the value of the field into the record. -/
  reader : σ → Reader σ

/-- A field that `get` finds in the record and `set` puts there. -/
def Field.of {σ α : Type} (name : String) (required : Bool) (get : σ → Option α)
    (set : σ → α → σ) (r : Reader α) : Field σ :=
  { name, required
    isRead := fun record => (get record).isSome
    reader := fun record => r.map (set record) }

/-- A record that is read from text. -/
structure Record (σ : Type) where
  /-- The name of the record in messages. -/
  name : String
  fields : List (Field σ)
  /-- The record before anything is read. -/
  blank : σ

namespace Record

variable {σ : Type}

/-! ### As an object -/

/-- What is left of an object that is given up after a name: all but blanks and the brace, if the
object is closed there. -/
def givenUp (s : Bytes) : Bytes :=
  match skipSpace s with
  | [] => []
  | b :: rest => if b = '\x7d'.toUInt8 then rest else b :: rest

/-- Reads a member of a record written as an object. -/
def member (r : Record σ) (record : σ) (name : String) : Reader σ :=
  match r.fields.find? (·.name = name) with
  | some field =>
    if field.isRead record then .fail fun s => .before (.duplicateField name) (givenUp s)
    else (field.reader record).afterColon
  | none => (skim.map fun _ => record).afterColon

/-- A record, unless it lacks a required field. -/
def complete (r : Record σ) (record : σ) : Except Cause σ :=
  match r.fields.find? fun field => field.required && !field.isRead record with
  | some field => .error (.missingField field.name)
  | none => .ok record

/-! ### As an array -/

/-- Passes over the end of an array all of whose fields have been read. -/
def closeArray (s : Bytes) : Except Fault Bytes :=
  match skipSpace s with
  | [] => .error (.atEnd .endInArray)
  | b :: rest =>
    if b = ']'.toUInt8 then .ok rest
    else if b = ','.toUInt8 then
      match skipSpace rest with
      | [] => .error (.atEnd .trailingCharacters)
      | c :: rest =>
        if c = ']'.toUInt8 then .error (.before .trailingComma rest)
        else .error (.before .trailingCharacters rest)
    else .error (.before .trailingCharacters rest)

theorem length_lt_of_closeArray {s rest : Bytes} (h : closeArray s = .ok rest) :
    rest.length < s.length := by
  unfold closeArray at h
  split at h
  · cases h
  · next hs =>
    split at h
    · cases h; exact length_lt_of_skipSpace hs
    · repeat' split at h
      all_goals cases h

/-- A record whose array ends before the given fields, which start at `position`. -/
def cutShort (r : Record σ) (record : σ) (position : Nat) (missing : List (Field σ)) :
    Except Cause σ :=
  match missing.findIdx? (·.required) with
  | some i => .error (.tooShort (position + i) r.name r.fields.length)
  | none => .ok record

/-- The record in an array from the field at `position` on, `record` being what is read before. -/
def fieldsFrom (r : Record σ) (record : σ) (position : Nat) :
    List (Field σ) → Bytes → Except Fault (σ × Bytes)
  | [], s => do return (record, ← closeArray s)
  | field :: more, s => do
    match ← itemTurn (position = 0) s with
    | .done rest =>
      return (← (r.cutShort record position (field :: more)).mapError (.before · rest), rest)
    | .more start =>
      let (record, rest) ← field.reader record start
      fieldsFrom r record (position + 1) more rest

theorem length_lt_of_fieldsFrom {r : Record σ} {fields : List (Field σ)} {record x : σ}
    {position : Nat} {s rest : Bytes}
    (h : r.fieldsFrom record position fields s = .ok (x, rest)) : rest.length < s.length := by
  induction fields generalizing record position s with
  | nil =>
    obtain ⟨after, hc, h⟩ := bind_eq_ok.1 h
    cases h
    exact length_lt_of_closeArray hc
  | cons field more ih =>
    obtain ⟨turn, ht, h⟩ := bind_eq_ok.1 h
    cases turn with
    | done after =>
      obtain ⟨y, -, h⟩ := bind_eq_ok.1 h
      cases h
      exact length_lt_of_itemTurn_done ht
    | more start =>
      obtain ⟨⟨y, after⟩, hf, h⟩ := bind_eq_ok.1 h
      have := length_le_of_itemTurn_more ht
      have := (field.reader record).shorter hf
      have := ih h
      omega

/-! ### In either form -/

/-- Reads the fields of a record written as an array after its bracket. -/
def arrayReader (r : Record σ) : Reader σ where
  read := r.fieldsFrom r.blank 0 r.fields
  shorter := length_lt_of_fieldsFrom

/-- Reads the fields of a record written as an object after its brace. -/
def objectReader (r : Record σ) : Reader σ := (members r.member r.blank).check r.complete

/-- Reads a record. -/
def reader (r : Record σ) : Reader σ :=
  .byBracket r.arrayReader r.objectReader (.notScalar (.record r.name))

/-- The record that a text holds. -/
def decode (r : Record σ) (s : Bytes) : Except Error σ := r.reader.whole s

end Record

/-! ## From values -/

/-- A field of a record that is taken from a value. -/
structure Part (σ : Type) where
  /-- The name of the member. -/
  name : String
  /-- Takes the value of the field. -/
  take : σ → Value → Except Cause σ

/-- A field that `set` puts into the record. -/
def Part.of {σ α : Type} (name : String) (set : σ → α → σ) (ofValue : Value → Except Cause α) :
    Part σ :=
  { name, take := fun record v => (ofValue v).map (set record) }

variable {σ : Type}

/-- Takes the fields that are among the members of an object, in the order of the members. -/
def takeMembers (parts : List (Part σ)) (record : σ) (ms : Members) : Except Cause σ :=
  ms.foldlM (fun record (name, v) =>
    match parts.find? (·.name = name) with
    | some part => part.take record v
    | none => .ok record) record

/-- Takes the fields from the items of an array. -/
def takeItems (record : σ) : List (Part σ) → List Value → Except Cause σ
  | part :: parts, v :: vs => do takeItems (← part.take record v) parts vs
  | _, _ => .ok record

/-- The record that a value is; no field is required. -/
def recordOfValue (name : String) (parts : List (Part σ)) (blank : σ) :
    Value → Except Cause σ
  | .object ms => takeMembers parts blank ms
  | .array vs => do
    let record ← takeItems blank parts vs
    if parts.length < vs.length then throw (.tooLong vs.length)
    return record
  | v => .error (.invalidType v.found (.record name))

end RegistryAuth.Json
