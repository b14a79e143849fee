import RegistryAuth.Json.Decode

/-!
# Passing over values

`skim` finds the end of a value whose content does not matter. It keeps only the brackets that are
open, so it has no limit of depth; it checks the layout and the form of literals and numbers, and
neither their range nor their encoding.
-/

namespace RegistryAuth.Json

/-- An open bracket. -/
inductive Bracket where
  | array
  | object
  deriving DecidableEq, Repr

namespace Bracket

/-- The byte that closes a bracket. -/
def close : Bracket → UInt8
  | .array => ']'.toUInt8
  | .object => '\x7d'.toUInt8

/-- What is wrong where the text ends inside a bracket. -/
def ended : Bracket → Cause
  | .array => .endInArray
  | .object => .endInObject

/-- What is wrong where neither a comma nor the closing bracket follows a value. -/
def commaExpected : Bracket → Cause
  | .array => .arrayCommaOrEndExpected
  | .object => .objectCommaOrEndExpected

end Bracket

/-- Passes over a value that is neither array nor object. -/
def skimScalar : Reader Unit := scalarBy (fun _ => ()) skipLiteral skipNumber

/-- Passes over the name and colon in front of a member's value; an item of an array has none. -/
def skimName : Bracket → Bytes → Except Fault Bytes
  | .array, s => .ok s
  | .object, s =>
    match skipSpace s with
    | [] => .error (.atEnd .endInObject)
    | b :: rest =>
      if b = quote then do
        let (_, rest) ← skipLiteral rest
        colon rest
      else .error (.before .nameNotString rest)

theorem length_le_of_skimName {bracket : Bracket} {s rest : Bytes}
    (h : skimName bracket s = .ok rest) : rest.length ≤ s.length := by
  unfold skimName at h
  split at h
  · cases h; exact Nat.le_refl _
  · split at h
    · cases h
    · next hs =>
      have := length_lt_of_skipSpace hs
      split at h
      · obtain ⟨⟨_, after⟩, hl, h⟩ := bind_eq_ok.1 h
        have := skipLiteral.shorter hl
        have := length_lt_of_colon h
        omega
      · cases h

/-- What `skim` is about to pass over. -/
inductive Stage where
  | value
  /-- What follows inside the innermost bracket; `first` tells that no value came before. -/
  | next (first : Bool)

/-- How many more stages can come before a byte is taken. -/
def Stage.idle : Stage → Nat
  | .value => 0
  | .next _ => 1

/-- Goes on from a stage with brackets open, the innermost first, until none is open. -/
def skimFrom (stage : Stage) (opened : List Bracket) (s : Bytes) : Except Fault Bytes :=
  match stage, opened with
  | .value, opened =>
    match hs : skipSpace s with
    | [] => .error (.atEnd .endInValue)
    | b :: rest =>
      have := length_lt_of_skipSpace hs
      if b = '['.toUInt8 then skimFrom (.next true) (.array :: opened) rest
      else if b = '\x7b'.toUInt8 then skimFrom (.next true) (.object :: opened) rest
      else
        match hb : skimScalar (b :: rest) with
        | .error e => .error e
        | .ok (_, after) =>
          have : after.length < rest.length + 1 := skimScalar.shorter hb
          skimFrom (.next false) opened after
  | .next _, [] => .ok s
  | .next first, bracket :: opened =>
    match hs : skipSpace s with
    | [] => .error (.atEnd bracket.ended)
    | b :: rest =>
      have := length_lt_of_skipSpace hs
      if b = bracket.close then skimFrom (.next false) opened rest
      else if first then
        match hn : skimName bracket (b :: rest) with
        | .error e => .error e
        | .ok after =>
          have : after.length ≤ rest.length + 1 := length_le_of_skimName hn
          skimFrom .value (bracket :: opened) after
      else if b = ','.toUInt8 then
        match hn : skimName bracket rest with
        | .error e => .error e
        | .ok after =>
          have := length_le_of_skimName hn
          skimFrom .value (bracket :: opened) after
      else .error (.before bracket.commaExpected rest)
termination_by 2 * s.length + stage.idle
decreasing_by all_goals simp only [Stage.idle]; omega

theorem skimFrom_value (opened : List Bracket) (s : Bytes) :
    skimFrom .value opened s =
      match skipSpace s with
      | [] => .error (.atEnd .endInValue)
      | b :: rest =>
        if b = '['.toUInt8 then skimFrom (.next true) (.array :: opened) rest
        else if b = '\x7b'.toUInt8 then skimFrom (.next true) (.object :: opened) rest
        else (do
          let (_, after) ← skimScalar (b :: rest)
          skimFrom (.next false) opened after) := by
  rw [skimFrom]
  split
  · next hs => simp only [hs]
  · next hs =>
    simp only [hs]
    congr 2
    split
    · next hb => simp only [hb, bind, Except.bind]
    · next hb => simp only [hb, bind, Except.bind]

theorem skimFrom_next_nil (first : Bool) (s : Bytes) : skimFrom (.next first) [] s = .ok s := by
  rw [skimFrom]

theorem skimFrom_next_cons (first : Bool) (bracket : Bracket) (opened : List Bracket) (s : Bytes) :
    skimFrom (.next first) (bracket :: opened) s =
      match skipSpace s with
      | [] => .error (.atEnd bracket.ended)
      | b :: rest =>
        if b = bracket.close then skimFrom (.next false) opened rest
        else if first then
          skimName bracket (b :: rest) >>= skimFrom .value (bracket :: opened)
        else if b = ','.toUInt8 then
          skimName bracket rest >>= skimFrom .value (bracket :: opened)
        else .error (.before bracket.commaExpected rest) := by
  rw [skimFrom]
  split
  · next hs => simp only [hs]
  · next hs =>
    simp only [hs]
    congr 2
    · split
      · next hn => simp only [hn, bind, Except.bind]
      · next hn => simp only [hn, bind, Except.bind]
    · congr 1
      split
      · next hn => simp only [hn, bind, Except.bind]
      · next hn => simp only [hn, bind, Except.bind]

theorem length_lt_of_skimFrom {stage : Stage} {opened : List Bracket} {s rest : Bytes}
    (h : skimFrom stage opened s = .ok rest) : rest.length < s.length + stage.idle := by
  fun_induction skimFrom stage opened s <;> simp_all [Stage.idle] <;> omega

/-- Passes over a value. -/
def skim : Reader Unit where
  read s := (skimFrom .value [] s).map ((), ·)
  shorter h := by
    obtain ⟨after, hs, h⟩ := map_eq_ok.1 h
    cases h
    exact length_lt_of_skimFrom hs

end RegistryAuth.Json
