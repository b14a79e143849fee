import RegistryAuth.Json.Literal

/-!
# The layout of arrays and objects

What stands between the parts of an array or object: blanks, commas, colons and closing brackets.
`items` and `members` run a reader over the items of an array and the members of an object.
-/

namespace RegistryAuth.Json

/-! ## Between the parts -/

/-- How an array or object goes on. -/
inductive Turn where
  /-- It is closed; `rest` follows the bracket. -/
  | done (rest : Bytes)
  /-- Another part starts with `rest`. -/
  | more (rest : Bytes)

/-- Finds the next item of an array, or its end; `first` tells that no item came before. -/
def itemTurn (first : Bool) (s : Bytes) : Except Fault Turn :=
  match skipSpace s with
  | [] => .error (.atEnd .endInArray)
  | b :: rest =>
    if b = ']'.toUInt8 then .ok (.done rest)
    else if first then .ok (.more (b :: rest))
    else if b = ','.toUInt8 then
      match skipSpace rest with
      | [] => .error (.atEnd .endInValue)
      | c :: rest =>
        if c = ']'.toUInt8 then .error (.before .trailingComma rest) else .ok (.more (c :: rest))
    else .error (.before .arrayCommaOrEndExpected rest)

/-- Finds the next name of an object, after its opening quote, or the end of the object. -/
def nameTurn (first : Bool) (s : Bytes) : Except Fault Turn :=
  match skipSpace s with
  | [] => .error (.atEnd .endInObject)
  | b :: rest =>
    if b = '\x7d'.toUInt8 then .ok (.done rest)
    else if first then
      if b = quote then .ok (.more rest) else .error (.before .nameNotString rest)
    else if b = ','.toUInt8 then
      match skipSpace rest with
      | [] => .error (.atEnd .endInValue)
      | c :: rest =>
        if c = quote then .ok (.more rest)
        else if c = '\x7d'.toUInt8 then .error (.before .trailingComma rest)
        else .error (.before .nameNotString rest)
    else .error (.before .objectCommaOrEndExpected rest)

theorem length_lt_of_itemTurn_done {first : Bool} {s rest : Bytes}
    (h : itemTurn first s = .ok (.done rest)) : rest.length < s.length := by
  unfold itemTurn at h
  split at h
  · cases h
  · next hs =>
    have hs := length_lt_of_skipSpace hs
    repeat' split at h
    all_goals cases h
    exact hs

theorem length_le_of_itemTurn_more {first : Bool} {s rest : Bytes}
    (h : itemTurn first s = .ok (.more rest)) : rest.length ≤ s.length := by
  unfold itemTurn at h
  split at h
  · cases h
  · next hs =>
    have hs := length_lt_of_skipSpace hs
    repeat' split at h
    all_goals cases h
    · exact hs
    · next hs' _ =>
      have := length_lt_of_skipSpace hs'
      rw [List.length_cons]; omega

theorem length_lt_of_nameTurn_done {first : Bool} {s rest : Bytes}
    (h : nameTurn first s = .ok (.done rest)) : rest.length < s.length := by
  unfold nameTurn at h
  split at h
  · cases h
  · next hs =>
    have hs := length_lt_of_skipSpace hs
    repeat' split at h
    all_goals cases h
    exact hs

theorem length_lt_of_nameTurn_more {first : Bool} {s rest : Bytes}
    (h : nameTurn first s = .ok (.more rest)) : rest.length < s.length := by
  unfold nameTurn at h
  split at h
  · cases h
  · next hs =>
    have hs := length_lt_of_skipSpace hs
    repeat' split at h
    all_goals cases h
    · exact hs
    · next hs' => exact Nat.lt_trans (length_lt_of_skipSpace hs') hs

/-- Passes over the colon between a name and its value. -/
def colon (s : Bytes) : Except Fault Bytes :=
  match skipSpace s with
  | [] => .error (.atEnd .endInObject)
  | b :: rest => if b = ':'.toUInt8 then .ok rest else .error (.before .colonExpected rest)

theorem length_lt_of_colon {s rest : Bytes} (h : colon s = .ok rest) : rest.length < s.length := by
  unfold colon at h
  split at h
  · cases h
  · next hs =>
    split at h
    · cases h; exact length_lt_of_skipSpace hs
    · cases h

/-- Reads a colon and what follows it. -/
def Reader.afterColon {α : Type} (r : Reader α) : Reader α where
  read s := colon s >>= r
  shorter {s _ _} h := by
    obtain ⟨rest, hc, h⟩ := bind_eq_ok.1 h
    have := r.shorter h
    have := length_lt_of_colon hc
    omega

/-! ## Arrays -/

/-- The items of an array from a turn on. -/
def itemsFrom {α : Type} (item : Reader α) (first : Bool) (s : Bytes) :
    Except Fault (List α × Bytes) :=
  match ht : itemTurn first s with
  | .error e => .error e
  | .ok (.done rest) => .ok ([], rest)
  | .ok (.more start) =>
    match hi : item start with
    | .error e => .error e
    | .ok (x, after) =>
      have : after.length < s.length :=
        Nat.lt_of_lt_of_le (item.shorter hi) (length_le_of_itemTurn_more ht)
      (itemsFrom item false after).map fun (xs, rest) => (x :: xs, rest)
termination_by s.length

theorem itemsFrom_eq {α : Type} (item : Reader α) (first : Bool) (s : Bytes) :
    itemsFrom item first s = (do
      match ← itemTurn first s with
      | .done rest => return ([], rest)
      | .more start =>
        let (x, after) ← item start
        let (xs, rest) ← itemsFrom item false after
        return (x :: xs, rest)) := by
  rw [itemsFrom]
  split
  · next ht => rw [ht]; rfl
  · next ht => rw [ht]; rfl
  · next ht =>
    split
    · next hi => simp only [ht, hi, bind, Except.bind]
    · next hi => simp only [ht, hi, bind, Except.bind]; rfl

/-- Reads the items of an array after its bracket. -/
def items {α : Type} (item : Reader α) : Reader (List α) where
  read := itemsFrom item true
  shorter {s x rest} h := by
    generalize true = first at h
    fun_induction itemsFrom item first s generalizing x rest with
    | case1 => cases h
    | case2 first s _ ht => cases h; exact length_lt_of_itemTurn_done ht
    | case3 => cases h
    | case4 first s start ht y after hi lt ih =>
      obtain ⟨⟨ys, rest⟩, hr, h⟩ := map_eq_ok.1 h
      cases h
      have := ih hr
      omega

/-! ## Objects -/

/-- The members of an object from a turn on, `state` being what the members before have made. -/
def membersFrom {σ : Type} (member : σ → String → Reader σ) (first : Bool) (state : σ)
    (s : Bytes) : Except Fault (σ × Bytes) :=
  match ht : nameTurn first s with
  | .error e => .error e
  | .ok (.done rest) => .ok (state, rest)
  | .ok (.more start) =>
    match hn : literal start with
    | .error e => .error e
    | .ok (name, afterName) =>
      match hm : member state name afterName with
      | .error e => .error e
      | .ok (state, after) =>
        have : after.length < s.length := by
          have := length_lt_of_nameTurn_more ht
          have := literal.shorter hn
          have := (member _ name).shorter hm
          omega
        membersFrom member false state after
termination_by s.length

theorem membersFrom_eq {σ : Type} (member : σ → String → Reader σ) (first : Bool) (state : σ)
    (s : Bytes) :
    membersFrom member first state s = (do
      match ← nameTurn first s with
      | .done rest => return (state, rest)
      | .more start =>
        let (name, afterName) ← literal start
        let (state, after) ← member state name afterName
        membersFrom member false state after) := by
  rw [membersFrom]
  split
  · next ht => rw [ht]; rfl
  · next ht => rw [ht]; rfl
  · next ht =>
    split
    · next hn => simp only [ht, hn, bind, Except.bind]
    · next hn =>
      split
      · next hm => simp only [ht, hn, hm, bind, Except.bind]
      · next hm => simp only [ht, hn, hm, bind, Except.bind]

/-- Reads the members of an object after its brace. The reader of a member takes what the members
before have made and the name of this one. -/
def members {σ : Type} (member : σ → String → Reader σ) (state : σ) : Reader σ where
  read := membersFrom member true state
  shorter {s x rest} h := by
    generalize true = first at h
    fun_induction membersFrom member first state s generalizing x rest with
    | case1 => cases h
    | case2 first state s _ ht => cases h; exact length_lt_of_nameTurn_done ht
    | case3 => cases h
    | case4 => cases h
    | case5 first state s start ht name afterName hn state' after hm lt ih =>
      have := ih h
      omega

end RegistryAuth.Json
