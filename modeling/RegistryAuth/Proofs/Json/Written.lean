import Mathlib.Data.List.Induction
import RegistryAuth.Json.Typed
import RegistryAuth.Proofs.Json.Faults

/-!
# Objects as they are written

The value of an object keeps one member of a name. `written` gives all members of an object in the
order of the text. They are read one after the other (`Traces`), so any way of reading members is a
loop over them, be it the decoding of the text (`decode_of_written`) or the reading of some of its
members only (`Traces.causes_membersFrom`).
-/

namespace RegistryAuth.Json

/-! ## Values by their first byte -/

section

variable {α : Type} {array object scalar : Reader α} {s tail : Bytes}

theorem byBracket_of_array (h : skipSpace s = '['.toUInt8 :: tail) :
    Reader.byBracket array object scalar s = array tail := by
  simp only [Reader.byBracket, h, if_true]

theorem byBracket_of_object (h : skipSpace s = '\x7b'.toUInt8 :: tail) :
    Reader.byBracket array object scalar s = object tail := by
  have hne : '\x7b'.toUInt8 ≠ '['.toUInt8 := by decide
  simp only [Reader.byBracket, h, if_neg hne, if_true]

theorem byBracket_of_scalar {b : UInt8} (h : skipSpace s = b :: tail) (ha : b ≠ '['.toUInt8)
    (ho : b ≠ '\x7b'.toUInt8) : Reader.byBracket array object scalar s = scalar (b :: tail) := by
  simp only [Reader.byBracket, h, if_neg ha, if_neg ho]

end

/-- How a value starts, and what reads the rest of it. -/
inductive Form (depth : Nat) (s : Bytes) : Value → Bytes → Prop where
  | array {tail rest : Bytes} {xs : List Value} (start : skipSpace s = '['.toUInt8 :: tail)
      (inner : items (value depth) tail = .ok (xs, rest)) : Form depth s (.array xs) rest
  | object {tail rest : Bytes} {ms : Members} (start : skipSpace s = '\x7b'.toUInt8 :: tail)
      (inner : members (insertMember (value depth)) [] tail = .ok (ms, rest)) :
      Form depth s (.object ms) rest
  | scalar {b : UInt8} {tail rest : Bytes} {v : Value} (start : skipSpace s = b :: tail)
      (notArray : b ≠ '['.toUInt8) (notObject : b ≠ '\x7b'.toUInt8)
      (inner : scalar (b :: tail) = .ok (v, rest)) : Form depth s v rest

theorem form_of_value {depth : Nat} {s rest : Bytes} {v : Value}
    (h : value (depth + 1) s = .ok (v, rest)) : Form depth s v rest := by
  simp only [value, Reader.byBracket] at h
  split at h
  · simp at h
  · next b tail hs =>
    split at h
    · next hb =>
      obtain ⟨xs, hx, rfl⟩ := Reader.map_read_eq_ok.1 h
      exact .array (hb ▸ hs) hx
    · split at h
      · next hb =>
        obtain ⟨ms, hx, rfl⟩ := Reader.map_read_eq_ok.1 h
        exact .object (hb ▸ hs) hx
      · next ha ho => exact .scalar hs ha ho h

/-- The members of an object. -/
def Value.toMembers : Value → Except Cause Members
  | .object ms => .ok ms
  | v => .error (.invalidType v.found .map)

/-- Whether a value is neither array nor object. -/
def Value.isScalar : Value → Bool
  | .array _ | .object _ => false
  | .null | .bool _ | .number _ | .string _ => true

theorem isScalar_of_scalar {s rest : Bytes} {v : Value} (h : scalar s = .ok (v, rest)) :
    v.isScalar = true := by
  cases s with
  | nil => cases h
  | cons b tail =>
    simp only [scalar, scalarBy] at h
    repeat' split at h
    all_goals
      first
      | cases h
      | (obtain ⟨x, -, h⟩ := map_eq_ok.1 h; cases h; rfl)

theorem notScalar_of_scalar {s rest : Bytes} {v : Value} (h : scalar s = .ok (v, rest))
    (α : Type) (wanted : Wanted) :
    causes ((Reader.notScalar wanted : Reader α) s) = .error (.invalidType v.found wanted) := by
  rw [Reader.notScalar, causes_check, h]
  rfl

/-- A reader that takes objects only finds a brace. -/
theorem byBracket_object_eq_ok_iff {α : Type} {object : Reader α} {s rest : Bytes} {x : α} :
    Reader.byBracket (.notArray .map) object (.notScalar .map) s = .ok (x, rest) ↔
      ∃ tail, skipSpace s = '\x7b'.toUInt8 :: tail ∧ object tail = .ok (x, rest) := by
  refine ⟨fun h => ?_, fun ⟨tail, hs, h⟩ => (byBracket_of_object hs).trans h⟩
  simp only [Reader.byBracket] at h
  split at h
  · simp at h
  · next b tail hs =>
    split at h
    · cases h
    · split at h
      · next hb => exact ⟨tail, hb ▸ hs, h⟩
      · obtain ⟨⟨v, after⟩, -, h⟩ := bind_eq_ok.1 h
        cases h

theorem readObject_of_value {depth : Nat} {s rest : Bytes} {v : Value}
    (h : value (depth + 1) s = .ok (v, rest)) :
    causes (readObject depth s) = v.toMembers.map (·, rest) := by
  cases form_of_value h with
  | array start inner => rw [readObject, byBracket_of_array start]; rfl
  | object start inner => rw [readObject, byBracket_of_object start, inner]; rfl
  | scalar start ha ho inner =>
    have hv := isScalar_of_scalar inner
    rw [readObject, byBracket_of_scalar start ha ho, notScalar_of_scalar inner]
    cases v with
    | array | object => cases hv
    | null | bool | number | string => rfl

/-! ## All members -/

theorem mem_names_cons {name : String} {w : String × Value} {ws : Members} :
    name ∈ Members.names (w :: ws) ↔ name = w.1 ∨ name ∈ ws.names :=
  List.mem_cons

theorem exists_first {name : String} {ws : Members} (h : name ∈ ws.names) :
    ∃ before v after, ws = before ++ (name, v) :: after ∧ name ∉ Members.names before := by
  induction ws with
  | nil => cases h
  | cons w ws ih =>
    by_cases hw : name = w.1
    · exact ⟨[], w.2, ws, by rw [hw]; rfl, List.not_mem_nil⟩
    · rw [mem_names_cons] at h
      obtain ⟨before, v, after, rfl, hb⟩ := ih (h.resolve_left hw)
      refine ⟨w :: before, v, after, rfl, ?_⟩
      rw [mem_names_cons, not_or]
      exact ⟨hw, hb⟩

/-- Reads a member to the end of those before. -/
def appendMember (value : Reader Value) (before : Members) (name : String) : Reader Members :=
  value.afterColon.map fun v => before ++ [(name, v)]

/-- The members of the object that a text holds, in the order of the text. -/
def written (s : Bytes) : Except Error Members :=
  (Reader.byBracket (.notArray .map) (members (appendMember (value (depthLimit - 1))) [])
    (.notScalar .map)).whole s

/-- The members of an object of which one is written after the other. -/
def merged (ws : Members) : Members := ws.foldl (fun ms w => ms.insert w.1 w.2) []

theorem get?_foldl_insert {name : String} {ws : Members} (h : name ∉ ws.names) (ms : Members) :
    (ws.foldl (fun ms w => ms.insert w.1 w.2) ms).get? name = ms.get? name := by
  induction ws generalizing ms with
  | nil => rfl
  | cons w ws ih =>
    rw [mem_names_cons, not_or] at h
    rw [List.foldl_cons, ih h.2, Members.get?_insert, if_neg (Ne.symm h.1)]

theorem get?_merged_of_not_mem {name : String} {ws : Members} (h : name ∉ ws.names) :
    (merged ws).get? name = none :=
  get?_foldl_insert h []

/-- Of members with one name the last counts. -/
theorem get?_merged_of_last {name : String} (before : Members) (v : Value) {after : Members}
    (h : name ∉ after.names) : (merged (before ++ (name, v) :: after)).get? name = some v := by
  rw [merged, List.foldl_append, List.foldl_cons, get?_foldl_insert h, Members.get?_insert,
    if_pos rfl]

theorem merged_concat (ws : Members) (w : String × Value) :
    merged (ws ++ [w]) = (merged ws).insert w.1 w.2 := by
  rw [merged, List.foldl_append]
  rfl

/-- Names stand in the order in which they are first written. -/
theorem names_merged (ws : Members) : (merged ws).names = ws.names.eraseDups := by
  induction ws using List.reverseRecOn with
  | nil => rfl
  | append_singleton ws w ih =>
    have hw : Members.names (ws ++ [w]) = Members.names ws ++ [w.1] := List.map_append
    rw [merged_concat, hw, Members.names_insert, List.eraseDups_append, ih]
    by_cases h : w.1 ∈ Members.names ws
    · simp [h, List.removeAll]
    · simp [h, List.removeAll, List.eraseDups_cons]

/-- The members that `value` reads from one turn of an object on up to another one; of either turn,
whether no member comes before it. -/
inductive Traces (value : Reader Value) : Bool → Bytes → Members → Bool → Bytes → Prop where
  | nil (first : Bool) (s : Bytes) : Traces value first s [] first s
  | cons {first last : Bool} {s start afterName after rest : Bytes} {name : String} {v : Value}
      {ws : Members} (turn : nameTurn first s = .ok (.more start))
      (key : literal start = .ok (name, afterName))
      (inner : value.afterColon afterName = .ok (v, after))
      (others : Traces value false after ws last rest) :
      Traces value first s ((name, v) :: ws) last rest

section

variable {σ : Type} {member : σ → String → Reader σ}

theorem membersFrom_of_key {first : Bool} {s start afterName : Bytes} {name : String}
    (turn : nameTurn first s = .ok (.more start))
    (key : literal start = .ok (name, afterName)) (state : σ) :
    membersFrom member first state s =
      member state name afterName >>= fun found => membersFrom member false found.1 found.2 := by
  rw [membersFrom_eq, turn]
  show literal start >>= _ = _
  rw [key]
  rfl

theorem membersFrom_of_done {first : Bool} {s rest : Bytes}
    (turn : nameTurn first s = .ok (.done rest)) (state : σ) :
    membersFrom member first state s = .ok (state, rest) := by
  rw [membersFrom_eq, turn]
  rfl

/-- Where the members of an object can be read, they are traced, and the object is closed. -/
theorem exists_traces (value : Reader Value)
    (hm : ∀ {state name s state' rest}, member state name s = .ok (state', rest) →
      ∃ v, value.afterColon s = .ok (v, rest))
    {first : Bool} {state x : σ} {s rest : Bytes}
    (h : membersFrom member first state s = .ok (x, rest)) :
    ∃ ws last close, Traces value first s ws last close ∧
      nameTurn last close = .ok (.done rest) := by
  fun_induction membersFrom member first state s generalizing x rest with
  | case1 => simp at h
  | case2 first state s _ ht =>
    cases h
    exact ⟨[], first, s, .nil first s, ht⟩
  | case3 => cases h
  | case4 => simp at h
  | case5 first state s start ht name afterName hn state' after hread lt ih =>
    obtain ⟨v, hv⟩ := hm hread
    obtain ⟨ws, last, close, hws, hclose⟩ := ih h
    exact ⟨(name, v) :: ws, last, close, .cons ht hn hv hws, hclose⟩

variable {value : Reader Value} {first last : Bool} {s rest : Bytes} {ws : Members}

theorem Traces.split {before after : Members}
    (h : Traces value first s (before ++ after) last rest) :
    ∃ middle next, Traces value first s before middle next ∧
      Traces value middle next after last rest := by
  induction before generalizing first s with
  | nil => exact ⟨first, s, .nil first s, h⟩
  | cons w before ih =>
    cases h with
    | cons turn key inner others =>
      obtain ⟨middle, next, hbefore, hafter⟩ := ih others
      exact ⟨middle, next, .cons turn key inner hbefore, hafter⟩

/-- Whether the reader of a member does at each member what `step` does, as far as it can be told
from the value. -/
def StepsBy (value : Reader Value) (member : σ → String → Reader σ)
    (step : σ → String × Value → Except Cause σ) : Prop :=
  ∀ ⦃state name s v rest⦄, value.afterColon s = .ok (v, rest) →
    causes (member state name s) = (step state (name, v)).map (·, rest)

variable {step : σ → String × Value → Except Cause σ} (hs : StepsBy value member step)
include hs

/-- Reading the members is a loop over them: the first member that is refused ends it. -/
theorem Traces.causes_membersFrom (h : Traces value first s ws last rest) (state : σ) :
    causes (membersFrom member first state s) =
      ws.foldlM step state >>= fun state => causes (membersFrom member last state rest) := by
  induction h generalizing state with
  | nil => rfl
  | @cons first last s start afterName after rest name v ws turn key inner others ih =>
    rw [membersFrom_of_key turn key, causes_bind, hs inner, List.foldlM_cons]
    cases step state (name, v) with
    | error e => rfl
    | ok state' => exact ih state'

/-- Members that are all taken leave reading where they end. -/
theorem Traces.membersFrom_eq (h : Traces value first s ws last rest) {state state' : σ}
    (ho : ws.foldlM step state = .ok state') :
    membersFrom member first state s = membersFrom member last state' rest := by
  induction h generalizing state with
  | nil => rw [Except.ok.inj ho]
  | @cons first last s start afterName after rest name v ws turn key inner others ih =>
    rw [List.foldlM_cons] at ho
    obtain ⟨middle, hstep, ho⟩ := bind_eq_ok.1 ho
    have hm : member state name afterName = .ok (middle, after) := by
      rw [← causes_eq_ok, hs inner, hstep]
      rfl
    rw [membersFrom_of_key turn key, hm]
    exact ih ho

end

theorem stepsBy_appendMember (value : Reader Value) :
    StepsBy value (appendMember value) fun before w => pure (before ++ [w]) := by
  intro before name s v rest hv
  simp [appendMember, Reader.map, hv, Except.map, causes, pure, Except.pure, Except.mapError]

theorem stepsBy_insertMember (value : Reader Value) :
    StepsBy value (insertMember value) fun before w => pure (before.insert w.1 w.2) := by
  intro before name s v rest hv
  simp [insertMember, Reader.map, hv, Except.map, causes, pure, Except.pure, Except.mapError]

section

variable {value : Reader Value} {first last : Bool} {s close rest : Bytes} {ws : Members}
  (h : Traces value first s ws last close) (hclose : nameTurn last close = .ok (.done rest))
include h hclose

theorem membersFrom_append (before : Members) :
    membersFrom (appendMember value) first before s = .ok (before ++ ws, rest) := by
  rw [h.membersFrom_eq (stepsBy_appendMember value) List.foldlM_pure, membersFrom_of_done hclose,
    List.foldl_append_eq_append, ← List.flatMap_def, List.flatMap_singleton']

theorem membersFrom_insert :
    membersFrom (insertMember value) first [] s = .ok (merged ws, rest) := by
  rw [h.membersFrom_eq (stepsBy_insertMember value) List.foldlM_pure, membersFrom_of_done hclose]
  rfl

end

/-! ## Whole texts -/

theorem whole_eq_ok_iff {α : Type} {r : Reader α} {s : Bytes} {x : α} :
    r.whole s = .ok x ↔ ∃ rest, r s = .ok (x, rest) ∧ skipSpace rest = [] := by
  have hlast (y : α) (rest : Bytes) :
      Reader.last (y, rest) = .ok x ↔ y = x ∧ skipSpace rest = [] := by
    rw [Reader.last]
    cases skipSpace rest <;> simp
  rw [Reader.whole, mapError_eq_ok, bind_eq_ok]
  constructor
  · rintro ⟨⟨y, rest⟩, hr, h⟩
    obtain ⟨rfl, hs⟩ := (hlast y rest).1 h
    exact ⟨rest, hr, hs⟩
  · rintro ⟨rest, hr, hs⟩
    exact ⟨(x, rest), hr, (hlast x rest).2 ⟨rfl, hs⟩⟩

theorem cause_whole_of_map {α : Type} {r : Reader α} {s rest : Bytes} {x : Except Cause α}
    (hr : causes (r s) = x.map (·, rest)) (hs : skipSpace rest = []) :
    (r.whole s).mapError Error.cause = x := by
  have hlast (y : α) : Reader.last (y, rest) = .ok y := by rw [Reader.last, hs]
  rw [cause_whole, causes_bind, hr]
  cases x with
  | error e => rfl
  | ok a => exact causes_eq_ok.2 (hlast a)

/-- The text of an object starts with a brace, and all that follows it are the members that are
written, but for blanks. -/
theorem traces_of_written {s : Bytes} {ws : Members} (h : written s = .ok ws) :
    ∃ tail last close rest, skipSpace s = '\x7b'.toUInt8 :: tail ∧
      Traces (value (depthLimit - 1)) true tail ws last close ∧
      nameTurn last close = .ok (.done rest) ∧ skipSpace rest = [] := by
  obtain ⟨rest, hr, hs⟩ := whole_eq_ok_iff.1 h
  obtain ⟨tail, ho, hr⟩ := byBracket_object_eq_ok_iff.1 hr
  obtain ⟨ws', last, close, hw, hclose⟩ := exists_traces (value (depthLimit - 1)) (fun hm => by
    obtain ⟨v, hv, -⟩ := Reader.map_read_eq_ok.1 hm
    exact ⟨v, hv⟩) hr
  obtain ⟨rfl, -⟩ := Prod.mk.inj (Except.ok.inj (hr.symm.trans (membersFrom_append hw hclose [])))
  exact ⟨tail, last, close, rest, ho, hw, hclose, hs⟩

theorem decode_of_written {s : Bytes} {ws : Members} (h : written s = .ok ws) :
    decode s = .ok (.object (merged ws)) := by
  obtain ⟨tail, last, close, rest, hs, hw, hclose, he⟩ := traces_of_written h
  refine whole_eq_ok_iff.2 ⟨rest, ?_, he⟩
  show value (126 + 1) s = _
  rw [value, byBracket_of_object hs]
  show (membersFrom (insertMember (value (depthLimit - 1))) true [] tail).map _ = _
  rw [membersFrom_insert hw hclose]
  rfl

theorem exists_written {s : Bytes} {ms : Members} (h : decode s = .ok (.object ms)) :
    ∃ ws, written s = .ok ws ∧ merged ws = ms := by
  obtain ⟨rest, hr, he⟩ := whole_eq_ok_iff.1 h
  cases form_of_value hr with
  | scalar start ha ho inner => cases isScalar_of_scalar inner
  | object start inner =>
    obtain ⟨ws, last, close, hw, hclose⟩ := exists_traces (value (depthLimit - 1)) (fun hm => by
      obtain ⟨v, hv, -⟩ := Reader.map_read_eq_ok.1 hm
      exact ⟨v, hv⟩) inner
    have hwritten : written s = .ok ws := by
      refine whole_eq_ok_iff.2 ⟨rest, ?_, he⟩
      rw [byBracket_of_object start]
      exact membersFrom_append hw hclose []
    have hmerged := decode_of_written hwritten
    rw [h, Except.ok.injEq, Value.object.injEq] at hmerged
    exact ⟨ws, hwritten, hmerged.symm⟩

theorem cause_whole_readObject_of_decode {s : Bytes} {v : Value} (h : decode s = .ok v) :
    ((readObject (depthLimit - 1)).whole s).mapError Error.cause = v.toMembers := by
  obtain ⟨rest, hr, he⟩ := whole_eq_ok_iff.1 h
  exact cause_whole_of_map (readObject_of_value hr) he

theorem decode_of_whole_readObject {s : Bytes} {ms : Members}
    (h : (readObject (depthLimit - 1)).whole s = .ok ms) : decode s = .ok (.object ms) := by
  obtain ⟨rest, hr, he⟩ := whole_eq_ok_iff.1 h
  obtain ⟨tail, hs, hr⟩ := byBracket_object_eq_ok_iff.1 hr
  refine whole_eq_ok_iff.2 ⟨rest, ?_, he⟩
  show value (126 + 1) s = _
  rw [value, byBracket_of_object hs]
  exact map_eq_ok.2 ⟨_, hr, rfl⟩

end RegistryAuth.Json
