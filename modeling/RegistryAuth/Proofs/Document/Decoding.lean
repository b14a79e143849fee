import RegistryAuth.Document
import RegistryAuth.Proofs.Json.Skim
import RegistryAuth.Proofs.Json.Written

/-!
# Decoding a document

What a document decodes to, from the JSON value of its text; of a fault that is its cause. The bare
form takes objects only (`cause_decode_dockercfg`). The wrapped form is a record, so it is an object,
of which the members as they are written matter (`cause_wrapper_decode_of_written`), or an array of
at most one item (`cause_wrapper_decode_of_array`).
-/

namespace RegistryAuth

open Json

/-- The field of the wrapper. -/
def authsField : Json.Field (Option Members) :=
  .of "auths" false id (fun _ ms => some ms) (readObject (depthLimit - 2))

/-- Goes on with the entries of a wrapped document at another member of it. -/
def takeAuths (taken : Option Members) (w : String × Value) : Except Cause (Option Members) :=
  if w.1 = "auths" then
    if taken.isSome then .error (.duplicateField "auths") else w.2.toMembers.map some
  else .ok taken

theorem wrapper_member (taken : Option Members) (name : String) :
    wrapper.member taken name =
      if name = "auths" then
        if taken.isSome then .fail fun s => .before (.duplicateField name) (Record.givenUp s)
        else (authsField.reader taken).afterColon
      else (skim.map fun _ => taken).afterColon := by
  by_cases h : name = "auths"
  · simp [Record.member, wrapper, Json.Field.of, authsField, h]
  · simp [Record.member, wrapper, Json.Field.of, h, eq_comm]

theorem causes_authsField_reader_of_value {s rest : Bytes} {v : Value}
    (h : value (depthLimit - 1) s = .ok (v, rest)) (taken : Option Members) :
    causes (authsField.reader taken s) = (v.toMembers.map some).map (·, rest) := by
  have hr : causes (readObject (depthLimit - 2) s) = v.toMembers.map (·, rest) :=
    readObject_of_value h
  show causes ((readObject (depthLimit - 2) s).map _) = _
  rw [causes_map, hr]
  cases v.toMembers <;> rfl

theorem stepsBy_wrapper_member : StepsBy (value (depthLimit - 1)) wrapper.member takeAuths := by
  intro taken name s v rest h
  obtain ⟨tail, hc, hv⟩ := bind_eq_ok.1 h
  rw [wrapper_member, takeAuths]
  dsimp only
  split
  · next hn =>
    split
    · rw [hn]; rfl
    · show causes (colon s >>= _) = _
      rw [hc]
      exact causes_authsField_reader_of_value hv taken
  · show causes (colon s >>= _) = _
    rw [hc]
    show causes ((skim tail).map _) = _
    rw [skim_of_value hv]
    rfl

theorem wrapper_complete (taken : Option Members) : wrapper.complete taken = .ok taken := by
  rfl

theorem causes_wrapper_objectReader (s : Bytes) :
    causes (wrapper.objectReader s) = causes (membersFrom wrapper.member true none s) := by
  rw [Record.objectReader, causes_check]
  show causes (membersFrom wrapper.member true none s) >>= _ = _
  simp only [wrapper_complete]
  cases causes (membersFrom wrapper.member true none s) <;> rfl

theorem cause_wrapper_decode_of_written {s : Bytes} {ws : Members} (h : written s = .ok ws) :
    (wrapper.decode s).mapError Error.cause = ws.foldlM takeAuths none := by
  obtain ⟨tail, last, close, rest, hs, hw, hclose, he⟩ := traces_of_written h
  refine cause_whole_of_map ?_ he
  rw [Record.reader, byBracket_of_object hs, causes_wrapper_objectReader,
    hw.causes_membersFrom stepsBy_wrapper_member]
  simp only [membersFrom_of_done hclose]
  cases ws.foldlM takeAuths none <;> rfl

theorem foldlM_takeAuths_some (ms : Members) (ws : Members) :
    ws.foldlM takeAuths (some ms) =
      if "auths" ∈ ws.names then .error (.duplicateField "auths") else .ok (some ms) := by
  induction ws with
  | nil => rfl
  | cons w ws ih =>
    rw [List.foldlM_cons, takeAuths]
    by_cases h : w.1 = "auths"
    · rw [if_pos h, if_pos (mem_names_cons.2 (.inl h.symm))]
      rfl
    · rw [if_neg h]
      show ws.foldlM takeAuths (some ms) = _
      rw [ih]
      simp only [mem_names_cons, Ne.symm h, false_or]

theorem foldlM_takeAuths_of_not_mem {ws : Members} (h : "auths" ∉ ws.names) :
    ws.foldlM takeAuths none = .ok none := by
  induction ws with
  | nil => rfl
  | cons w ws ih =>
    rw [mem_names_cons, not_or] at h
    rw [List.foldlM_cons, takeAuths, if_neg (Ne.symm h.1)]
    exact ih h.2

theorem foldlM_takeAuths_append {before : Members} (v : Value) (after : Members)
    (h : "auths" ∉ before.names) : (before ++ ("auths", v) :: after).foldlM takeAuths none =
      v.toMembers >>= fun ms => after.foldlM takeAuths (some ms) := by
  rw [List.foldlM_append, foldlM_takeAuths_of_not_mem h]
  show (("auths", v) :: after).foldlM takeAuths none = _
  rw [List.foldlM_cons, takeAuths, if_pos rfl]
  cases v.toMembers <;> rfl

theorem foldlM_takeAuths_of_once {before after : Members} (v : Value)
    (h : "auths" ∉ before.names) (h' : "auths" ∉ after.names) :
    (before ++ ("auths", v) :: after).foldlM takeAuths none = v.toMembers.map some := by
  rw [foldlM_takeAuths_append v after h]
  cases v.toMembers with
  | error e => rfl
  | ok ms => exact (foldlM_takeAuths_some ms after).trans (if_neg h')

theorem foldlM_takeAuths_of_repeated {before after : Members} (v : Value)
    (h : "auths" ∉ before.names) (h' : "auths" ∈ after.names) :
    (before ++ ("auths", v) :: after).foldlM takeAuths none =
      v.toMembers >>= fun _ => .error (.duplicateField "auths") := by
  rw [foldlM_takeAuths_append v after h]
  congr 1
  funext ms
  exact (foldlM_takeAuths_some ms after).trans (if_pos h')

/-! ## Arrays -/

theorem closeArray_of_done {first : Bool} {s rest : Bytes}
    (h : itemTurn first s = .ok (.done rest)) : Record.closeArray s = .ok rest := by
  rw [Record.closeArray, itemTurn_eq_done_iff.1 h]
  exact if_pos rfl

/-- An array that goes on after its last field is refused behind the first byte of what goes on. -/
theorem closeArray_of_more {s start : Bytes} (h : itemTurn false s = .ok (.more start)) :
    Record.closeArray s = .error (.before .trailingCharacters start.tail) := by
  obtain ⟨b, tail, hs, hb, ⟨hf, -⟩ | ⟨-, hcomma, ht, hn⟩⟩ := itemTurn_eq_more h
  · cases hf
  · rw [Record.closeArray, hs]
    dsimp only
    rw [if_neg hb, if_pos hcomma, ht]
    cases start with
    | nil => rfl
    | cons c rest => exact if_neg fun hc => hn (congrArg some hc)

/-- After an item, the array of a record ends exactly where a list of items would hold no more. -/
theorem closeArray_of_itemsFrom {item : Reader Value} {s rest : Bytes} {us : List Value}
    (h : itemsFrom item false s = .ok (us, rest)) :
    (us = [] ∧ Record.closeArray s = .ok rest) ∨
      us ≠ [] ∧ ∃ start, itemTurn false s = .ok (.more start) ∧
        Record.closeArray s = .error (.before .trailingCharacters start.tail) := by
  rw [itemsFrom_eq] at h
  obtain ⟨turn, ht, h⟩ := bind_eq_ok.1 h
  cases turn with
  | done after =>
    cases h
    exact .inl ⟨rfl, closeArray_of_done ht⟩
  | more start =>
    obtain ⟨⟨u, after⟩, -, h⟩ := bind_eq_ok.1 h
    obtain ⟨⟨us', rest'⟩, -, h⟩ := bind_eq_ok.1 h
    cases h
    exact .inr ⟨List.cons_ne_nil _ _, start, ht, closeArray_of_more ht⟩

theorem causes_closeArray_of_itemsFrom {item : Reader Value} {s rest : Bytes} {us : List Value}
    (h : itemsFrom item false s = .ok (us, rest)) :
    causes (Record.closeArray s) =
      if us = [] then .ok rest else .error .trailingCharacters := by
  rcases closeArray_of_itemsFrom h with ⟨hus, hclose⟩ | ⟨hus, start, -, hclose⟩
  · rw [hclose, if_pos hus]
    rfl
  · rw [hclose, if_neg hus]
    rfl

/-- The entries of a wrapped document that is an array of the given items. -/
def soleMembers : List Value → Except Cause (Option Members)
  | [] => .ok none
  | [v] => v.toMembers.map some
  | v :: _ :: _ => v.toMembers >>= fun _ => .error .trailingCharacters

theorem soleMembers_cons (v : Value) (us : List Value) : soleMembers (v :: us) =
    v.toMembers >>= fun ms => if us = [] then .ok (some ms) else .error .trailingCharacters := by
  cases us with
  | nil =>
    rw [soleMembers]
    cases v.toMembers <;> rfl
  | cons u us => rfl

theorem cause_wrapper_decode_of_array {s : Bytes} {vs : List Value}
    (h : Json.decode s = .ok (.array vs)) :
    (wrapper.decode s).mapError Error.cause = soleMembers vs := by
  obtain ⟨rest, hr, he⟩ := whole_eq_ok_iff.1 h
  refine cause_whole_of_map ?_ he
  cases form_of_value hr with
  | scalar start ha ho inner => cases isScalar_of_scalar inner
  | @array tail rest xs start inner =>
    rw [Record.reader, byBracket_of_array start]
    show causes (wrapper.fieldsFrom none 0 [authsField] tail) = _
    have inner : itemsFrom (value (depthLimit - 1)) true tail = .ok (vs, rest) := inner
    rw [itemsFrom_eq] at inner
    obtain ⟨turn, ht, inner⟩ := bind_eq_ok.1 inner
    rw [Record.fieldsFrom]
    simp only [decide_true, ht]
    cases turn with
    | done after =>
      cases inner
      rfl
    | more begin =>
      obtain ⟨⟨v, s₁⟩, hv, inner⟩ := bind_eq_ok.1 inner
      obtain ⟨⟨us, s₂⟩, hu, inner⟩ := bind_eq_ok.1 inner
      cases inner
      show causes (authsField.reader none begin >>= _) = _
      rw [causes_bind, causes_authsField_reader_of_value hv, soleMembers_cons]
      cases v.toMembers with
      | error e => rfl
      | ok ms =>
        show causes (Record.closeArray s₁ >>= fun after => pure (some ms, after)) = _
        rw [causes_bind, causes_closeArray_of_itemsFrom hu]
        show _ = (if us = [] then Except.ok (some ms) else _).map fun taken => (taken, rest)
        split <;> rfl

theorem cause_wrapper_decode_of_scalar {s : Bytes} {v : Value} (h : Json.decode s = .ok v)
    (hv : v.isScalar = true) : (wrapper.decode s).mapError Error.cause =
      .error (.invalidType v.found (.record wrapper.name)) := by
  obtain ⟨rest, hr, he⟩ := whole_eq_ok_iff.1 h
  refine cause_whole_of_map ?_ he
  cases form_of_value hr with
  | array | object => cases hv
  | scalar start ha ho inner =>
    rw [Record.reader, byBracket_of_scalar start ha ho, notScalar_of_scalar inner]
    rfl

/-! ## Documents -/

theorem cause_decode_dockerconfigjson (s : Bytes) :
    (DocumentFormat.dockerconfigjson.decode s).mapError Error.cause =
      ((wrapper.decode s).mapError Error.cause).map (·.getD []) := by
  rw [map_mapError]
  rfl

theorem cause_decode_dockercfg {s : Bytes} {v : Value} (h : Json.decode s = .ok v) :
    (DocumentFormat.dockercfg.decode s).mapError Error.cause = v.toMembers :=
  cause_whole_readObject_of_decode h

theorem decode_dockercfg_eq_ok_iff {s : Bytes} {ms : Members} :
    DocumentFormat.dockercfg.decode s = .ok ms ↔ Json.decode s = .ok (.object ms) :=
  ⟨decode_of_whole_readObject, fun h => mapError_eq_ok.1 (cause_decode_dockercfg h)⟩

end RegistryAuth
