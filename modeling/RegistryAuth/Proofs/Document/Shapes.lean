import RegistryAuth.Proofs.Document.Decoding
import RegistryAuth.Proofs.Document.Entries

/-!
# Which shapes of a document are refused

Both forms of a document are meant to be objects of objects. A record may also be written as an
array, so the wrapped form takes some arrays in the place of the document, and both take some in the
place of an entry. Main statement: what is refused of all texts that are JSON
(`refuses_iff_of_decode`).
-/

namespace RegistryAuth

open Json

/-- Whether a text is an object in which a name is written more than once. -/
def Repeats (name : String) (s : Bytes) : Prop :=
  ∃ ws, written s = .ok ws ∧ 1 < ws.names.count name

/-- What a wrapped document that is an object with an object as its `auths` decodes to. -/
theorem decode_of_auths {s : Bytes} {top ms : Members} (h : Json.decode s = .ok (.object top))
    (ha : top.get? "auths" = some (.object ms)) :
    (Repeats "auths" s ∧ ∃ e, DocumentFormat.dockerconfigjson.decode s = .error e) ∨
      (¬ Repeats "auths" s ∧ DocumentFormat.dockerconfigjson.decode s = .ok ms) := by
  obtain ⟨ws, hw, rfl⟩ := exists_written h
  have hmem : "auths" ∈ ws.names := by
    by_contra hn
    rw [get?_merged_of_not_mem hn] at ha
    simp at ha
  obtain ⟨before, v, after, rfl, hb⟩ := exists_first hmem
  have hcount : (Members.names (before ++ ("auths", v) :: after)).count "auths" =
      (Members.names after).count "auths" + 1 := by
    have hb : (before.map (·.1)).count "auths" = 0 := List.count_eq_zero.2 hb
    simp [Members.names, List.count_append, hb]
  have hrep : Repeats "auths" s ↔ "auths" ∈ Members.names after := by
    rw [← List.count_pos_iff]
    refine ⟨fun h => ?_, fun hc => ?_⟩
    · obtain ⟨ws, hw', hc⟩ := h
      rw [← Except.ok.inj (hw.symm.trans hw'), hcount] at hc
      omega
    · exact ⟨_, hw, by omega⟩
  have hd := cause_decode_dockerconfigjson s
  rw [cause_wrapper_decode_of_written hw] at hd
  rw [hrep]
  by_cases hafter : "auths" ∈ Members.names after
  · obtain ⟨cause, hc⟩ : ∃ cause, (v.toMembers >>= fun _ => .error (.duplicateField "auths") :
        Except Cause (Option Members)) = .error cause := by
      cases v.toMembers <;> exact ⟨_, rfl⟩
    rw [foldlM_takeAuths_of_repeated v hb hafter, hc] at hd
    obtain ⟨e, he, -⟩ := mapError_eq_error.1 hd
    exact .inl ⟨hafter, e, he⟩
  · rw [get?_merged_of_last before v hafter] at ha
    rw [foldlM_takeAuths_of_once v hb hafter, Option.some.inj ha] at hd
    exact .inr ⟨hafter, mapError_eq_ok.1 hd⟩

/-! ## Documents -/

/-- Whether the entries of a wrapped document may stand where the document is not an object. -/
def Sole (v : Value) : Prop :=
  v = .array [] ∨ ∃ ms, v = .array [.object ms] ∧ ∀ e ∈ ms, Readable e

theorem refuses_of_decode_eq_error {format : DocumentFormat} {s : Bytes} {e : Json.Error}
    (h : format.decode s = .error e) : format.Refuses s := by
  rw [refuses_iff, h]
  intro ms hms
  simp at hms

theorem refuses_of_cause {format : DocumentFormat} {s : Bytes} {cause : Cause}
    (h : (format.decode s).mapError Error.cause = .error cause) : format.Refuses s := by
  obtain ⟨e, he, -⟩ := mapError_eq_error.1 h
  exact refuses_of_decode_eq_error he

theorem refuses_iff_of_decode_eq_ok {format : DocumentFormat} {s : Bytes} {ms : Members}
    (h : format.decode s = .ok ms) : format.Refuses s ↔ ∃ e ∈ ms, ¬ Readable e := by
  rw [refuses_iff, h]
  exact ⟨fun hall => hall ms rfl, fun he ms' hms => Except.ok.inj hms ▸ he⟩

theorem wrapped_refuses_iff_of_array {s : Bytes} {vs : List Value}
    (h : Json.decode s = .ok (.array vs)) :
    DocumentFormat.dockerconfigjson.Refuses s ↔ ¬ Sole (.array vs) := by
  have hd := cause_decode_dockerconfigjson s
  rw [cause_wrapper_decode_of_array h] at hd
  match vs with
  | [] =>
    rw [refuses_iff_of_decode_eq_ok (mapError_eq_ok.1 hd)]
    simp [Sole]
  | [.object ms] =>
    have hd : DocumentFormat.dockerconfigjson.decode s = .ok ms := mapError_eq_ok.1 hd
    rw [refuses_iff_of_decode_eq_ok hd]
    simp [Sole]
  | [.null] | [.bool _] | [.number _] | [.string _] | [.array _] =>
    simp [refuses_of_cause hd, Sole]
  | v :: w :: us =>
    obtain ⟨e, he⟩ : ∃ e, soleMembers (v :: w :: us) = .error e := by
      rw [soleMembers]
      cases v.toMembers <;> exact ⟨_, rfl⟩
    rw [he] at hd
    simp [refuses_of_cause hd, Sole]

theorem wrapped_refuses_iff_of_not_object {s : Bytes} {v : Value} (h : Json.decode s = .ok v)
    (hv : ∀ ms, v ≠ .object ms) : DocumentFormat.dockerconfigjson.Refuses s ↔ ¬ Sole v := by
  cases v with
  | object ms => exact absurd rfl (hv ms)
  | array vs => exact wrapped_refuses_iff_of_array h
  | null | bool | number | string =>
    have hd := cause_decode_dockerconfigjson s
    rw [cause_wrapper_decode_of_scalar h rfl] at hd
    simp [refuses_of_cause hd, Sole]

/-- A text that is JSON but no object is refused as a bare document, and as a wrapped one unless it
is an array without item or with the object of the entries as its only one. A bare object is refused
for any entry that cannot be read, and a wrapped one also for writing `auths` more than once. An
entry that is no object can be read exactly if it is an array of at most four texts and nulls, of
which the first can be decoded. -/
theorem refuses_iff_of_decode (s : Bytes) (v : Value) (h : Json.decode s = .ok v) :
    ((∀ ms, v ≠ .object ms) → DocumentFormat.dockercfg.Refuses s ∧
      (DocumentFormat.dockerconfigjson.Refuses s ↔ ¬ Sole v)) ∧
    (∀ ms, v = .object ms →
      (DocumentFormat.dockercfg.Refuses s ↔ ∃ e ∈ ms, ¬ Readable e)) ∧
    (∀ (top ms : Members), v = .object top → top.get? "auths" = some (.object ms) →
      (DocumentFormat.dockerconfigjson.Refuses s ↔
        Repeats "auths" s ∨ ∃ e ∈ ms, ¬ Readable e)) ∧
    ∀ key w, (∀ ms, w ≠ .object ms) → (Readable (key, w) ↔
      (∃ scope, Scope.parse key = .ok scope) ∧ ∃ vs, w = .array vs ∧ Positional vs) := by
  refine ⟨fun hv => ⟨?_, wrapped_refuses_iff_of_not_object h hv⟩, ?_, ?_,
    readable_iff_of_not_object⟩
  · have hd := cause_decode_dockercfg h
    cases v with
    | object ms => exact absurd rfl (hv ms)
    | null | bool | number | string | array => exact refuses_of_cause hd
  · rintro ms rfl
    exact refuses_iff_of_decode_eq_ok (decode_dockercfg_eq_ok_iff.2 h)
  · rintro top ms rfl ha
    rcases decode_of_auths h ha with ⟨hr, e, hd⟩ | ⟨hr, hd⟩
    · exact ⟨fun _ => .inl hr, fun _ => refuses_of_decode_eq_error hd⟩
    · rw [refuses_iff_of_decode_eq_ok hd]
      exact ⟨.inr, fun he => he.resolve_left hr⟩

theorem dockerconfigjson_takes_array :
    Json.decode (Text.utf8 "[]") = .ok (.array []) ∧
      ¬ DocumentFormat.dockerconfigjson.Refuses (Text.utf8 "[]") := by
  have h : Json.decode (Text.utf8 "[]") = .ok (.array []) := by with_unfolding_all rfl
  have hv : ∀ ms, Value.array [] ≠ .object ms := fun ms => nofun
  refine ⟨h, fun hr => ?_⟩
  exact (((refuses_iff_of_decode _ _ h).1 hv).2.mp hr) (.inl rfl)

/-- An array stands in the place of a document, and one in the place of an entry's value. -/
theorem not_only_objects :
    Json.decode (Text.utf8 "[]") = .ok (.array []) ∧
      ¬ DocumentFormat.dockerconfigjson.Refuses (Text.utf8 "[]") ∧
      Json.decode (Text.utf8 "\x7b\"r.io\":[]\x7d") = .ok (.object [("r.io", .array [])]) ∧
      ¬ DocumentFormat.dockercfg.Refuses (Text.utf8 "\x7b\"r.io\":[]\x7d") := by
  have hwrapped : (Source.parse .dockerconfigjson (Text.utf8 "[]")).run.value = .ok ⟨[]⟩ := by
    decide +kernel
  have hbare : (Source.parse .dockercfg (Text.utf8 "\x7b\"r.io\":[]\x7d")).run.value =
      .ok ⟨[]⟩ := by
    decide +kernel
  refine ⟨by with_unfolding_all rfl, ?_, by with_unfolding_all rfl, ?_⟩
  · rintro ⟨fault, h⟩
    rw [hwrapped] at h
    simp at h
  · rintro ⟨fault, h⟩
    rw [hbare] at h
    simp at h

end RegistryAuth
