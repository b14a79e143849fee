import RegistryAuth.Proofs.Document.AuthField

/-!
# Empty tokens

A field that is empty counts as absent, so no entry takes an empty registry token. An `auth` field
is looked at before it is trimmed: one of blanks alone is not empty, counts, and decodes to the
empty token. That is the only way to one (`entryCredential?_eq_emptyToken_iff`). Main statement: the
tokens of a document (`tokens_of_parse`).
-/

namespace RegistryAuth

open Base64 (IsBase64 isBase64_encode)
open Json (Value Members bind_eq_ok map_eq_ok)

namespace EntryFields

/-- The empty token is decoded from blanks only. -/
theorem decodeAuth_eq_emptyToken_iff {auth : String} :
    decodeAuth auth = .ok (.bearer "") ↔ Text.IsBlankText auth := by
  have hempty : IsBase64 "" (Text.utf8 "") := isBase64_encode []
  rw [decodeAuth_eq_ok_iff_ofDecoded, ← Text.trim_eq_empty_iff]
  refine ⟨fun ⟨text, ht, hc⟩ => ?_, fun h => ⟨"", ?_, rfl⟩⟩
  · rcases Credential.ofDecoded_eq_iff.1 hc with ⟨_, _, -, -, hb⟩ | ⟨-, hb⟩
    · cases hb
    · cases hb
      exact ht.unique hempty
  · rw [h]
    exact hempty

/-- Whether the `auth` field is blank but not empty. -/
def BlankAuth (fields : EntryFields) : Prop :=
  ∃ auth, fields.auth = some auth ∧ auth ≠ "" ∧ Text.IsBlankText auth

theorem credential?_eq_emptyToken_iff {fields : EntryFields} :
    fields.credential? = .ok (some (.bearer "")) ↔ fields.BlankAuth := by
  cases ha : nonempty fields.auth with
  | some auth =>
    obtain ⟨hauth, hne⟩ := nonempty_eq_some_iff.1 ha
    rw [credential?_of_auth ha, map_eq_ok]
    simp only [Option.some.injEq, exists_eq_right, decodeAuth_eq_emptyToken_iff]
    refine ⟨fun hb => ⟨auth, hauth, hne, hb⟩, fun ⟨auth', hauth', _, hb⟩ => ?_⟩
    rwa [Option.some.inj (hauth.symm.trans hauth')]
  | none =>
    have hno : ¬ fields.BlankAuth := by
      rintro ⟨auth, hauth, hne, -⟩
      rw [nonempty_eq_some_iff.2 ⟨hauth, hne⟩] at ha
      cases ha
    refine iff_of_false (fun h => ?_) hno
    rw [credential?, ha] at h
    cases ht : nonempty fields.registryToken with
    | some token =>
      rw [ht] at h
      cases h
      exact (nonempty_eq_some_iff.1 ht).2 rfl
    | none =>
      rw [ht] at h
      dsimp only at h
      split at h <;> cases h

end EntryFields

/-- Whether a value has an `auth` field that is blank but not empty. -/
def HasBlankAuth (v : Value) : Prop :=
  ∃ fields, EntryFields.ofValue v = .ok fields ∧ fields.BlankAuth

theorem entryCredential?_eq_emptyToken_iff (key : String) (v : Value) :
    entryCredential? key v = .ok (some (.bearer "")) ↔ HasBlankAuth v := by
  simp only [entryCredential?, bind_eq_ok, mapError_eq_ok,
    EntryFields.credential?_eq_emptyToken_iff, HasBlankAuth]

theorem emptyToken_of_member {m : String × Value} {e : Entry} (h : Entry.ofMember? m = some e) :
    e.credential = .bearer "" ↔ HasBlankAuth m.2 := by
  rw [← entryCredential?_eq_emptyToken_iff m.1, (ofMember?_eq_some_iff.1 h).2, Except.ok.injEq,
    Option.some.injEq]

theorem forall_token_ne_empty_iff {ms : Members} (h : ∀ m ∈ ms, Readable m) :
    (∀ e ∈ ms.filterMap Entry.ofMember?, ∀ token, e.credential = .bearer token → token ≠ "") ↔
      ∀ m ∈ ms, ¬ HasBlankAuth m.2 := by
  refine ⟨fun hall m hm hb => ?_, fun hall e he token ht hempty => ?_⟩
  · obtain ⟨scope, hs⟩ := (h m hm).1
    have hc := (entryCredential?_eq_emptyToken_iff m.1 m.2).2 hb
    have he : Entry.ofMember? m = some ⟨scope, .bearer ""⟩ := ofMember?_eq_some_iff.2 ⟨hs, hc⟩
    exact hall _ (List.mem_filterMap.2 ⟨m, hm, he⟩) "" rfl rfl
  · obtain ⟨m, hm, he⟩ := List.mem_filterMap.1 he
    exact hall m hm ((emptyToken_of_member he).1 (hempty ▸ ht))

/-- An entry of a document that is accepted has the empty token exactly if its `auth` field is not
empty but blank, so the tokens of a document are not empty exactly if no member has such a field.
Empty fields count as absent, and the next field is looked at. -/
theorem tokens_of_parse {format : DocumentFormat} {s : Bytes} {source : Source}
    (h : (Source.parse format s).run.value = .ok source) :
    (∃ ms, format.decode s = .ok ms ∧ source.entries = ms.filterMap Entry.ofMember? ∧
      (∀ m ∈ ms, ∀ e, Entry.ofMember? m = some e →
        (e.credential = .bearer "" ↔ HasBlankAuth m.2)) ∧
      ((∀ e ∈ source.entries, ∀ token, e.credential = .bearer token → token ≠ "") ↔
        ∀ m ∈ ms, ¬ HasBlankAuth m.2)) ∧
    ∀ fields : EntryFields,
      { fields with auth := some "" }.credential? = { fields with auth := none }.credential? ∧
      { fields with registryToken := some "" }.credential? =
        { fields with registryToken := none }.credential? := by
  obtain ⟨ms, hd, hr, he⟩ := exists_members_of_parse h
  refine ⟨⟨ms, hd, he, fun m _ e => emptyToken_of_member, ?_⟩, fun fields => ⟨rfl, rfl⟩⟩
  rw [he]
  exact forall_token_ne_empty_iff hr

/-- A document with a blank `auth` field beside a token. -/
def blankField : Bytes :=
  Text.utf8 "\x7b\"r.io\":\x7b\"auth\":\" \",\"registrytoken\":\"tok\"\x7d\x7d"

theorem parse_blankField :
    (Source.parse .dockercfg blankField).run.value = .ok ⟨[⟨⟨"r.io", ""⟩, .bearer ""⟩]⟩ := by
  decide +kernel

/-- The blank field counts, and the token beside it does not. -/
theorem tokens_blankField : ∃ ms, DocumentFormat.dockercfg.decode blankField = .ok ms ∧
    ¬ ∀ m ∈ ms, ¬ HasBlankAuth m.2 := by
  obtain ⟨⟨ms, hd, -, -, h⟩, -⟩ := tokens_of_parse parse_blankField
  refine ⟨ms, hd, fun hn => ?_⟩
  exact h.2 hn _ List.mem_cons_self "" rfl rfl

theorem not_tokens_ne_empty : ¬ ∀ (format : DocumentFormat) s source,
    (Source.parse format s).run.value = .ok source →
      ∀ e ∈ source.entries, ∀ token, e.credential = .bearer token → token ≠ "" := by
  intro h
  exact h .dockercfg blankField _ parse_blankField _ List.mem_cons_self "" rfl rfl

end RegistryAuth
