import RegistryAuth.Proofs.Base64.Standard
import RegistryAuth.Proofs.Document.Outcome
import RegistryAuth.Proofs.Text.Blank
import RegistryAuth.Proofs.Text.Cut

/-!
# The `auth` field

An `auth` field holds in base64 what a basic credential sends. It decodes to user name and password
on the two sides of the first colon (`ofDecoded_eq_iff`), and the credential sends what was decoded
(`authorization_ofDecoded`), though another credential may send the same. Main statement: what a
field decodes to, and that the header gives it back (`decodeAuth_iff`).
-/

namespace RegistryAuth

open Base64 (IsBase64 isBase64_encode decode_utf8_eq_ok_iff)
open Json (Value bind_eq_ok map_eq_ok)

namespace Credential

theorem toList_userAndPassword (username password : String) :
    (userAndPassword username password).toList = username.toList ++ ':' :: password.toList := by
  simp [userAndPassword]

/-- The text of a credential is cut at its first colon, or has none. -/
theorem ofDecoded_eq_iff {text : String} {c : Credential} : ofDecoded text = c ↔
    (∃ username password, text = userAndPassword username password ∧ ':' ∉ username.toList ∧
      c = .basic username password) ∨ ':' ∉ text.toList ∧ c = .bearer text := by
  by_cases h : ':' ∈ text.toList
  · have hd : ofDecoded text = .basic (Text.before ':' text) (Text.after ':' text) := by
      rw [ofDecoded, List.contains_iff_mem.2 h, if_pos rfl]
    rw [hd]
    refine ⟨fun hc => .inl ⟨_, _, ?_, Text.not_mem_before ':' text, hc.symm⟩, fun hc => ?_⟩
    · apply String.toList_inj.mp
      rw [toList_userAndPassword, ← Text.toList_eq_of_mem h]
    · rcases hc with ⟨username, password, rfl, hu, rfl⟩ | ⟨hn, -⟩
      · have ht := toList_userAndPassword username password
        rw [Text.before_eq ht hu, Text.after_eq ht hu]
      · exact absurd h hn
  · have hd : ofDecoded text = .bearer text := by simp [ofDecoded, h]
    rw [hd]
    refine ⟨fun hc => .inr ⟨h, hc.symm⟩, fun hc => ?_⟩
    rcases hc with ⟨username, password, rfl, -⟩ | ⟨-, rfl⟩
    · simp [toList_userAndPassword] at h
    · rfl

/-- The header of a text around a colon holds the whole text. -/
theorem authorization_ofDecoded {text : String} (h : ':' ∈ text.toList) :
    (ofDecoded text).authorization = "Basic " ++ asciiText (Base64.encode (Text.utf8 text)) := by
  rcases ofDecoded_eq_iff.1 (Eq.refl (ofDecoded text)) with
    ⟨username, password, rfl, -, hc⟩ | ⟨hn, -⟩
  · rw [hc, authorization]
  · exact absurd h hn

theorem authorization_basic_eq_iff {username password text : String} :
    (basic username password).authorization = "Basic " ++ text ↔
      IsBase64 text (Text.utf8 (userAndPassword username password)) := by
  have he := isBase64_encode (Text.utf8 (userAndPassword username password))
  rw [authorization, String.append_right_inj]
  exact ⟨fun h => h ▸ he, fun h => he.unique h⟩

theorem beq_iff {a b : Credential} : (a == b) = true ↔ a.authorization = b.authorization := by
  show (a.authorization == b.authorization) = true ↔ _
  exact beq_iff_eq

end Credential

namespace EntryFields

theorem trim_of_isBase64 {text : String} {bytes : Bytes} (h : IsBase64 text bytes) :
    Text.trim text = text := by
  have hletter : ∀ i, Text.isBlank (Base64.letter i) = false := by decide +kernel
  have hpad : Text.isBlank '=' = false := by decide
  obtain ⟨values, zeros, pads, -, -, -, -, ht⟩ := h
  refine Text.trim_eq_self (Text.isTrimmed_of_hasBlank ?_)
  rw [Text.hasBlank, ht, List.any_append, List.any_map, List.any_replicate, hpad]
  simp [hletter]

theorem decodeAuth_eq_ok_iff_ofDecoded {auth : String} {c : Credential} :
    decodeAuth auth = .ok c ↔
      ∃ text, IsBase64 (Text.trim auth) (Text.utf8 text) ∧ .ofDecoded text = c := by
  simp only [decodeAuth, bind_eq_ok, mapError_eq_ok, decode_utf8_eq_ok_iff]
  refine ⟨fun ⟨bytes, hb, h⟩ => ?_, fun ⟨text, ht, h⟩ => ⟨_, ht, ?_⟩⟩
  · split at h
    · next text ht =>
      rw [Text.ofUtf8?_eq_some_iff.1 ht] at hb
      exact ⟨text, hb, Except.ok.inj h⟩
    · cases h
  · rw [Text.ofUtf8?_utf8, ← h]
    rfl

theorem ne_empty_of_colon {auth text : String} (h : IsBase64 (Text.trim auth) (Text.utf8 text))
    (hc : ':' ∈ text.toList) : auth ≠ "" := by
  rintro rfl
  have he : IsBase64 (Text.trim "") (Text.utf8 "") := isBase64_encode []
  rw [← decode_utf8_eq_ok_iff] at h he
  rw [Text.utf8_inj (Except.ok.inj (h.symm.trans he))] at hc
  simp at hc

end EntryFields

/-- Whether `auth` stands in the `auth` field of an entry's value. -/
def HasAuth (v : Value) (auth : String) : Prop :=
  ∃ fields, EntryFields.ofValue v = .ok fields ∧ fields.auth = some auth

theorem entryCredential?_of_auth {v : Value} {auth text : String} (hv : HasAuth v auth)
    (ht : IsBase64 (Text.trim auth) (Text.utf8 text)) (hc : ':' ∈ text.toList) (key : String) :
    entryCredential? key v = .ok (some (.ofDecoded text)) := by
  obtain ⟨fields, hf, ha⟩ := hv
  have hne := EntryFields.ne_empty_of_colon ht hc
  have hd : EntryFields.decodeAuth auth = .ok (.ofDecoded text) :=
    EntryFields.decodeAuth_eq_ok_iff_ofDecoded.2 ⟨text, ht, rfl⟩
  rw [entryCredential?, hf]
  show (fields.credential?.mapError _) = _
  rw [credential?_of_auth (nonempty_eq_some_iff.2 ⟨ha, hne⟩), hd]
  rfl

theorem authorization_of_auth {auth text : String}
    (ht : IsBase64 (Text.trim auth) (Text.utf8 text)) (hc : ':' ∈ text.toList) :
    (Credential.ofDecoded text).authorization = "Basic " ++ Text.trim auth := by
  rw [Credential.authorization_ofDecoded hc, (isBase64_encode _).unique ht]

/-- An `auth` field decodes to a credential exactly if it is, but for blanks around it, the base64
form of a text, and the credential is the text cut at its first colon, or as a token if it has none.
Where there is a colon, the entry sends the field as it stands, and so does the entry of a document
that is accepted. What a basic credential sends makes, as a field, an equal credential. -/
theorem decodeAuth_iff :
    (∀ auth c, EntryFields.decodeAuth auth = .ok c ↔
      ∃ text, IsBase64 (Text.trim auth) (Text.utf8 text) ∧
        ((∃ username password, text = username ++ ":" ++ password ∧ ':' ∉ username.toList ∧
          c = .basic username password) ∨ ':' ∉ text.toList ∧ c = .bearer text)) ∧
    (∀ key v auth text, HasAuth v auth → IsBase64 (Text.trim auth) (Text.utf8 text) →
      ':' ∈ text.toList → ∃ c, entryCredential? key v = .ok (some c) ∧
        c.authorization = "Basic " ++ Text.trim auth) ∧
    (∀ (format : DocumentFormat) s ms source, format.decode s = .ok ms →
      (Source.parse format s).run.value = .ok source → ∀ m ∈ ms, ∀ auth text, HasAuth m.2 auth →
        IsBase64 (Text.trim auth) (Text.utf8 text) → ':' ∈ text.toList →
        ∃ e ∈ source.entries, Scope.parse m.1 = .ok e.scope ∧
          e.credential.authorization = "Basic " ++ Text.trim auth) ∧
    ∀ username password auth,
      (Credential.basic username password).authorization = "Basic " ++ auth →
      ∀ key v, HasAuth v auth →
        ∃ c, entryCredential? key v = .ok (some c) ∧
          (c == Credential.basic username password) = true := by
  refine ⟨fun auth c => ?_, fun key v auth text hv ht hc => ?_,
    fun format s ms source hd hs m hm auth text hv ht hc => ?_,
    fun username password auth ha key v hv => ?_⟩
  · simp only [EntryFields.decodeAuth_eq_ok_iff_ofDecoded, Credential.ofDecoded_eq_iff,
      Credential.userAndPassword]
  · exact ⟨_, entryCredential?_of_auth hv ht hc key, authorization_of_auth ht hc⟩
  · rw [value_parse_of_decode hd] at hs
    obtain ⟨entries, he, rfl⟩ := map_eq_ok.1 hs
    obtain ⟨hr, rfl⟩ := value_entriesOf_eq_ok.1 he
    obtain ⟨scope, hscope⟩ := (hr m hm).1
    refine ⟨⟨scope, .ofDecoded text⟩, List.mem_filterMap.2 ⟨m, hm, ?_⟩, hscope,
      authorization_of_auth ht hc⟩
    exact ofMember?_of_ok hscope (entryCredential?_of_auth hv ht hc m.1)
  · have ht := Credential.authorization_basic_eq_iff.1 ha
    have htrim := EntryFields.trim_of_isBase64 ht
    rw [← htrim] at ht
    have hc : ':' ∈ (Credential.userAndPassword username password).toList := by
      simp [Credential.toList_userAndPassword]
    refine ⟨_, entryCredential?_of_auth hv ht hc key, Credential.beq_iff.2 ?_⟩
    rw [authorization_of_auth ht hc, htrim, ha]

/-- A document with blanks around the `auth` field of its entry. -/
def spacedField : Bytes := Text.utf8 "\x7b\"r.io\":\x7b\"auth\":\" dTpw \"\x7d\x7d"

/-- An entry with blanks around its field, and a user name with a colon, which makes another
credential with the same header. -/
theorem decodeAuth_blanks_and_colon :
    (∃ source, (Source.parse .dockercfg spacedField).run.value = .ok source ∧
      ∃ e ∈ source.entries, e.credential.authorization = "Basic dTpw") ∧
    ∃ c, entryCredential? "r.io" (.object [("auth", .string "YTpiOmM=")]) = .ok (some c) ∧
      (c == Credential.basic "a:b" "c") = true := by
  have hs : (Source.parse .dockercfg spacedField).run.value =
      .ok ⟨[⟨⟨"r.io", ""⟩, .basic "u" "p"⟩]⟩ := by decide +kernel
  have hd : DocumentFormat.dockercfg.decode spacedField =
      .ok [("r.io", .object [("auth", .string " dTpw ")])] := by with_unfolding_all rfl
  have ht : IsBase64 "dTpw" (Text.utf8 "u:p") := decode_utf8_eq_ok_iff.1 (by decide +kernel)
  obtain ⟨e, he, -, h⟩ := decodeAuth_iff.2.2.1 .dockercfg _ _ _ hd hs _ List.mem_cons_self " dTpw "
    "u:p" ⟨⟨some " dTpw ", none, none, none⟩, by decide +kernel, rfl⟩ ht (by decide)
  refine ⟨⟨_, hs, e, he, h⟩, decodeAuth_iff.2.2.2 "a:b" "c" "YTpiOmM=" (by decide +kernel) "r.io" _
    ⟨⟨some "YTpiOmM=", none, none, none⟩, by decide +kernel, rfl⟩⟩

end RegistryAuth
