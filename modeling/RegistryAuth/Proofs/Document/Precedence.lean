import RegistryAuth.Proofs.Document.Names
import RegistryAuth.Proofs.Document.Outcome

/-!
# Which field of an entry counts

An entry that is an object gives its credential by the first of its fields that is filled: `auth`
before the registry token, and that before user name and password (`Gives`). All four are looked at
before one of them counts, so a field of another type is a fault wherever it stands, and members of
other names are nothing (`takeMembers_filter`). Main statement: `entryCredential?_object_iff`.
-/

namespace RegistryAuth

open Json

/-- What is given for a field of an object. -/
inductive Given where
  | absent
  | null
  | text (s : String)
  /-- Something that is neither a text nor `null`. -/
  | other
  deriving DecidableEq

namespace Given

/-- What a field is given as that has a value. -/
def ofValue : Value → Given
  | .null => .null
  | .string s => .text s
  | .bool _ | .number _ | .array _ | .object _ => .other

/-- The text that is given. -/
def text? : Given → Option String
  | .text s => some s
  | .absent | .null | .other => none

/-- Whether a text is given that is not empty. -/
def Filled (g : Given) : Prop := ∃ s, g = .text s ∧ s ≠ ""

/-- Whether nothing is given, or `null` for nothing. -/
def Missing (g : Given) : Prop := g = .absent ∨ g = .null

theorem ofValue_ne_other_iff {v : Value} : ofValue v ≠ .other ↔ IsField v := by
  cases v <;> simp [ofValue, IsField]

theorem eq_text?_of_toText? {v : Value} {x : Option String} (h : v.toText? = .ok x) :
    x = (ofValue v).text? := by
  cases v <;> simp_all [Value.toText?, Value.toText, Except.map, ofValue, text?]

theorem nonempty_text?_eq_some_iff {g : Given} {s : String} :
    EntryFields.nonempty g.text? = some s ↔ g = .text s ∧ s ≠ "" := by
  rw [nonempty_eq_some_iff]
  cases g <;> simp [text?]

theorem nonempty_text?_eq_none_iff {g : Given} :
    EntryFields.nonempty g.text? = none ↔ ¬ g.Filled := by
  rw [Option.eq_none_iff_forall_ne_some]
  simp only [ne_eq, nonempty_text?_eq_some_iff, Filled, not_exists]

theorem text?_eq_none_iff {g : Given} (h : g ≠ .other) : g.text? = none ↔ g.Missing := by
  cases g <;> simp_all [text?, Missing]

end Given

/-! ## Fields by name -/

namespace EntryFields

/-- A field by its name. -/
def get (fields : EntryFields) (name : String) : Option String :=
  if name = "auth" then fields.auth
  else if name = "username" then fields.username
  else if name = "password" then fields.password
  else if name = "registrytoken" then fields.registryToken
  else none

/-- Taking a field changes no other. -/
theorem get_of_take {part : Json.Part EntryFields} (h : part ∈ parts) {fields r : EntryFields}
    {v : Value} (ht : part.take fields v = .ok r) {name : String} (hn : name ∈ names) :
    r.get name = if part.name = name then (Given.ofValue v).text? else fields.get name := by
  simp only [names, parts, List.map_cons, List.map_nil, List.mem_cons, List.not_mem_nil,
    or_false] at h hn
  rcases h with rfl | rfl | rfl | rfl <;>
    (obtain ⟨x, hx, rfl⟩ := map_eq_ok.1 ht
     rw [← Given.eq_text?_of_toText? hx]
     rcases hn with rfl | rfl | rfl | rfl <;> simp [get, Json.Part.of])

/-- A field is what the member of its name gives, or what it was before. -/
theorem get_of_takeMembers {fields r : EntryFields} {ms : Members} (h : ms.names.Nodup)
    (hr : takeMembers parts fields ms = .ok r) {name : String} (hn : name ∈ names) :
    r.get name =
      (ms.get? name).elim (fields.get name) fun v => (Given.ofValue v).text? := by
  induction ms generalizing fields with
  | nil => cases hr; rfl
  | cons m ms ih =>
    obtain ⟨first, v⟩ := m
    obtain ⟨hfirst, hms⟩ := List.nodup_cons.1 h
    cases hp : parts.find? (·.name = first) with
    | none =>
      have hne : first ≠ name := fun he => find?_parts_eq_none_iff.1 hp (he ▸ hn)
      rw [takeMembers_cons_of_none hp] at hr
      rw [ih hms hr, Members.get?, if_neg hne]
    | some part =>
      obtain ⟨hmem, rfl⟩ := mem_of_find?_parts hp
      rw [takeMembers_cons_of_some hp] at hr
      obtain ⟨next, ht, hr⟩ := bind_eq_ok.1 hr
      rw [ih hms hr, get_of_take hmem ht hn, Members.get?]
      by_cases he : part.name = name
      · have hnone : Members.get? name ms = none := Members.get?_eq_none_iff.2 (he ▸ hfirst)
        rw [hnone, if_pos he, if_pos he]
        rfl
      · rw [if_neg he, if_neg he]

theorem takeMembers_filter (fields : EntryFields) (ms : Members) :
    takeMembers parts fields (ms.filter (·.1 ∈ names)) = takeMembers parts fields ms := by
  induction ms generalizing fields with
  | nil => rfl
  | cons m ms ih =>
    obtain ⟨name, v⟩ := m
    cases hp : parts.find? (·.name = name) with
    | none =>
      have hn : name ∉ names := find?_parts_eq_none_iff.1 hp
      rw [List.filter_cons_of_neg (by simpa using hn), takeMembers_cons_of_none hp, ih]
    | some part =>
      have hn : name ∈ names := by
        obtain ⟨hmem, rfl⟩ := mem_of_find?_parts hp
        exact List.mem_map_of_mem hmem
      rw [List.filter_cons_of_pos (by simpa using hn), takeMembers_cons_of_some hp,
        takeMembers_cons_of_some hp]
      simp only [ih]

end EntryFields

/-! ## The rule -/

/-- What is given for a field among the members of an object. -/
def given (ms : Members) (name : String) : Given := (ms.get? name).elim .absent Given.ofValue

/-- What the fields of an entry give, by what is given for each: a credential, or none. -/
inductive Gives (given : String → Given) : Option Credential → Prop where
  | auth {auth : String} {c : Credential} (text : given "auth" = .text auth) (filled : auth ≠ "")
      (decoded : EntryFields.decodeAuth auth = .ok c) : Gives given (some c)
  | token {token : String} (noAuth : ¬ (given "auth").Filled)
      (text : given "registrytoken" = .text token) (filled : token ≠ "") :
      Gives given (some (.bearer token))
  | nothing (noAuth : ¬ (given "auth").Filled) (noToken : ¬ (given "registrytoken").Filled)
      (username : (given "username").Missing) (password : (given "password").Missing) :
      Gives given none
  | basic (noAuth : ¬ (given "auth").Filled) (noToken : ¬ (given "registrytoken").Filled)
      (either : ¬ ((given "username").Missing ∧ (given "password").Missing)) :
      Gives given
        (some (.basic ((given "username").text?.getD "") ((given "password").text?.getD "")))

/-- The fields of an entry, by what is given for each. -/
def EntryFields.ofGiven (given : String → Given) : EntryFields :=
  ⟨(given "auth").text?, (given "username").text?, (given "password").text?,
    (given "registrytoken").text?⟩

section

variable {given : String → Given}

theorem exists_gives_iff :
    (∃ c, Gives given c) ↔ ∀ auth, given "auth" = .text auth → Decodes auth := by
  refine ⟨fun ⟨c, hc⟩ auth ha hne => ?_, fun h => ?_⟩
  · have hfilled : (given "auth").Filled := ⟨auth, ha, hne⟩
    cases hc with
    | @auth auth' c text filled decoded =>
      rw [ha] at text
      cases text
      exact ⟨c, decoded⟩
    | token noAuth | nothing noAuth | basic noAuth => exact absurd hfilled noAuth
  · by_cases ha : (given "auth").Filled
    · obtain ⟨auth, ha, hne⟩ := ha
      obtain ⟨c, hc⟩ := h auth ha hne
      exact ⟨some c, .auth ha hne hc⟩
    by_cases ht : (given "registrytoken").Filled
    · obtain ⟨token, ht, hne⟩ := ht
      exact ⟨_, .token ha ht hne⟩
    by_cases hm : (given "username").Missing ∧ (given "password").Missing
    · exact ⟨none, .nothing ha ht hm.1 hm.2⟩
    · exact ⟨_, .basic ha ht hm⟩

theorem credential?_of_gives (hu : given "username" ≠ .other) (hp : given "password" ≠ .other)
    {c : Option Credential} (h : Gives given c) :
    (EntryFields.ofGiven given).credential? = .ok c := by
  cases h with
  | auth text filled decoded =>
    rw [credential?_of_auth (Given.nonempty_text?_eq_some_iff.2 ⟨text, filled⟩), decoded]
    rfl
  | token noAuth text filled =>
    simp only [EntryFields.credential?, EntryFields.ofGiven,
      Given.nonempty_text?_eq_none_iff.2 noAuth,
      Given.nonempty_text?_eq_some_iff.2 ⟨text, filled⟩]
  | nothing noAuth noToken username password =>
    simp only [EntryFields.credential?, EntryFields.ofGiven,
      Given.nonempty_text?_eq_none_iff.2 noAuth, Given.nonempty_text?_eq_none_iff.2 noToken,
      (Given.text?_eq_none_iff hu).2 username, (Given.text?_eq_none_iff hp).2 password]
    rfl
  | basic noAuth noToken either =>
    rw [← Given.text?_eq_none_iff hu, ← Given.text?_eq_none_iff hp] at either
    simp only [EntryFields.credential?, EntryFields.ofGiven,
      Given.nonempty_text?_eq_none_iff.2 noAuth, Given.nonempty_text?_eq_none_iff.2 noToken]
    exact if_neg (by simpa using either)

end

/-! ## Entries that are objects -/

theorem forall_given_ne_other_iff {ms : Members} (h : ms.names.Nodup) :
    (∀ name ∈ EntryFields.names, given ms name ≠ .other) ↔
      ∀ m ∈ ms, m.1 ∈ EntryFields.names → IsField m.2 := by
  refine ⟨fun hall m hm hn => ?_, fun hall name hn => ?_⟩
  · have hg := hall m.1 hn
    rwa [given, (Members.get?_eq_some_iff h).2 hm, Option.elim_some,
      Given.ofValue_ne_other_iff] at hg
  · rw [given]
    cases hv : ms.get? name with
    | none => simp
    | some v =>
      exact Given.ofValue_ne_other_iff.2 (hall (name, v) ((Members.get?_eq_some_iff h).1 hv) hn)

theorem eq_ofGiven_of_ofValue {ms : Members} (h : ms.names.Nodup) {fields : EntryFields}
    (hf : EntryFields.ofValue (.object ms) = .ok fields) : fields = .ofGiven (given ms) := by
  have hget (name : String) (hn : name ∈ EntryFields.names) :
      fields.get name = (given ms name).text? := by
    rw [EntryFields.get_of_takeMembers h hf hn, given]
    cases ms.get? name with
    | none => simp [EntryFields.get, EntryFields.blank, Given.text?]
    | some v => rfl
  rw [EntryFields.ofGiven, ← hget "auth" (by decide), ← hget "username" (by decide),
    ← hget "password" (by decide), ← hget "registrytoken" (by decide)]
  simp [EntryFields.get]

theorem ofValue_object_eq_ok_iff {ms : Members} (h : ms.names.Nodup) {fields : EntryFields} :
    EntryFields.ofValue (.object ms) = .ok fields ↔
      (∀ name ∈ EntryFields.names, given ms name ≠ .other) ∧ fields = .ofGiven (given ms) := by
  have hok : (∃ r, EntryFields.ofValue (.object ms) = .ok r) ↔ _ :=
    EntryFields.takeMembers_eq_ok_iff .blank ms
  rw [forall_given_ne_other_iff h, ← hok]
  refine ⟨fun hf => ⟨⟨fields, hf⟩, eq_ofGiven_of_ofValue h hf⟩, fun ⟨⟨r, hr⟩, hf⟩ => ?_⟩
  rw [hr, hf, eq_ofGiven_of_ofValue h hr]

theorem entryCredential?_eq_ok_iff_gives (key : String) {ms : Members} (h : ms.names.Nodup)
    (c : Option Credential) : entryCredential? key (.object ms) = .ok c ↔
      (∀ name ∈ EntryFields.names, given ms name ≠ .other) ∧ Gives (given ms) c := by
  simp only [entryCredential?, bind_eq_ok, mapError_eq_ok, ofValue_object_eq_ok_iff h]
  constructor
  · rintro ⟨fields, ⟨hall, rfl⟩, hc⟩
    have hu := hall "username" (by decide)
    have hp := hall "password" (by decide)
    refine ⟨hall, ?_⟩
    obtain ⟨c', hc'⟩ : ∃ c', Gives (given ms) c' := by
      refine exists_gives_iff.2 fun auth ha => (credential?_eq_ok_iff _).1 ⟨c, hc⟩ auth ?_
      rw [EntryFields.ofGiven, ha]
      rfl
    rwa [← Except.ok.inj ((credential?_of_gives hu hp hc').symm.trans hc)]
  · rintro ⟨hall, hc⟩
    exact ⟨_, ⟨hall, rfl⟩,
      credential?_of_gives (hall "username" (by decide)) (hall "password" (by decide)) hc⟩

theorem entryCredential?_eq_error_iff (key : String) {ms : Members} (h : ms.names.Nodup) :
    (∃ e, entryCredential? key (.object ms) = .error e) ↔
      (∃ name ∈ EntryFields.names, given ms name = .other) ∨
        ∃ auth, given ms "auth" = .text auth ∧ auth ≠ "" ∧
          ∃ fault, EntryFields.decodeAuth auth = .error fault := by
  have hok : (∃ e, entryCredential? key (.object ms) = .error e) ↔
      ¬ ∃ c, entryCredential? key (.object ms) = .ok c := by
    cases entryCredential? key (.object ms) <;> simp
  have hdecodes (auth : String) : ¬ Decodes auth ↔
      auth ≠ "" ∧ ∃ fault, EntryFields.decodeAuth auth = .error fault := by
    rw [Decodes]
    cases EntryFields.decodeAuth auth <;> simp
  simp only [hok, entryCredential?_eq_ok_iff_gives key h]
  rw [exists_and_left, exists_gives_iff, not_and_or]
  simp only [not_forall, not_not, exists_prop, hdecodes]

theorem entryCredential?_filter (key : String) (ms : Members) :
    entryCredential? key (.object (ms.filter (·.1 ∈ EntryFields.names))) =
      entryCredential? key (.object ms) := by
  have hof : EntryFields.ofValue (.object (ms.filter (·.1 ∈ EntryFields.names))) =
      EntryFields.ofValue (.object ms) := EntryFields.takeMembers_filter .blank ms
  rw [entryCredential?, entryCredential?, hof]

/-- The value of an entry that is an object, in which each name stands once, cannot be read exactly
if one of the four fields is given as something else than a text or `null`, or `auth` is a text that
is not empty and cannot be decoded. Otherwise it gives what the rule says: the decoded `auth`, or
else the token, or else user name and password, or else nothing. Members that are none of the four
fields change neither credential nor error. The objects among the entries of a document have each
name once. -/
theorem entryCredential?_object_iff :
    (∀ key (ms : Members), ms.names.Nodup →
      ((∃ e, entryCredential? key (.object ms) = .error e) ↔
        (∃ name ∈ ["auth", "username", "password", "registrytoken"], given ms name = .other) ∨
          ∃ auth, given ms "auth" = .text auth ∧ auth ≠ "" ∧
            ∃ fault, EntryFields.decodeAuth auth = .error fault) ∧
      ∀ c, entryCredential? key (.object ms) = .ok c ↔
        (∀ name ∈ ["auth", "username", "password", "registrytoken"], given ms name ≠ .other) ∧
          Gives (given ms) c) ∧
    (∀ key (ms : Members),
      entryCredential? key
          (.object (ms.filter (·.1 ∈ ["auth", "username", "password", "registrytoken"]))) =
        entryCredential? key (.object ms)) ∧
    ∀ (format : DocumentFormat) s ms, format.decode s = .ok ms →
      ∀ m ∈ ms, ∀ fields : Members, m.2 = .object fields → fields.names.Nodup := by
  refine ⟨fun key ms h => ⟨?_, fun c => ?_⟩, fun key ms => ?_, fun format s ms h => ?_⟩
  · exact entryCredential?_eq_error_iff key h
  · exact entryCredential?_eq_ok_iff_gives key h c
  · exact entryCredential?_filter key ms
  · exact distinct_of_decode h

/-- A document with a field that is written twice. -/
def repeatedField : Bytes :=
  Text.utf8 "\x7b\"r.io\":\x7b\"auth\":\"\",\"auth\":\"dTpw\"\x7d\x7d"

/-- An empty `auth` and an unknown member before the token that counts, a number as password beside
an `auth` that would count, and an object that is read from a document. -/
theorem entryCredential?_object_order :
    entryCredential? "r.io" (.object [("auth", .string ""), ("username", .string "u"),
      ("email", .array []), ("registrytoken", .string "tok"), ("password", .null)]) =
        .ok (some (.bearer "tok")) ∧
    (∃ e, entryCredential? "r.io"
      (.object [("auth", .string "dTpw"), ("password", .number (.natural 1))]) = .error e) ∧
    ∃ fields : Members, DocumentFormat.dockercfg.decode repeatedField =
      .ok [("r.io", .object fields)] ∧ fields.names.Nodup := by
  refine ⟨((entryCredential?_object_iff.1 "r.io" _ (by decide)).2 _).2
      ⟨by decide, .token ?_ rfl (by decide)⟩,
    (entryCredential?_object_iff.1 "r.io" _ (by decide)).1.2 (.inl ⟨"password", by decide, rfl⟩),
    [("auth", .string "dTpw")], ?_⟩
  · rintro ⟨s, hs, hne⟩
    exact hne (Given.text.inj hs).symm
  · have hd : DocumentFormat.dockercfg.decode repeatedField =
        .ok [("r.io", .object [("auth", .string "dTpw")])] := by with_unfolding_all rfl
    exact ⟨hd, entryCredential?_object_iff.2.2 .dockercfg _ _ hd _ List.mem_cons_self _ rfl⟩

end RegistryAuth
