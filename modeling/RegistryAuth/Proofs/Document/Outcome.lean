import RegistryAuth.Proofs.Document.Decoding
import RegistryAuth.Proofs.Document.Entries

/-!
# What a document gives

The members of a document are read one after the other. Either all of them can be read, and then
those that carry a credential are the entries, in order, or the first that cannot be read is the
error (`value_entriesOf_eq_error_iff`). Main statement: what a document gives, by what it decodes to
(`value_parse_iff`).
-/

namespace RegistryAuth

open Json

/-! ## Members -/

/-- Whether `e` is what is wrong with a member, its key before its value. -/
def Faulty (m : String × Value) (e : ReadError) : Prop :=
  Scope.parse m.1 = .error e ∨
    (∃ scope, Scope.parse m.1 = .ok scope) ∧ entryCredential? m.1 m.2 = .error e

/-- Whether a value gives no credential: it has neither user name nor password, and no `auth` field
and no token but empty ones. -/
def LacksCredential (v : Value) : Prop :=
  ∃ fields, EntryFields.ofValue v = .ok fields ∧
    (fields.auth = none ∨ fields.auth = some "") ∧
    (fields.registryToken = none ∨ fields.registryToken = some "") ∧
    fields.username = none ∧ fields.password = none

theorem readable_iff_not_faulty (m : String × Value) : Readable m ↔ ∀ e, ¬ Faulty m e := by
  rw [Readable]
  simp only [Faulty]
  cases Scope.parse m.1 <;> cases entryCredential? m.1 m.2 <;> simp

theorem nonempty_eq_none_iff {field : Option String} :
    EntryFields.nonempty field = none ↔ field = none ∨ field = some "" := by
  rw [EntryFields.nonempty, Option.filter_eq_none_iff]
  cases field <;> simp

theorem credential?_eq_none_iff (fields : EntryFields) :
    fields.credential? = .ok none ↔
      (fields.auth = none ∨ fields.auth = some "") ∧
      (fields.registryToken = none ∨ fields.registryToken = some "") ∧
      fields.username = none ∧ fields.password = none := by
  rw [← nonempty_eq_none_iff, ← nonempty_eq_none_iff]
  cases ha : EntryFields.nonempty fields.auth with
  | some auth => simp [credential?_of_auth ha, map_eq_ok]
  | none =>
    rw [EntryFields.credential?, ha]
    cases EntryFields.nonempty fields.registryToken with
    | some token => simp
    | none => cases fields.username <;> cases fields.password <;> simp

theorem entryCredential?_eq_none_iff (key : String) (v : Value) :
    entryCredential? key v = .ok none ↔ LacksCredential v := by
  simp only [entryCredential?, bind_eq_ok, mapError_eq_ok, credential?_eq_none_iff, LacksCredential]

theorem ofMember?_eq_none_iff {m : String × Value} (h : Readable m) :
    Entry.ofMember? m = none ↔ LacksCredential m.2 := by
  obtain ⟨⟨scope, hs⟩, credential, hc⟩ := h
  rw [← entryCredential?_eq_none_iff m.1, ofMember?_of_ok hs hc, hc]
  simp

/-! ## All members -/

theorem value_entriesOf_eq_error_iff {ms : Members} {e : ReadError} :
    (entriesOf ms).run.value = .error e ↔ FirstWith Faulty ms e := by
  induction ms with
  | nil =>
    show Except.ok [] = _ ↔ _
    simp [firstWith_nil]
  | cons m ms ih =>
    obtain ⟨key, v⟩ := m
    rw [firstWith_cons, ← readable_iff_not_faulty, value_entriesOf_cons, ← ih, Faulty, Readable]
    simp only [bind_eq_error]
    cases Scope.parse key <;> cases entryCredential? key v <;>
      cases (entriesOf ms).run.value <;> simp [pure, Except.pure]

theorem value_parse_of_decode_error {format : DocumentFormat} {s : Bytes} {e : Json.Error}
    (h : format.decode s = .error e) :
    (Source.parse format s).run.value = .error (.malformedConfig (.undecodable e)) := by
  rw [value_parse, DocumentFormat.members, h]
  rfl

/-! ## Documents -/

/-- The members of an object stand in the order in which their names are first written, each with
the value that is last written for it. -/
theorem exists_written_in_order {s : Bytes} {ms : Members} (h : Json.decode s = .ok (.object ms)) :
    ∃ ws, written s = .ok ws ∧ ms.names = ws.names.eraseDups ∧
      ∀ name before v after, ws = before ++ (name, v) :: after → name ∉ Members.names after →
        ms.get? name = some v := by
  obtain ⟨ws, hw, rfl⟩ := exists_written h
  refine ⟨ws, hw, names_merged ws, ?_⟩
  rintro name before v after rfl hn
  exact get?_merged_of_last before v hn

/-- A document that decodes gives a source exactly if every member can be read: the entries of the
members that carry a credential, in order. Otherwise it gives the error of the first member that
cannot be read. One that does not decode gives the error of decoding whatever its members are. The
bare form decodes objects, the members of which keep their first place and their last value. A
member that can be read is left out only for having no credential. -/
theorem value_parse_iff (s : Bytes) :
    (∀ (format : DocumentFormat) ms, format.decode s = .ok ms →
      (∀ source, (Source.parse format s).run.value = .ok source ↔
        (∀ m ∈ ms, Readable m) ∧ source.entries = ms.filterMap Entry.ofMember?) ∧
      ∀ e, (Source.parse format s).run.value = .error e ↔ FirstWith Faulty ms e) ∧
    (∀ (format : DocumentFormat) e, format.decode s = .error e →
      (Source.parse format s).run.value = .error (.malformedConfig (.undecodable e))) ∧
    (∀ ms, DocumentFormat.dockercfg.decode s = .ok ms ↔ Json.decode s = .ok (.object ms)) ∧
    (∀ ms : Members, Json.decode s = .ok (.object ms) →
      ∃ ws, written s = .ok ws ∧ ms.names = ws.names.eraseDups ∧
        ∀ name before v after, ws = before ++ (name, v) :: after → name ∉ Members.names after →
          ms.get? name = some v) ∧
    ∀ m, Readable m → (Entry.ofMember? m = none ↔ LacksCredential m.2) := by
  refine ⟨fun format ms h => ⟨fun source => ?_, fun e => ?_⟩,
    fun format e => value_parse_of_decode_error, fun ms => decode_dockercfg_eq_ok_iff,
    fun ms => exists_written_in_order, fun m => ofMember?_eq_none_iff⟩
  · rw [value_parse_of_decode h, map_eq_ok, ← value_entriesOf_eq_ok]
    exact ⟨fun ⟨entries, he, hs⟩ => by rw [← hs, he], fun he => ⟨source.entries, he, rfl⟩⟩
  · rw [value_parse_of_decode h, ← value_entriesOf_eq_error_iff]
    cases (entriesOf ms).run.value <;> simp [Except.map]

/-- A document with a key that is written twice and an entry without credential. -/
theorem value_parse_repeated :
    (Source.parse .dockercfg (Text.utf8 ("\x7b\"b.io\":\x7b\"registrytoken\":\"old\"\x7d," ++
      "\"a.io\":\x7b\x7d,\"b.io\":\x7b\"registrytoken\":\"new\"\x7d\x7d"))).run.value =
      .ok ⟨[⟨⟨"b.io", ""⟩, .bearer "new"⟩]⟩ := by
  have hb : Readable ("b.io", .object [("registrytoken", .string "new")]) :=
    ⟨⟨⟨"b.io", ""⟩, by decide⟩, some (.bearer "new"), by decide⟩
  have ha : Readable ("a.io", .object []) := ⟨⟨⟨"a.io", ""⟩, by decide⟩, none, by decide⟩
  refine (((value_parse_iff _).1 .dockercfg _ (((value_parse_iff _).2.2.1 _).2 ?_)).1 _).2
    ⟨List.forall_mem_cons.2 ⟨hb, List.forall_mem_cons.2 ⟨ha, List.forall_mem_nil _⟩⟩, ?_⟩
  · with_unfolding_all rfl
  · decide

end RegistryAuth
