import RegistryAuth.Proofs.Logged
import RegistryAuth.Source

/-!
# Reading the entries of a document

A document is read if it is decoded and each of its entries is read by itself, and it gives the
entries that carry a credential (`value_entriesOf_eq_ok`). Whatever is wrong with it, it is a
malformed configuration (`malformed_of_parse`). The value of an entry may be an array too: of its
fields, in their order (`readable_iff_of_not_object`). Of an object only the members that are fields
can be wrong (`takeMembers_eq_ok_iff`).
-/

namespace RegistryAuth

open Json

/-- Whether an entry can be read: its key is a scope, and its value gives a credential or none. -/
def Readable (e : String × Value) : Prop :=
  (∃ scope, Scope.parse e.1 = .ok scope) ∧ ∃ credential, entryCredential? e.1 e.2 = .ok credential

section

variable {key : String} {scope : Scope} {v : Value} {e : ReadError}

theorem run_entriesOf_of_key (h : Scope.parse key = .error e) (v : Value) (rest : Members) :
    (entriesOf ((key, v) :: rest)).run = ⟨.error e, []⟩ := by
  rw [entriesOf, h]
  rfl

theorem run_entriesOf_of_value (hs : Scope.parse key = .ok scope)
    (hc : entryCredential? key v = .error e) (rest : Members) :
    (entriesOf ((key, v) :: rest)).run = ⟨.error e, []⟩ := by
  rw [entriesOf, hs, hc]
  rfl

theorem run_entriesOf_of_none (hs : Scope.parse key = .ok scope)
    (hc : entryCredential? key v = .ok none) (rest : Members) :
    (entriesOf ((key, v) :: rest)).run =
      ⟨(entriesOf rest).run.value, .entrySkipped key :: (entriesOf rest).run.events⟩ := by
  rw [entriesOf, hs, hc]
  rfl

theorem run_entriesOf_of_some {credential : Credential} (hs : Scope.parse key = .ok scope)
    (hc : entryCredential? key v = .ok (some credential)) (rest : Members) :
    (entriesOf ((key, v) :: rest)).run =
      ⟨(entriesOf rest).run.value.map (⟨scope, credential⟩ :: ·),
        (entriesOf rest).run.events⟩ := by
  rw [entriesOf, hs, hc]
  exact Logged.run_bind_pure (entriesOf rest) (⟨scope, credential⟩ :: ·)

end

/-- The entry of a member, if it carries a credential. -/
def Entry.ofMember? (m : String × Value) : Option Entry :=
  (Scope.parse m.1).toOption.bind fun scope =>
    (entryCredential? m.1 m.2).toOption.join.map (⟨scope, ·⟩)

theorem ofMember?_of_ok {m : String × Value} {scope : Scope} {credential : Option Credential}
    (hs : Scope.parse m.1 = .ok scope) (hc : entryCredential? m.1 m.2 = .ok credential) :
    Entry.ofMember? m = credential.map (⟨scope, ·⟩) := by
  rw [Entry.ofMember?, hs, hc]
  rfl

theorem ofMember?_eq_some_iff {m : String × Value} {e : Entry} : Entry.ofMember? m = some e ↔
    Scope.parse m.1 = .ok e.scope ∧ entryCredential? m.1 m.2 = .ok (some e.credential) := by
  obtain ⟨scope, credential⟩ := e
  rw [Entry.ofMember?]
  rcases Scope.parse m.1 with _ | scope' <;>
    rcases entryCredential? m.1 m.2 with _ | (_ | credential') <;> simp [Except.toOption]

theorem filterMap_ofMember?_cons {key : String} {v : Value} {scope : Scope}
    {credential : Option Credential} (ms : Members) (hs : Scope.parse key = .ok scope)
    (hc : entryCredential? key v = .ok credential) :
    ((key, v) :: ms).filterMap Entry.ofMember? =
      (credential.map (⟨scope, ·⟩)).toList ++ ms.filterMap Entry.ofMember? := by
  have hm : Entry.ofMember? (key, v) = credential.map (⟨scope, ·⟩) := ofMember?_of_ok hs hc
  rw [List.filterMap_cons, hm]
  cases credential <;> rfl

theorem value_entriesOf_cons (key : String) (v : Value) (rest : Members) :
    (entriesOf ((key, v) :: rest)).run.value = (do
      let scope ← Scope.parse key
      let credential ← entryCredential? key v
      let entries ← (entriesOf rest).run.value
      return (credential.map (⟨scope, ·⟩)).toList ++ entries) := by
  cases hs : Scope.parse key with
  | error e => rw [run_entriesOf_of_key hs]; rfl
  | ok scope =>
    rcases hc : entryCredential? key v with e | (_ | credential)
    · rw [run_entriesOf_of_value hs hc]; rfl
    · rw [run_entriesOf_of_none hs hc]
      cases (entriesOf rest).run.value <;> rfl
    · rw [run_entriesOf_of_some hs hc]
      cases (entriesOf rest).run.value <;> rfl

theorem value_entriesOf_eq_ok {ms : Members} {entries : List Entry} :
    (entriesOf ms).run.value = .ok entries ↔
      (∀ m ∈ ms, Readable m) ∧ entries = ms.filterMap Entry.ofMember? := by
  induction ms generalizing entries with
  | nil =>
    show Except.ok [] = _ ↔ _
    simp [eq_comm]
  | cons m ms ih =>
    obtain ⟨key, v⟩ := m
    rw [value_entriesOf_cons, List.forall_mem_cons, Readable]
    simp only [bind_eq_ok, ih]
    refine ⟨fun ⟨scope, hs, credential, hc, others, ⟨hr, ho⟩, h⟩ => ?_,
      fun ⟨⟨⟨⟨scope, hs⟩, credential, hc⟩, hr⟩, h⟩ => ?_⟩
    · refine ⟨⟨⟨⟨scope, hs⟩, credential, hc⟩, hr⟩, ?_⟩
      rw [filterMap_ofMember?_cons ms hs hc, ← Except.ok.inj h, ho]
    · refine ⟨scope, hs, credential, hc, _, ⟨hr, rfl⟩, ?_⟩
      rw [h, filterMap_ofMember?_cons ms hs hc]
      rfl

/-! ## Errors -/

/-- Whether an error says that a credential document is malformed. -/
def ReadError.IsMalformed (e : ReadError) : Prop := ∃ fault, e = .malformedConfig fault

theorem malformed_of_scope {key : String} {e : ReadError} (h : Scope.parse key = .error e) :
    e.IsMalformed := by
  simp only [Scope.parse] at h
  split at h
  · exact ⟨_, (Except.error.inj h).symm⟩
  · split at h
    · exact ⟨_, (Except.error.inj h).symm⟩
    · simp at h

theorem malformed_of_entryCredential? {key : String} {v : Value} {e : ReadError}
    (h : entryCredential? key v = .error e) : e.IsMalformed := by
  rcases bind_eq_error.1 h with h | ⟨fields, -, h⟩
  · obtain ⟨fault, -, rfl⟩ := mapError_eq_error.1 h
    exact ⟨_, rfl⟩
  · obtain ⟨fault, -, rfl⟩ := mapError_eq_error.1 h
    exact ⟨_, rfl⟩

theorem malformed_of_entriesOf {ms : Members} {e : ReadError}
    (h : (entriesOf ms).run.value = .error e) : e.IsMalformed := by
  induction ms with
  | nil => cases h
  | cons entry rest ih =>
    obtain ⟨key, v⟩ := entry
    rw [value_entriesOf_cons] at h
    rcases bind_eq_error.1 h with h | ⟨scope, -, h⟩
    · exact malformed_of_scope h
    rcases bind_eq_error.1 h with h | ⟨credential, -, h⟩
    · exact malformed_of_entryCredential? h
    rcases bind_eq_error.1 h with h | ⟨entries, -, h⟩
    · exact ih h
    · cases h

theorem value_parse (format : DocumentFormat) (s : Bytes) :
    (Source.parse format s).run.value = (do
      let ms ← format.members s
      let entries ← (entriesOf ms).run.value
      return ⟨entries⟩) := by
  rw [Source.parse, Logged.value_run_bind, DocumentFormat.entries, Logged.value_run_bind]
  cases format.members s <;> rfl

theorem run_parse_of_decode {format : DocumentFormat} {s : Bytes} {ms : Members}
    (h : format.decode s = .ok ms) : (Source.parse format s).run =
      ⟨(entriesOf ms).run.value.map Source.mk, (entriesOf ms).run.events⟩ := by
  rw [Source.parse, DocumentFormat.entries, DocumentFormat.members, h]
  exact Logged.run_bind_pure (entriesOf ms) Source.mk

theorem value_parse_of_decode {format : DocumentFormat} {s : Bytes} {ms : Members}
    (h : format.decode s = .ok ms) :
    (Source.parse format s).run.value = (entriesOf ms).run.value.map Source.mk := by
  rw [run_parse_of_decode h]

theorem malformed_of_parse {format : DocumentFormat} {s : Bytes} {e : ReadError}
    (h : (Source.parse format s).run.value = .error e) : e.IsMalformed := by
  rw [value_parse] at h
  rcases bind_eq_error.1 h with h | ⟨ms, -, h⟩
  · obtain ⟨fault, -, rfl⟩ := mapError_eq_error.1 h
    exact ⟨_, rfl⟩
  · rcases bind_eq_error.1 h with h | ⟨entries, -, h⟩
    · exact malformed_of_entriesOf h
    · cases h

theorem exists_members_of_parse {format : DocumentFormat} {s : Bytes} {source : Source}
    (h : (Source.parse format s).run.value = .ok source) :
    ∃ ms, format.decode s = .ok ms ∧ (∀ m ∈ ms, Readable m) ∧
      source.entries = ms.filterMap Entry.ofMember? := by
  rw [value_parse] at h
  obtain ⟨ms, hms, h⟩ := bind_eq_ok.1 h
  obtain ⟨entries, he, h⟩ := bind_eq_ok.1 h
  cases h
  exact ⟨ms, mapError_eq_ok.1 hms, value_entriesOf_eq_ok.1 he⟩

theorem value_parse_eq_ok_iff (format : DocumentFormat) (s : Bytes) :
    (∃ source, (Source.parse format s).run.value = .ok source) ↔
      ∃ ms, format.decode s = .ok ms ∧ ∀ e ∈ ms, Readable e := by
  refine ⟨fun ⟨_, h⟩ => ?_, fun ⟨ms, hd, hr⟩ => ?_⟩
  · obtain ⟨ms, hd, hr, -⟩ := exists_members_of_parse h
    exact ⟨ms, hd, hr⟩
  · rw [value_parse_of_decode hd, value_entriesOf_eq_ok.2 ⟨hr, rfl⟩]
    exact ⟨_, rfl⟩

/-- Whether a document is refused as malformed. -/
def DocumentFormat.Refuses (format : DocumentFormat) (s : Bytes) : Prop :=
  ∃ fault, (Source.parse format s).run.value = .error (.malformedConfig fault)

theorem refuses_iff (format : DocumentFormat) (s : Bytes) :
    format.Refuses s ↔ ∀ ms, format.decode s = .ok ms → ∃ e ∈ ms, ¬ Readable e := by
  have h := value_parse_eq_ok_iff format s
  rw [DocumentFormat.Refuses]
  cases hp : (Source.parse format s).run.value with
  | ok source =>
    rw [hp] at h
    obtain ⟨ms, hd, hr⟩ := h.1 ⟨source, rfl⟩
    refine ⟨fun ⟨fault, hf⟩ => ?_, fun hall => ?_⟩
    · simp at hf
    · obtain ⟨e, he, hn⟩ := hall ms hd
      exact absurd (hr e he) hn
  | error e =>
    rw [hp] at h
    obtain ⟨fault, rfl⟩ := malformed_of_parse hp
    refine ⟨fun _ ms hd => Classical.byContradiction fun hn => ?_, fun _ => ⟨fault, rfl⟩⟩
    have hr : ∀ e ∈ ms, Readable e := fun e he =>
      Classical.byContradiction fun hu => hn ⟨e, he, hu⟩
    obtain ⟨_, hs⟩ := h.2 ⟨ms, hd, hr⟩
    simp at hs

/-! ## Entries that are not objects -/

/-- Whether a value is taken for a field of an entry: a text, or `null` for none. -/
def IsField (v : Value) : Prop := v = .null ∨ ∃ text, v = .string text

theorem toText?_eq_ok_iff {v : Value} : (∃ x, v.toText? = .ok x) ↔ IsField v := by
  cases v <;> simp [Value.toText?, Value.toText, IsField, Except.map]

/-- Whether an `auth` field can be decoded. An empty one counts as absent. -/
def Decodes (auth : String) : Prop :=
  auth ≠ "" → ∃ credential, EntryFields.decodeAuth auth = .ok credential

theorem nonempty_eq_some_iff {field : Option String} {text : String} :
    EntryFields.nonempty field = some text ↔ field = some text ∧ text ≠ "" := by
  rw [EntryFields.nonempty, Option.filter_eq_some_iff, decide_eq_true_iff]

theorem credential?_of_auth {fields : EntryFields} {auth : String}
    (h : EntryFields.nonempty fields.auth = some auth) :
    fields.credential? = (EntryFields.decodeAuth auth).map some := by
  rw [EntryFields.credential?, h]

theorem exists_credential?_of_no_auth {fields : EntryFields}
    (h : EntryFields.nonempty fields.auth = none) : ∃ c, fields.credential? = .ok c := by
  rw [EntryFields.credential?, h]
  cases EntryFields.nonempty fields.registryToken with
  | some token => exact ⟨_, rfl⟩
  | none => dsimp only; split <;> exact ⟨_, rfl⟩

theorem credential?_eq_ok_iff (fields : EntryFields) :
    (∃ credential, fields.credential? = .ok credential) ↔
      ∀ auth, fields.auth = some auth → Decodes auth := by
  cases h : EntryFields.nonempty fields.auth with
  | none =>
    refine ⟨fun _ auth ha hne => ?_, fun _ => exists_credential?_of_no_auth h⟩
    rw [nonempty_eq_some_iff.2 ⟨ha, hne⟩] at h
    simp at h
  | some auth =>
    obtain ⟨ha, hne⟩ := nonempty_eq_some_iff.1 h
    rw [credential?_of_auth h]
    refine ⟨fun ⟨_, hc⟩ auth' ha' _ => ?_, fun hd => ?_⟩
    · rw [← Option.some.inj (ha.symm.trans ha')]
      obtain ⟨credential, hc, -⟩ := map_eq_ok.1 hc
      exact ⟨credential, hc⟩
    · obtain ⟨credential, hc⟩ := hd auth ha hne
      rw [hc]
      exact ⟨some credential, rfl⟩

theorem entryCredential?_eq_ok_iff (key : String) (v : Value) :
    (∃ credential, entryCredential? key v = .ok credential) ↔
      ∃ fields, EntryFields.ofValue v = .ok fields ∧
        ∀ auth, fields.auth = some auth → Decodes auth := by
  simp only [← credential?_eq_ok_iff, entryCredential?, bind_eq_ok, mapError_eq_ok]
  refine ⟨fun ⟨credential, fields, hf, hc⟩ => ?_, fun ⟨fields, hf, credential, hc⟩ => ?_⟩
  · exact ⟨fields, hf, credential, hc⟩
  · exact ⟨credential, fields, hf, hc⟩

/-- Whether the items of an array are taken for the fields of an entry. -/
structure Positional (vs : List Value) : Prop where
  length_le : vs.length ≤ EntryFields.parts.length
  fields : ∀ v ∈ vs, IsField v
  auth : ∀ auth, vs.head? = some (.string auth) → Decodes auth

theorem part_take_eq_ok_iff {part : Json.Part EntryFields} (h : part ∈ EntryFields.parts)
    (fields : EntryFields) (v : Value) : (∃ r, part.take fields v = .ok r) ↔ IsField v := by
  rw [← toText?_eq_ok_iff]
  simp only [EntryFields.parts, List.mem_cons, List.not_mem_nil, or_false] at h
  have hmap {α : Type} (x : Except Json.Cause α) (f : α → EntryFields) :
      (∃ r, x.map f = .ok r) ↔ ∃ a, x = .ok a := by
    cases x <;> simp [Except.map]
  rcases h with rfl | rfl | rfl | rfl <;> exact hmap _ _

theorem takeItems_eq_ok_iff {parts : List (Json.Part EntryFields)}
    (h : ∀ part ∈ parts, part ∈ EntryFields.parts) (fields : EntryFields) (vs : List Value) :
    (∃ r, takeItems fields parts vs = .ok r) ↔ ∀ v ∈ vs.take parts.length, IsField v := by
  induction parts generalizing fields vs with
  | nil =>
    refine ⟨fun _ v hv => ?_, fun _ => ⟨fields, rfl⟩⟩
    simp at hv
  | cons part parts ih =>
    cases vs with
    | nil =>
      refine ⟨fun _ v hv => ?_, fun _ => ⟨fields, rfl⟩⟩
      simp at hv
    | cons v vs =>
      rw [takeItems, List.length_cons, List.take_succ_cons, List.forall_mem_cons,
        ← part_take_eq_ok_iff (h part List.mem_cons_self) fields]
      have htail : ∀ p ∈ parts, p ∈ EntryFields.parts :=
        fun p hp => h p (List.mem_cons_of_mem part hp)
      refine ⟨fun ⟨r, hr⟩ => ?_, fun ⟨⟨next, hn⟩, hvs⟩ => ?_⟩
      · obtain ⟨next, hn, hr⟩ := bind_eq_ok.1 hr
        exact ⟨⟨next, hn⟩, (ih htail next vs).1 ⟨r, hr⟩⟩
      · obtain ⟨r, hr⟩ := (ih htail next vs).2 hvs
        exact ⟨r, bind_eq_ok.2 ⟨next, hn, hr⟩⟩

/-- Only the first item of an array is the `auth` field. -/
theorem auth_of_takeItems {parts : List (Json.Part EntryFields)}
    (h : ∀ part ∈ parts, part ∈ EntryFields.parts.tail) {fields r : EntryFields}
    {vs : List Value} (hr : takeItems fields parts vs = .ok r) : r.auth = fields.auth := by
  induction parts generalizing fields vs with
  | nil => cases hr; rfl
  | cons part parts ih =>
    cases vs with
    | nil => cases hr; rfl
    | cons v vs =>
      obtain ⟨next, hn, hr⟩ := bind_eq_ok.1 hr
      rw [ih (fun p hp => h p (List.mem_cons_of_mem part hp)) hr]
      have hp := h part List.mem_cons_self
      simp only [EntryFields.parts, List.tail_cons, List.mem_cons, List.not_mem_nil, or_false] at hp
      rcases hp with rfl | rfl | rfl <;>
        (obtain ⟨x, -, hx⟩ := map_eq_ok.1 hn; rw [← hx])

theorem auth_of_takeItems_parts {vs : List Value} {r : EntryFields}
    (h : takeItems .blank EntryFields.parts vs = .ok r) (auth : String) :
    r.auth = some auth ↔ vs.head? = some (.string auth) := by
  cases vs with
  | nil =>
    cases h
    simp [EntryFields.blank]
  | cons v vs =>
    obtain ⟨next, hn, hr⟩ := bind_eq_ok.1 h
    obtain ⟨x, hx, rfl⟩ := map_eq_ok.1 hn
    rw [auth_of_takeItems (fun _ hp => hp) hr, List.head?_cons, Option.some.injEq]
    cases v <;> simp_all [Value.toText?, Value.toText, Except.map, eq_comm]

theorem ofValue_array_eq_ok_iff {vs : List Value} {fields : EntryFields} :
    EntryFields.ofValue (.array vs) = .ok fields ↔
      takeItems .blank EntryFields.parts vs = .ok fields ∧
        vs.length ≤ EntryFields.parts.length := by
  have hof : EntryFields.ofValue (.array vs) = (do
      let fields ← takeItems .blank EntryFields.parts vs
      if EntryFields.parts.length < vs.length then throw (.tooLong vs.length)
      return fields) := rfl
  rw [hof, ← Nat.not_lt]
  cases takeItems .blank EntryFields.parts vs with
  | error e => simp [bind, Except.bind]
  | ok r =>
    by_cases h : EntryFields.parts.length < vs.length
    · simp [h, bind, Except.bind]
    · simp [h, bind, Except.bind, pure, Except.pure]

theorem positional_iff (vs : List Value) :
    (∃ fields, EntryFields.ofValue (.array vs) = .ok fields ∧
      ∀ auth, fields.auth = some auth → Decodes auth) ↔ Positional vs := by
  have hparts : ∀ part ∈ EntryFields.parts, part ∈ EntryFields.parts := fun _ h => h
  have hitems := takeItems_eq_ok_iff hparts .blank vs
  simp only [ofValue_array_eq_ok_iff]
  refine ⟨fun ⟨fields, ⟨hf, hl⟩, ha⟩ => ?_, fun ⟨hl, hfields, ha⟩ => ?_⟩
  · refine ⟨hl, ?_, fun auth h => ha auth ((auth_of_takeItems_parts hf auth).2 h)⟩
    have hfields := hitems.1 ⟨fields, hf⟩
    rwa [List.take_of_length_le hl] at hfields
  · rw [List.take_of_length_le hl] at hitems
    obtain ⟨fields, hf⟩ := hitems.2 hfields
    exact ⟨fields, ⟨hf, hl⟩, fun auth h => ha auth ((auth_of_takeItems_parts hf auth).1 h)⟩

theorem readable_iff_of_not_object (key : String) (v : Value) (hv : ∀ ms, v ≠ .object ms) :
    Readable (key, v) ↔
      (∃ scope, Scope.parse key = .ok scope) ∧ ∃ vs, v = .array vs ∧ Positional vs := by
  refine and_congr_right fun _ => ?_
  rw [entryCredential?_eq_ok_iff]
  cases v with
  | object ms => exact absurd rfl (hv ms)
  | array vs => simp [positional_iff]
  | null | bool | number | string => simp [EntryFields.ofValue, recordOfValue]

/-! ## Entries that are objects -/

section

variable {σ : Type} {parts : List (Json.Part σ)} {name : String}

theorem takeMembers_cons_of_none (h : parts.find? (·.name = name) = none) (record : σ) (v : Value)
    (ms : Members) : takeMembers parts record ((name, v) :: ms) = takeMembers parts record ms := by
  rw [takeMembers, List.foldlM_cons]
  simp only [h]
  rfl

theorem takeMembers_cons_of_some {part : Json.Part σ} (h : parts.find? (·.name = name) = some part)
    (record : σ) (v : Value) (ms : Members) : takeMembers parts record ((name, v) :: ms) =
      part.take record v >>= fun record => takeMembers parts record ms := by
  rw [takeMembers, List.foldlM_cons]
  simp only [h]
  rfl

end

namespace EntryFields

/-- The names of the fields. -/
def names : List String := parts.map (·.name)

theorem find?_parts_eq_none_iff {name : String} :
    parts.find? (·.name = name) = none ↔ name ∉ names := by
  simp [names]

theorem mem_of_find?_parts {part : Json.Part EntryFields} {name : String}
    (h : parts.find? (·.name = name) = some part) : part ∈ parts ∧ part.name = name :=
  ⟨List.mem_of_find?_eq_some h, by simpa using List.find?_some h⟩

theorem takeMembers_eq_ok_iff (fields : EntryFields) (ms : Members) :
    (∃ r, takeMembers parts fields ms = .ok r) ↔ ∀ m ∈ ms, m.1 ∈ names → IsField m.2 := by
  induction ms generalizing fields with
  | nil => exact ⟨fun _ _ h => (List.not_mem_nil h).elim, fun _ => ⟨fields, rfl⟩⟩
  | cons m ms ih =>
    obtain ⟨name, v⟩ := m
    rw [List.forall_mem_cons]
    cases hp : parts.find? (·.name = name) with
    | none =>
      have hn : name ∉ names := find?_parts_eq_none_iff.1 hp
      rw [takeMembers_cons_of_none hp, ih]
      exact ⟨fun h => ⟨fun hm => absurd hm hn, h⟩, And.right⟩
    | some part =>
      obtain ⟨hmem, rfl⟩ := mem_of_find?_parts hp
      rw [takeMembers_cons_of_some hp, ← part_take_eq_ok_iff hmem fields]
      refine ⟨fun ⟨r, hr⟩ => ?_, fun ⟨ht, hms⟩ => ?_⟩
      · obtain ⟨next, ht, hr⟩ := bind_eq_ok.1 hr
        exact ⟨fun _ => ⟨next, ht⟩, (ih next).1 ⟨r, hr⟩⟩
      · obtain ⟨next, ht⟩ := ht (List.mem_map_of_mem hmem)
        obtain ⟨r, hr⟩ := (ih next).2 hms
        exact ⟨r, bind_eq_ok.2 ⟨next, ht, hr⟩⟩

end EntryFields

end RegistryAuth
