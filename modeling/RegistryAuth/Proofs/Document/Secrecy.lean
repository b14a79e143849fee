import RegistryAuth.Proofs.Document.Decoding
import RegistryAuth.Proofs.Document.Entries

/-!
# What reading a document tells of a password

Two documents that differ in one password only are followed through reading, as far as it shows. Of
the entries that is how many there are, the error and the events (`outline`). A text as password
shows nowhere there (`outline_fill_of_field`). A password of another type shows in the error by what
a message calls it, if reading gets that far (`outline_fill_of_reached`,
`outline_fill_of_not_reached`). Where the entries are not found, what is wrong is the same, and only
the place of it can differ (`Frame.decode_of_not_opens`, `Displaced`).
-/

namespace RegistryAuth

open Json

/-- Whether two values have the same JSON type. -/
def SameType : Value → Value → Prop
  | .null, .null | .bool _, .bool _ | .number _, .number _ | .string _, .string _
  | .array _, .array _ | .object _, .object _ => True
  | _, _ => False

/-! ## The value of an entry -/

theorem takeMembers_append {σ : Type} {parts : List (Json.Part σ)} (record : σ)
    (ms ms' : Members) : takeMembers parts record (ms ++ ms') =
      takeMembers parts record ms >>= fun record => takeMembers parts record ms' :=
  List.foldlM_append

namespace EntryFields

/-- Fields of which only whether there is a password is left of the password. -/
def blurred (fields : EntryFields) : EntryFields :=
  { fields with password := fields.password.map fun _ => "" }

theorem isSome_credential?_blurred (fields : EntryFields) :
    fields.blurred.credential?.map Option.isSome = fields.credential?.map Option.isSome := by
  rcases fields with ⟨auth, username, _ | password, token⟩
  · rfl
  · simp only [credential?, blurred, Option.map_some, Option.isNone_some, Bool.and_false]
    split <;> rfl

theorem blurred_take {part : Json.Part EntryFields} (h : part ∈ parts) (fields : EntryFields)
    (v : Value) :
    (part.take fields.blurred v).map blurred = (part.take fields v).map blurred := by
  simp only [parts, List.mem_cons, List.not_mem_nil, or_false] at h
  rcases h with rfl | rfl | rfl | rfl <;> simp only [Json.Part.of] <;> cases v.toText? <;>
    simp [Except.map, blurred, Function.comp_def]

/-- What is taken from members does not depend on the text of a password before them. -/
theorem blurred_takeMembers {f g : EntryFields} (h : f.blurred = g.blurred) (ms : Members) :
    (takeMembers parts f ms).map blurred = (takeMembers parts g ms).map blurred := by
  induction ms generalizing f g with
  | nil => exact congrArg Except.ok h
  | cons m ms ih =>
    obtain ⟨name, v⟩ := m
    cases hp : parts.find? (·.name = name) with
    | none => rw [takeMembers_cons_of_none hp, takeMembers_cons_of_none hp, ih h]
    | some part =>
      rw [takeMembers_cons_of_some hp, takeMembers_cons_of_some hp]
      have hmem := List.mem_of_find?_eq_some hp
      have ht : (part.take f v).map blurred = (part.take g v).map blurred := by
        rw [← blurred_take hmem f, ← blurred_take hmem g, h]
      exact map_bind_eq_map_bind blurred ht fun _ _ h => ih h

end EntryFields

/-! ## A password in a document -/

/-- A place for a password: among the fields of an entry, and the entry among others. -/
structure Spot where
  entriesBefore : Members
  key : String
  fieldsBefore : Members
  fieldsAfter : Members
  entriesAfter : Members

namespace Spot

/-- The value of the entry with a password in the place. -/
def entry (x : Spot) (password : Value) : Value :=
  .object (x.fieldsBefore ++ ("password", password) :: x.fieldsAfter)

/-- The entries with a password in the place. -/
def fill (x : Spot) (password : Value) : Members :=
  x.entriesBefore ++ (x.key, x.entry password) :: x.entriesAfter

/-- Whether reading comes as far as the password: whatever is before it can be read. -/
structure Reached (x : Spot) : Prop where
  entries : ∀ e ∈ x.entriesBefore, Readable e
  key : ∃ scope, Scope.parse x.key = .ok scope
  fields : ∀ m ∈ x.fieldsBefore, m.1 ∈ EntryFields.parts.map (·.name) → IsField m.2

end Spot

/-- Taking fields comes to the password with those before it. -/
theorem ofValue_entry (x : Spot) (p : Value) : EntryFields.ofValue (x.entry p) = (do
    let fields ← takeMembers EntryFields.parts .blank x.fieldsBefore
    let password ← p.toText?
    takeMembers EntryFields.parts { fields with password } x.fieldsAfter) := by
  show takeMembers EntryFields.parts .blank _ = _
  rw [takeMembers_append]
  congr 1
  funext fields
  have hp : EntryFields.parts.find? (·.name = "password") = EntryFields.parts[2]? := rfl
  rw [takeMembers_cons_of_some hp]
  show (p.toText?.map _ >>= _) = _
  cases p.toText? <;> rfl

theorem isSome_entryCredential?_of_blurred {key : String} {v w : Value}
    (h : (EntryFields.ofValue v).map EntryFields.blurred =
      (EntryFields.ofValue w).map EntryFields.blurred) :
    (entryCredential? key v).map Option.isSome = (entryCredential? key w).map Option.isSome := by
  refine map_bind_eq_map_bind EntryFields.blurred ?_ fun f g hfg => ?_
  · rw [map_mapError, map_mapError, h]
  · rw [map_mapError, map_mapError, ← EntryFields.isSome_credential?_blurred, hfg,
      EntryFields.isSome_credential?_blurred]

theorem isSome_entryCredential?_of_field (x : Spot) {p₁ p₂ : Value} (hs : SameType p₁ p₂)
    (hf : IsField p₁) : (entryCredential? x.key (x.entry p₁)).map Option.isSome =
      (entryCredential? x.key (x.entry p₂)).map Option.isSome := by
  refine isSome_entryCredential?_of_blurred ?_
  rw [ofValue_entry, ofValue_entry]
  rcases hf with rfl | ⟨text, rfl⟩
  · cases p₂ with
    | null => rfl
    | bool | number | string | array | object => cases hs
  · cases p₂ with
    | string text' =>
      refine map_bind_eq_map_bind id rfl fun f g h => ?_
      exact EntryFields.blurred_takeMembers (by rw [show f = g from h]; rfl) x.fieldsAfter
    | null | bool | number | array | object => cases hs

theorem toText?_of_not_field {p : Value} (hp : ¬ IsField p) :
    p.toText? = .error (.invalidType p.found .text) := by
  cases p with
  | null => exact absurd (.inl rfl) hp
  | string text => exact absurd (.inr ⟨text, rfl⟩) hp
  | bool | number | array | object => rfl

theorem entryCredential?_of_reached {x : Spot} (hx : x.Reached) {p : Value} (hp : ¬ IsField p) :
    entryCredential? x.key (x.entry p) =
      .error (.malformedConfig (.entryType x.key (.invalidType p.found .text))) := by
  obtain ⟨fields, hf⟩ := (EntryFields.takeMembers_eq_ok_iff .blank x.fieldsBefore).2 hx.fields
  rw [entryCredential?, ofValue_entry, hf]
  show (((p.toText? >>= _ : Except Json.Cause EntryFields)).mapError _ >>= _) = _
  rw [toText?_of_not_field hp]
  rfl

/-! ## Entries -/

/-- What reading entries shows: how many there are, or the error, and the events. -/
def outline (ms : Members) : Logged (Except ReadError Nat) :=
  ⟨(entriesOf ms).run.value.map List.length, (entriesOf ms).run.events⟩

/-- The outline with one more entry, from its scope and whether it gives a credential. -/
def outlineCons (key : String) : Except ReadError Scope → Except ReadError Bool →
    Logged (Except ReadError Nat) → Logged (Except ReadError Nat)
  | .error e, _, _ | .ok _, .error e, _ => ⟨.error e, []⟩
  | .ok _, .ok true, rest => ⟨rest.value.map (· + 1), rest.events⟩
  | .ok _, .ok false, rest => ⟨rest.value, .entrySkipped key :: rest.events⟩

theorem outline_cons (key : String) (v : Value) (rest : Members) :
    outline ((key, v) :: rest) = outlineCons key (Scope.parse key)
      ((entryCredential? key v).map Option.isSome) (outline rest) := by
  rw [outline]
  cases hs : Scope.parse key with
  | error e => rw [run_entriesOf_of_key hs]; rfl
  | ok scope =>
    rcases hc : entryCredential? key v with e | (_ | credential)
    · rw [run_entriesOf_of_value hs hc]; rfl
    · rw [run_entriesOf_of_none hs hc]; rfl
    · rw [run_entriesOf_of_some hs hc, outline]
      cases (entriesOf rest).run.value <;> rfl

theorem outline_congr (before : Members) {rest rest' : Members} (h : outline rest = outline rest') :
    outline (before ++ rest) = outline (before ++ rest') := by
  induction before with
  | nil => exact h
  | cons e before ih =>
    obtain ⟨key, v⟩ := e
    rw [List.cons_append, List.cons_append, outline_cons, outline_cons, ih]

theorem outlineCons_of_unreadable {key : String} {v : Value} (h : ¬ Readable (key, v))
    (rest rest' : Logged (Except ReadError Nat)) :
    outlineCons key (Scope.parse key) ((entryCredential? key v).map Option.isSome) rest =
      outlineCons key (Scope.parse key) ((entryCredential? key v).map Option.isSome) rest' := by
  cases hs : Scope.parse key with
  | error e => rfl
  | ok scope =>
    cases hc : entryCredential? key v with
    | error e => rfl
    | ok credential => exact absurd ⟨⟨scope, hs⟩, credential, hc⟩ h

/-- After an entry that cannot be read nothing matters. -/
theorem outline_append_of_unreadable {before : Members} (h : ∃ e ∈ before, ¬ Readable e)
    (rest rest' : Members) : outline (before ++ rest) = outline (before ++ rest') := by
  induction before with
  | nil =>
    obtain ⟨_, he, -⟩ := h
    simp at he
  | cons e before ih =>
    obtain ⟨key, v⟩ := e
    rw [List.cons_append, List.cons_append, outline_cons, outline_cons]
    by_cases hr : Readable (key, v)
    · obtain ⟨e, he, hn⟩ := h
      rcases List.mem_cons.1 he with rfl | he
      · exact absurd hr hn
      · rw [ih ⟨e, he, hn⟩]
    · exact outlineCons_of_unreadable hr _ _

theorem outline_append_of_readable {before : Members} (h : ∀ e ∈ before, Readable e)
    {rest : Members} {error : ReadError} (hr : outline rest = ⟨.error error, []⟩) :
    outline (before ++ rest) = ⟨.error error, (outline before).events⟩ := by
  induction before with
  | nil => exact hr
  | cons e before ih =>
    obtain ⟨key, v⟩ := e
    rw [List.forall_mem_cons] at h
    obtain ⟨⟨⟨scope, hs⟩, credential, hc⟩, hb⟩ := h
    have hs : Scope.parse key = .ok scope := hs
    have hc : entryCredential? key v = .ok credential := hc
    rw [List.cons_append, outline_cons, outline_cons, ih hb, hs, hc]
    cases credential <;> rfl

/-! ## The password shows -/

theorem outline_fill_of_field (x : Spot) {p₁ p₂ : Value} (hs : SameType p₁ p₂)
    (hf : IsField p₁) : outline (x.fill p₁) = outline (x.fill p₂) := by
  refine outline_congr x.entriesBefore ?_
  rw [outline_cons, outline_cons, isSome_entryCredential?_of_field x hs hf]

theorem outline_fill_of_not_reached {x : Spot} (hx : ¬ x.Reached) (p₁ p₂ : Value) :
    outline (x.fill p₁) = outline (x.fill p₂) := by
  by_cases hb : ∀ e ∈ x.entriesBefore, Readable e
  · refine outline_congr x.entriesBefore ?_
    rw [outline_cons, outline_cons]
    cases hk : Scope.parse x.key with
    | error e => rfl
    | ok scope =>
      cases hf : takeMembers EntryFields.parts .blank x.fieldsBefore with
      | ok fields =>
        have hfields := (EntryFields.takeMembers_eq_ok_iff .blank x.fieldsBefore).1 ⟨fields, hf⟩
        exact absurd ⟨hb, ⟨scope, hk⟩, hfields⟩ hx
      | error e =>
        have h (p : Value) : EntryFields.ofValue (x.entry p) = .error e := by
          rw [ofValue_entry, hf]
          rfl
        rw [entryCredential?, entryCredential?, h, h]
  · refine outline_append_of_unreadable (Classical.byContradiction fun hn => hb fun e he => ?_) _ _
    exact Classical.byContradiction fun hr => hn ⟨e, he, hr⟩

theorem outline_fill_of_reached {x : Spot} (hx : x.Reached) {p : Value} (hp : ¬ IsField p) :
    outline (x.fill p) =
      ⟨.error (.malformedConfig (.entryType x.key (.invalidType p.found .text))),
        (outline x.entriesBefore).events⟩ := by
  refine outline_append_of_readable hx.entries ?_
  obtain ⟨scope, hs⟩ := hx.key
  rw [outline_cons, hs, entryCredential?_of_reached hx hp]
  rfl

/-! ## Documents -/

/-- Where the entries stand in the text of a document. -/
inductive Frame where
  /-- They are the text. -/
  | bare
  /-- They are the `auths` of an object, between its other members as they are written. -/
  | wrapped (before after : Members)
  /-- They are an item of an array, between its other items. -/
  | listed (before after : List Value)

namespace Frame

/-- The format of a document in which the entries stand so. -/
def format : Frame → DocumentFormat
  | .bare => .dockercfg
  | .wrapped .. | .listed .. => .dockerconfigjson

/-- Whether entries stand in a text. -/
def Holds : Frame → Bytes → Members → Prop
  | .bare, s, ms => Json.decode s = .ok (.object ms)
  | .wrapped before after, s, ms => written s = .ok (before ++ ("auths", .object ms) :: after)
  | .listed before after, s, ms => Json.decode s = .ok (.array (before ++ .object ms :: after))

/-- Whether the entries are found. -/
def Opens : Frame → Prop
  | .bare => True
  | .wrapped before after => "auths" ∉ before.names ∧ "auths" ∉ after.names
  | .listed before after => before = [] ∧ after = []

theorem decode_of_opens {x : Frame} (hx : x.Opens) {s : Bytes} {ms : Members}
    (h : x.Holds s ms) : x.format.decode s = .ok ms := by
  cases x with
  | bare => exact decode_dockercfg_eq_ok_iff.2 h
  | wrapped before after =>
    refine mapError_eq_ok.1 ((cause_decode_dockerconfigjson s).trans ?_)
    rw [cause_wrapper_decode_of_written h, foldlM_takeAuths_of_once _ hx.1 hx.2]
    rfl
  | listed before after =>
    obtain ⟨rfl, rfl⟩ := hx
    refine mapError_eq_ok.1 ((cause_decode_dockerconfigjson s).trans ?_)
    rw [cause_wrapper_decode_of_array h]
    rfl

theorem soleMembers_of_not_sole {before after : List Value} (h : ¬ (before = [] ∧ after = [])) :
    ∃ cause, ∀ ms, soleMembers (before ++ .object ms :: after) = .error cause := by
  cases before with
  | nil =>
    refine ⟨.trailingCharacters, fun ms => ?_⟩
    rw [List.nil_append, soleMembers_cons]
    exact if_neg fun ha => h ⟨rfl, ha⟩
  | cons v before =>
    have hne (ms : Members) : before ++ .object ms :: after ≠ [] :=
      List.append_ne_nil_of_right_ne_nil before (List.cons_ne_nil _ after)
    simp only [List.cons_append, soleMembers_cons, if_neg (hne _)]
    cases v.toMembers <;> exact ⟨_, fun _ => rfl⟩

theorem foldlM_takeAuths_of_not_once {before after : Members}
    (h : ¬ ("auths" ∉ before.names ∧ "auths" ∉ after.names)) : ∃ cause, ∀ ms,
      (before ++ ("auths", .object ms) :: after).foldlM takeAuths none = .error cause := by
  by_cases hb : "auths" ∈ before.names
  · obtain ⟨first, v, second, rfl, hn⟩ := exists_first hb
    have hmem (ms : Members) :
        "auths" ∈ Members.names (second ++ ("auths", .object ms) :: after) :=
      List.mem_map_of_mem (List.mem_append_right _ List.mem_cons_self)
    simp only [List.append_assoc, List.cons_append, foldlM_takeAuths_of_repeated v hn (hmem _)]
    cases v.toMembers <;> exact ⟨_, fun _ => rfl⟩
  · have ha : "auths" ∈ after.names := Classical.byContradiction fun ha => h ⟨hb, ha⟩
    exact ⟨.duplicateField "auths", fun ms => foldlM_takeAuths_of_repeated _ hb ha⟩

/-- Where the entries are not found, which they are does not matter for what is wrong. -/
theorem decode_of_not_opens {x : Frame} (hx : ¬ x.Opens) : ∃ cause, ∀ {s ms}, x.Holds s ms →
    ∃ e, x.format.decode s = .error e ∧ e.cause = cause := by
  cases x with
  | bare => exact absurd trivial hx
  | wrapped before after =>
    obtain ⟨cause, hc⟩ := foldlM_takeAuths_of_not_once hx
    refine ⟨cause, fun {s ms} h => mapError_eq_error.1 ?_⟩
    refine (cause_decode_dockerconfigjson s).trans ?_
    rw [cause_wrapper_decode_of_written h, hc]
    rfl
  | listed before after =>
    obtain ⟨cause, hc⟩ := soleMembers_of_not_sole hx
    refine ⟨cause, fun {s ms} h => mapError_eq_error.1 ?_⟩
    refine (cause_decode_dockerconfigjson s).trans ?_
    rw [cause_wrapper_decode_of_array h, hc]
    rfl

end Frame

/-- Whether two documents are both refused as a whole, and not in the same place. -/
def Displaced (format : DocumentFormat) (b₁ b₂ : Bytes) : Prop :=
  ∃ e₁ e₂, format.decode b₁ = .error e₁ ∧ format.decode b₂ = .error e₂ ∧ e₁.place ≠ e₂.place

theorem displaced_iff_of_error {format : DocumentFormat} {b₁ b₂ : Bytes} {e₁ e₂ : Json.Error}
    (h₁ : format.decode b₁ = .error e₁) (h₂ : format.decode b₂ = .error e₂) :
    Displaced format b₁ b₂ ↔ e₁.place ≠ e₂.place := by
  refine ⟨fun ⟨e, e', h, h', hne⟩ => ?_, fun hne => ⟨e₁, e₂, h₁, h₂, hne⟩⟩
  rwa [Except.error.inj (h₁.symm.trans h), Except.error.inj (h₂.symm.trans h')]

theorem not_displaced_of_ok {format : DocumentFormat} {b₁ : Bytes} {ms : Members}
    (h : format.decode b₁ = .ok ms) (b₂ : Bytes) : ¬ Displaced format b₁ b₂ := by
  rintro ⟨e₁, -, h₁, -⟩
  cases h.symm.trans h₁

end RegistryAuth
