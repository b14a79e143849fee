import RegistryAuth.Proofs.Cluster.Resolution
import RegistryAuth.Proofs.Document.Refusal

/-!
# What the log tells of a password

The events of a keychain that is built from secrets or from documents are those of each of them in
order, so two logs for one document in two versions are equal exactly if its own events are.
Main statement: which passwords show there (`shown_eq_iff`).
-/

namespace RegistryAuth

open Json

/-- What of an event is written to the log. -/
def Event.shown (e : Event) : Level × String × List (String × String) :=
  (e.level, e.message, e.fields)

/-! ## Documents -/

/-- What parsing a document shows: how many entries there are, or the error, and the events. -/
def summary (format : DocumentFormat) (s : Bytes) : Logged (Except ReadError Nat) :=
  ⟨(Source.parse format s).run.value.map (·.entries.length), (Source.parse format s).run.events⟩

theorem summary_of_decode {format : DocumentFormat} {s : Bytes} {ms : Members}
    (h : format.decode s = .ok ms) : summary format s = outline ms := by
  rw [summary, run_parse_of_decode h, outline]
  cases (entriesOf ms).run.value <;> rfl

theorem summary_of_decode_error {format : DocumentFormat} {s : Bytes} {e : Json.Error}
    (h : format.decode s = .error e) :
    summary format s = ⟨.error (.malformedConfig (.undecodable e)), []⟩ := by
  rw [summary, Source.parse, DocumentFormat.entries, DocumentFormat.members, h]
  rfl

theorem summary_of_opens {x : Frame} (hx : x.Opens) {b : Bytes} {ms : Members}
    (h : x.Holds b ms) : summary x.format b = outline ms :=
  summary_of_decode (Frame.decode_of_opens hx h)

theorem exists_source_iff (format : DocumentFormat) (s : Bytes) :
    (∃ source, (Source.parse format s).run.value = .ok source) ↔
      ∃ entries, (summary format s).value = .ok entries := by
  simp only [summary, map_eq_ok]
  refine ⟨fun ⟨source, h⟩ => ?_, fun ⟨_, source, h, _⟩ => ?_⟩
  · exact ⟨_, source, h, rfl⟩
  · exact ⟨source, h⟩

/-- Whether a message tells two passwords apart: reading comes to them, they are neither texts nor
`null`, and a message calls them by different words. -/
structure Exposed (x : Frame) (spot : Spot) (p₁ p₂ : Value) : Prop where
  opens : x.Opens
  reached : spot.Reached
  not_field : ¬ IsField p₁
  words : p₁.found.text ≠ p₂.found.text

/-- The error for a password of the wrong type. -/
def passwordError (key : String) (p : Value) : ReadError :=
  .malformedConfig (.entryType key (.invalidType p.found .text))

theorem message_passwordError (key : String) (p : Value) : (passwordError key p).message =
    "malformed credential config: " ++ ("entry " ++ Text.quoted key ++ ": " ++
      ("invalid type: " ++ p.found.text ++ ", expected " ++ "a string")) :=
  rfl

theorem message_passwordError_inj {key : String} {p₁ p₂ : Value} :
    (passwordError key p₁).message = (passwordError key p₂).message ↔
      p₁.found.text = p₂.found.text := by
  rw [message_passwordError, message_passwordError]
  simp only [String.append_right_inj, String.append_left_inj]

theorem not_field_of_sameType {p₁ p₂ : Value} (hs : SameType p₁ p₂) (hf : ¬ IsField p₁) :
    ¬ IsField p₂ := by
  rintro (rfl | ⟨text, rfl⟩)
  · cases p₁ with
    | null => exact hf (.inl rfl)
    | bool | number | string | array | object => cases hs
  · cases p₁ with
    | string text' => exact hf (.inr ⟨text', rfl⟩)
    | null | bool | number | array | object => cases hs

theorem message_undecodable (e : Json.Error) :
    (ReadError.malformedConfig (.undecodable e)).message =
      "malformed credential config: " ++ ("failed to parse document: " ++ e.message) :=
  rfl

/-- Documents in which the entries are not found show where they are refused, and no more. -/
theorem summary_of_not_opens {x : Frame} (hx : ¬ x.Opens) {b₁ b₂ : Bytes} {ms₁ ms₂ : Members}
    (h₁ : x.Holds b₁ ms₁) (h₂ : x.Holds b₂ ms₂) :
    ∃ e₁ e₂ : ReadError, summary x.format b₁ = ⟨.error e₁, []⟩ ∧
      summary x.format b₂ = ⟨.error e₂, []⟩ ∧
      (e₁.message = e₂.message ↔ ¬ Displaced x.format b₁ b₂) := by
  obtain ⟨cause, he⟩ := Frame.decode_of_not_opens hx
  obtain ⟨e₁, he₁, hc₁⟩ := he h₁
  obtain ⟨e₂, he₂, hc₂⟩ := he h₂
  refine ⟨_, _, summary_of_decode_error he₁, summary_of_decode_error he₂, ?_⟩
  rw [message_undecodable, message_undecodable, String.append_right_inj, String.append_right_inj,
    message_eq_iff (hc₁.trans hc₂.symm), displaced_iff_of_error he₁ he₂, ne_eq, not_not]

/-- Two documents that differ in one password either show the same, or an error each that differs
exactly if the passwords are exposed or the documents displaced. -/
theorem summary_cases {x : Frame} {spot : Spot} {p₁ p₂ : Value} {b₁ b₂ : Bytes}
    (hs : SameType p₁ p₂) (h₁ : x.Holds b₁ (spot.fill p₁)) (h₂ : x.Holds b₂ (spot.fill p₂)) :
    ((¬ Exposed x spot p₁ p₂ ∧ ¬ Displaced x.format b₁ b₂) ∧
        summary x.format b₁ = summary x.format b₂) ∨
      ∃ events e₁ e₂, summary x.format b₁ = ⟨.error e₁, events⟩ ∧
        summary x.format b₂ = ⟨.error e₂, events⟩ ∧
        (e₁.message = e₂.message ↔ ¬ Exposed x spot p₁ p₂ ∧ ¬ Displaced x.format b₁ b₂) := by
  by_cases ho : x.Opens
  swap
  · obtain ⟨e₁, e₂, hb₁, hb₂, h⟩ := summary_of_not_opens ho h₁ h₂
    exact .inr ⟨[], e₁, e₂, hb₁, hb₂, h.trans (iff_and_self.2 fun _ he => ho he.opens)⟩
  have hd := not_displaced_of_ok (Frame.decode_of_opens ho h₁) b₂
  rw [summary_of_opens ho h₁, summary_of_opens ho h₂]
  by_cases hf : IsField p₁
  · exact .inl ⟨⟨fun he => he.not_field hf, hd⟩, outline_fill_of_field spot hs hf⟩
  by_cases hr : spot.Reached
  swap
  · exact .inl ⟨⟨fun he => hr he.reached, hd⟩, outline_fill_of_not_reached hr p₁ p₂⟩
  refine .inr ⟨(outline spot.entriesBefore).events, passwordError spot.key p₁,
    passwordError spot.key p₂, outline_fill_of_reached hr hf,
    outline_fill_of_reached hr (not_field_of_sameType hs hf), ?_⟩
  rw [message_passwordError_inj, and_iff_left hd]
  exact ⟨fun h he => he.words h, fun h => Classical.byContradiction fun hw => h ⟨ho, hr, hf, hw⟩⟩

/-! ## Logs -/

/-- The events of a document that is added to a keychain, from what parsing it shows. -/
def told (loaded : Nat → Event) (skipped : ReadError → Event)
    (r : Logged (Except ReadError Nat)) : List Event :=
  r.events ++ [match r.value with
    | .ok entries => loaded entries
    | .error error => skipped error]

theorem events_add_document (k : Keychain) (label : String) (format : DocumentFormat)
    (content : Bytes) : (k.add (.document label format content)).events =
      told (.sourceLoaded label) (.sourceSkipped label) (summary format content) := by
  rw [Keychain.add, Logged.events_bind, told, summary]
  cases (Source.parse format content).run.value <;> rfl

theorem events_addSecret {s : PullSecret} {format : DocumentFormat} {content : Bytes}
    (h : s.document? = some (format, content)) (k : Keychain) : (k.addSecret s).events =
      told (.secretLoaded s.name) (fun e => .secretMalformed s.name (.unreadable e))
        (summary format content) := by
  rw [Keychain.events_addSecret_concat, Keychain.outcome, told, summary,
    PullSecret.value_source? h, PullSecret.events_source? h]
  cases (Source.parse format content).run.value <;> rfl

theorem map_shown_told_iff {loaded : Nat → Event} {skipped : ReadError → Event}
    (hskip : ∀ e e', (skipped e).shown = (skipped e').shown ↔ e.message = e'.message)
    {x : Frame} {spot : Spot} {p₁ p₂ : Value} {b₁ b₂ : Bytes} (hs : SameType p₁ p₂)
    (h₁ : x.Holds b₁ (spot.fill p₁)) (h₂ : x.Holds b₂ (spot.fill p₂)) :
    (told loaded skipped (summary x.format b₁)).map Event.shown =
        (told loaded skipped (summary x.format b₂)).map Event.shown ↔
      ¬ Exposed x spot p₁ p₂ ∧ ¬ Displaced x.format b₁ b₂ := by
  rcases summary_cases hs h₁ h₂ with ⟨hn, h⟩ | ⟨events, e₁, e₂, hb₁, hb₂, h⟩
  · rw [h]
    exact ⟨fun _ => hn, fun _ => rfl⟩
  · rw [hb₁, hb₂, ← h, ← hskip]
    simp [told]

/-- Where the events of a step do not depend on what came before, two runs that differ in one step
have the same log exactly if the step has. -/
theorem map_shown_foldlM_iff {α β : Type} {f : β → α → Logged β}
    (h : ∀ b b' a, (f b a).events = (f b' a).events) (b : β) (xs : List α) (a a' : α)
    (ys : List α) :
    ((xs ++ a :: ys).foldlM f b).events.map Event.shown =
        ((xs ++ a' :: ys).foldlM f b).events.map Event.shown ↔
      (f b a).events.map Event.shown = (f b a').events.map Event.shown := by
  have htold : ∀ c x, (f c x).events = (fun x => (f b x).events) x := fun c x => h c b x
  rw [Logged.events_foldlM htold, Logged.events_foldlM htold]
  simp only [List.flatMap_append, List.flatMap_cons, List.map_append, List.append_right_inj,
    List.append_left_inj]

theorem events_addSecret_eq (k k' : Keychain) (s : PullSecret) :
    (k.addSecret s).events = (k'.addSecret s).events := by
  rw [Keychain.events_addSecret_concat, Keychain.events_addSecret_concat]

theorem events_add_eq (k k' : Keychain) (step : Keychain.Step) :
    (k.add step).events = (k'.add step).events := by
  cases step with
  | document label format content => rw [events_add_document, events_add_document]
  | source source => rfl
  | fallback access => rfl

/-- The logs of two documents that are alike but for one password, of the same JSON type in both,
are the same unless the passwords are exposed or the documents displaced: for secrets that hold the
documents among other ones, and for the documents as a step among other ones. Either both documents
are read or none is. Documents of one line that go on alike behind the entries, and are refused
there, are displaced exactly if they differ in length. -/
theorem shown_eq_iff (x : Frame) (spot : Spot) (p₁ p₂ : Value) (hs : SameType p₁ p₂)
    (b₁ b₂ : Bytes) (h₁ : x.Holds b₁ (spot.fill p₁)) (h₂ : x.Holds b₂ (spot.fill p₂)) :
    ((∃ source, (Source.parse x.format b₁).run.value = .ok source) ↔
      ∃ source, (Source.parse x.format b₂).run.value = .ok source) ∧
    (∀ (xs ys : List PullSecret) (s₁ s₂ : PullSecret), s₁.name = s₂.name →
      s₁.document? = some (x.format, b₁) → s₂.document? = some (x.format, b₂) →
      ((Keychain.ofSecrets (xs ++ s₁ :: ys)).events.map Event.shown =
          (Keychain.ofSecrets (xs ++ s₂ :: ys)).events.map Event.shown ↔
        ¬ Exposed x spot p₁ p₂ ∧ ¬ Displaced x.format b₁ b₂)) ∧
    (∀ (steps steps' : List Keychain.Step) (label : String),
      (Keychain.build (steps ++ .document label x.format b₁ :: steps')).events.map Event.shown =
          (Keychain.build (steps ++ .document label x.format b₂ :: steps')).events.map
            Event.shown ↔
        ¬ Exposed x spot p₁ p₂ ∧ ¬ Displaced x.format b₁ b₂) ∧
    ∀ rest, ¬ x.Opens → x.Passed b₁ rest → x.Passed b₂ rest → newline ∉ b₁ → newline ∉ b₂ →
      (Displaced x.format b₁ b₂ ↔ b₁.length ≠ b₂.length) := by
  refine ⟨?_, fun xs ys s₁ s₂ hn hd₁ hd₂ => ?_, fun steps steps' label => ?_,
    fun rest hx hr₁ hr₂ hl₁ hl₂ => displaced_iff_length_ne hx hr₁ hr₂ hl₁ hl₂⟩
  · rw [exists_source_iff, exists_source_iff]
    rcases summary_cases hs h₁ h₂ with ⟨-, h⟩ | ⟨events, e₁, e₂, hb₁, hb₂, -⟩
    · rw [h]
    · simp [hb₁, hb₂]
  · rw [Keychain.ofSecrets, Keychain.ofSecrets, map_shown_foldlM_iff events_addSecret_eq,
      events_addSecret hd₁, events_addSecret hd₂, hn]
    refine map_shown_told_iff (fun e e' => ?_) hs h₁ h₂
    have hmessage (e : ReadError) : (ClusterError.unreadable e).message =
        "Keychain error: " ++ e.message := rfl
    simp [Event.shown, Event.level, Event.message, Event.fields, hmessage,
      String.append_right_inj]
  · rw [Keychain.build, Keychain.build, map_shown_foldlM_iff events_add_eq, events_add_document,
      events_add_document]
    refine map_shown_told_iff (fun e e' => ?_) hs h₁ h₂
    simp [Event.shown, Event.level, Event.message, Event.fields]

/-- The text of a bare document with a digit as the only password. -/
def digitDocument (digit : String) : Bytes :=
  Text.utf8 ("\x7b\"r.io\":\x7b\"password\":" ++ digit ++ "\x7d\x7d")

/-- The place of the password in it. -/
def digitSpot : Spot := ⟨[], "r.io", [], [], []⟩

/-- Different digits show in the error for the entry, and texts of different length in the place
where a document is refused behind them. -/
theorem shown_digits_and_lengths :
    (Frame.bare.Holds (digitDocument "1") (digitSpot.fill (.number (.natural 1))) ∧
      Frame.bare.Holds (digitDocument "2") (digitSpot.fill (.number (.natural 2))) ∧
      SameType (.number (.natural 1)) (.number (.natural 2)) ∧
      Exposed .bare digitSpot (.number (.natural 1)) (.number (.natural 2)) ∧
      (Keychain.build [.document "a" .dockercfg (digitDocument "1")]).events.map Event.shown ≠
        (Keychain.build [.document "a" .dockercfg (digitDocument "2")]).events.map
          Event.shown) ∧
    repeatedFrame.Holds (repeatedDocument "a") (digitSpot.fill (.string "a")) ∧
      repeatedFrame.Holds (repeatedDocument "aaaaaaaaaa")
        (digitSpot.fill (.string "aaaaaaaaaa")) ∧
      SameType (.string "a") (.string "aaaaaaaaaa") ∧
      Displaced .dockerconfigjson (repeatedDocument "a") (repeatedDocument "aaaaaaaaaa") ∧
      (Keychain.build [.document "a" .dockerconfigjson (repeatedDocument "a")]).events.map
          Event.shown ≠
        (Keychain.build [.document "a" .dockerconfigjson
          (repeatedDocument "aaaaaaaaaa")]).events.map Event.shown := by
  have hdigit₁ : Frame.bare.Holds (digitDocument "1") (digitSpot.fill (.number (.natural 1))) := by
    show Json.decode _ = _
    with_unfolding_all rfl
  have hdigit₂ : Frame.bare.Holds (digitDocument "2") (digitSpot.fill (.number (.natural 2))) := by
    show Json.decode _ = _
    with_unfolding_all rfl
  have hdigits : SameType (.number (.natural 1)) (.number (.natural 2)) := trivial
  have hexposed : Exposed .bare digitSpot (.number (.natural 1)) (.number (.natural 2)) := by
    refine ⟨trivial, ⟨nofun, ⟨⟨"r.io", ""⟩, by decide⟩, nofun⟩, ?_, by decide⟩
    rintro (h | ⟨text, h⟩) <;> cases h
  have hshort : repeatedFrame.Holds (repeatedDocument "a") (digitSpot.fill (.string "a")) := by
    show Json.written _ = _
    with_unfolding_all rfl
  have hlong : repeatedFrame.Holds (repeatedDocument "aaaaaaaaaa")
      (digitSpot.fill (.string "aaaaaaaaaa")) := by
    show Json.written _ = _
    with_unfolding_all rfl
  have htexts : SameType (.string "a") (.string "aaaaaaaaaa") := trivial
  obtain ⟨-, -, hshown, hlength⟩ := shown_eq_iff repeatedFrame digitSpot _ _ htexts _ _ hshort hlong
  have hdisplaced : Displaced .dockerconfigjson (repeatedDocument "a")
      (repeatedDocument "aaaaaaaaaa") := by
    have hopens : ¬ repeatedFrame.Opens := fun h => h.2 List.mem_cons_self
    refine (hlength repetition hopens ?_ ?_ (by decide) (by decide)).mpr (by decide)
    · exact passed_repeatedDocument "a" (by decide)
    · exact passed_repeatedDocument "aaaaaaaaaa" (by decide)
  refine ⟨⟨hdigit₁, hdigit₂, hdigits, hexposed, fun h => ?_⟩, hshort, hlong, htexts, hdisplaced,
    fun h => ((hshown [] [] "a").mp h).2 hdisplaced⟩
  obtain ⟨-, -, hshown, -⟩ := shown_eq_iff .bare digitSpot _ _ hdigits _ _ hdigit₁ hdigit₂
  exact ((hshown [] [] "a").mp h).1 hexposed

/-- A password that is a number is in the log. -/
theorem shown_digits_ne :
    Json.decode (digitDocument "1") = .ok (.object (digitSpot.fill (.number (.natural 1)))) ∧
      Json.decode (digitDocument "2") = .ok (.object (digitSpot.fill (.number (.natural 2)))) ∧
      (Keychain.build [.document "a" .dockercfg (digitDocument "1")]).events.map Event.shown ≠
        (Keychain.build [.document "a" .dockercfg (digitDocument "2")]).events.map Event.shown ∧
      (Keychain.ofSecrets [.ofDocument "a" "a" .dockercfg (digitDocument "1")]).events.map
          Event.shown ≠
        (Keychain.ofSecrets [.ofDocument "a" "a" .dockercfg (digitDocument "2")]).events.map
          Event.shown := by
  refine ⟨by with_unfolding_all rfl, by with_unfolding_all rfl, ?_, ?_⟩ <;> decide +kernel

end RegistryAuth
