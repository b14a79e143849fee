import Mathlib.Data.List.Forall2
import RegistryAuth.Proofs.Document.Outcome
import RegistryAuth.Proofs.Host
import RegistryAuth.Proofs.NormalForm
import RegistryAuth.Proofs.Text.Blank

/-!
# Spellings of keys and registries

One host and path can be written in many ways: with or without a scheme, in any case, under any
alias of Docker Hub, with more slashes than needed and with blanks around. `Spelling` are these
ways. What a key or a registry written so is read as depends on the host but for case and aliases,
and on the segments of the path (`Spelling.parse_text`, `Spelling.ofHost_text`). Main statement:
when two spellings are the same, and that a document is the same in all spellings of its keys
(`Spelling.parse_text_eq_iff`).
-/

namespace RegistryAuth

open Text (lower)
open RepositoryPath (segments)

/-- A host and a path as they may be written. -/
structure Spelling where
  /-- The blanks in front. -/
  front : String
  scheme : String
  host : String
  /-- What follows the slash after the host, if there is a slash. -/
  tail : Option String
  /-- The blanks at the end. -/
  back : String
  front_blank : Text.IsBlankText front
  back_blank : Text.IsBlankText back
  scheme_known : scheme = "" ∨ lower scheme ∈ Host.schemes
  host_ne_empty : host ≠ ""
  host_no_slash : '/' ∉ host.toList
  host_no_blank : Text.hasBlank host = false
  host_no_scheme : lower host ∉ Host.schemeNames
  tail_end : ∀ path, tail = some path → ∀ c, path.toList.getLast? = some c → Text.isBlank c = false

namespace Spelling

/-- The path, empty if there is no slash. -/
def path (s : Spelling) : String := s.tail.getD ""

/-- The slash and all that follows. -/
def tailText (s : Spelling) : String := (s.tail.map ("/" ++ ·)).getD ""

/-- What is written. -/
def text (s : Spelling) : String :=
  s.front ++ (s.scheme ++ s.host ++ s.tailText) ++ s.back

/-! ## Reading -/

theorem hasBlank_scheme (s : Spelling) : Text.hasBlank s.scheme = false := by
  have hknown : ∀ scheme ∈ Host.schemes, Text.hasBlank scheme = false := by decide
  rcases s.scheme_known with h | h
  · rw [h]
    rfl
  · rw [← Text.hasBlank_lower, hknown _ h]

theorem isTrimmed (s : Spelling) : Text.IsTrimmed (s.scheme ++ s.host ++ s.tailText) := by
  have hblank : Text.hasBlank (s.scheme ++ s.host) = false := by
    rw [Text.hasBlank_append, s.hasBlank_scheme, s.host_no_blank]
    rfl
  have hne : s.scheme ++ s.host ≠ "" := by simp [s.host_ne_empty]
  refine Text.IsTrimmed.append hblank hne fun c hc => ?_
  rw [tailText] at hc
  cases ht : s.tail with
  | none => simp [ht] at hc
  | some path =>
    -- after the slash stands the end of the path, or nothing
    by_cases hp : path = ""
    · have hslash : c = '/' := by simpa [ht, hp, eq_comm] using hc
      rw [hslash]
      decide
    · have hpath : path.toList ≠ [] := by simpa using hp
      refine s.tail_end path ht c ?_
      rw [← hc, ← List.getLast?_append_of_ne_nil "/".toList hpath, ht]
      simp

theorem trim_text (s : Spelling) : Text.trim s.text = s.scheme ++ s.host ++ s.tailText := by
  refine Text.trim_surrounded s.front_blank s.isTrimmed ?_ s.back_blank
  simp [s.host_ne_empty]

theorem cut_text (s : Spelling) : Text.before '/' (s.host ++ s.tailText) = s.host ∧
    Text.after '/' (s.host ++ s.tailText) = s.path := by
  rw [tailText, path]
  cases ht : s.tail with
  | none =>
    rw [Option.map_none, Option.getD_none, String.append_empty]
    exact ⟨Text.before_eq_self s.host_no_slash, Text.after_eq_empty s.host_no_slash⟩
  | some path =>
    have hcut : (s.host ++ ("/" ++ path)).toList = s.host.toList ++ '/' :: path.toList := by simp
    exact ⟨Text.before_eq hcut s.host_no_slash, Text.after_eq hcut s.host_no_slash⟩

theorem stripScheme_text (s : Spelling) :
    Host.stripScheme (Text.trim s.text) = s.host ++ s.tailText := by
  rw [trim_text]
  rcases s.scheme_known with h | h
  · rw [h, String.empty_append]
    refine Host.stripScheme_eq_self (.inl ?_)
    rw [s.cut_text.1]
    exact s.host_no_scheme
  · rw [String.append_assoc, Host.stripScheme_append h]

theorem parse_text (s : Spelling) : Scope.parse s.text =
    .ok (.ofNormal (Host.normalize s.host) (RepositoryPath.normalize s.path)) := by
  rw [Scope.parse_eq_ok_iff s.stripScheme_text, s.cut_text.1, s.cut_text.2]
  exact ⟨s.host_ne_empty, s.host_no_blank, rfl⟩

theorem ofHost_text (s : Spelling) : Target.ofHost s.text =
    .ofNormal (Host.normalize s.host) (RepositoryPath.normalize s.path) := by
  have hpath :
      RepositoryPath.normalize (s.path ++ "/" ++ "") = RepositoryPath.normalize s.path := by
    rw [RepositoryPath.normalize_eq_iff, RepositoryPath.segments_slash,
      RepositoryPath.segments_empty, List.append_nil]
  rw [Target.ofHost, Target.ofHostAndPath_eq s.stripScheme_text, s.cut_text.1, s.cut_text.2, hpath]

/-! ## What counts -/

/-- Whether two hosts are equal but for case, or name Docker Hub both. -/
def SameHost (a b : Spelling) : Prop :=
  lower a.host = lower b.host ∨ Host.isHub a.host = true ∧ Host.isHub b.host = true

/-- Whether two spellings are of one host and path. -/
def Same (a b : Spelling) : Prop := a.SameHost b ∧ segments a.path = segments b.path

/-- Whether the path is empty or that of a version of the interface of Docker Hub. -/
def IsVersion (s : Spelling) : Prop := segments s.path ∈ [[], ["v1"], ["v2"]]

instance (s : Spelling) : Decidable s.IsVersion := inferInstanceAs (Decidable (_ ∈ _))

/-- Whether two spellings are of one scope. -/
def SameScope (a b : Spelling) : Prop :=
  a.Same b ∨ a.SameHost b ∧ Host.isHub a.host = true ∧ a.IsVersion ∧ b.IsVersion

theorem sameHost_iff {a b : Spelling} :
    a.SameHost b ↔ Host.normalize a.host = Host.normalize b.host :=
  Host.normalize_eq_iff.symm

theorem same_iff {a b : Spelling} : a.Same b ↔ Host.normalize a.host = Host.normalize b.host ∧
    RepositoryPath.normalize a.path = RepositoryPath.normalize b.path := by
  rw [Same, sameHost_iff, RepositoryPath.normalize_eq_iff]

theorem isVersion_iff {s : Spelling} :
    s.IsVersion ↔ RepositoryPath.normalize s.path ∈ "" :: Scope.versionPaths := by
  have hnormal {path : String} (h : RepositoryPath.IsNormal path) :
      RepositoryPath.normalize s.path = path ↔ segments s.path = segments path := by
    rw [← RepositoryPath.normalize_eq_iff, h]
  have hv₁ : RepositoryPath.IsNormal "v1" := by decide
  have hv₂ : RepositoryPath.IsNormal "v2" := by decide
  have hs₁ : segments "v1" = ["v1"] := by decide
  have hs₂ : segments "v2" = ["v2"] := by decide
  rw [IsVersion, Scope.versionPaths]
  simp only [List.mem_cons, List.not_mem_nil, or_false, hnormal RepositoryPath.isNormal_empty,
    hnormal hv₁, hnormal hv₂, RepositoryPath.segments_empty, hs₁, hs₂]

theorem sameScope_iff {a b : Spelling} :
    a.SameScope b ↔ Scope.parse a.text = Scope.parse b.text := by
  rw [parse_text, parse_text, Except.ok.injEq, Scope.ofNormal_eq_iff, Host.normalize_eq_default_iff,
    SameScope, same_iff, sameHost_iff, isVersion_iff, isVersion_iff, and_or_left]

theorem ofHost_text_eq_iff {a b : Spelling} :
    Target.ofHost a.text = Target.ofHost b.text ↔ a.Same b := by
  rw [ofHost_text, ofHost_text, Target.ofNormal_eq_iff, same_iff]

end Spelling

/-! ## Documents -/

/-- Whether two entries differ at most in how their key was written. -/
def Entry.Respelled (e e' : Entry) : Prop :=
  e.credential = e'.credential ∧ (e.scope = e'.scope ∨ ∃ a b : Spelling, a.SameScope b ∧
    Scope.parse a.text = .ok e.scope ∧ Scope.parse b.text = .ok e'.scope)

/-- Whether two members of documents differ at most in how their key is written. -/
def Respelled (m m' : String × Json.Value) : Prop :=
  m.2 = m'.2 ∧ (m.1 = m'.1 ∨ ∃ a b : Spelling, a.SameScope b ∧ m.1 = a.text ∧ m'.1 = b.text)

theorem Entry.Respelled.eq {e e' : Entry} (h : e.Respelled e') : e = e' := by
  obtain ⟨hc, h⟩ := h
  have hs : e.scope = e'.scope := by
    rcases h with h | ⟨a, b, hab, ha, hb⟩
    · exact h
    · exact Except.ok.inj (ha.symm.trans ((Spelling.sameScope_iff.1 hab).trans hb))
  cases e
  cases e'
  cases hc
  cases hs
  rfl

/-- Only an error of an entry shows its key. -/
theorem toOption_entryCredential? (key key' : String) (v : Json.Value) :
    (entryCredential? key v).toOption = (entryCredential? key' v).toOption := by
  rw [entryCredential?, entryCredential?]
  cases EntryFields.ofValue v with
  | error e => rfl
  | ok fields =>
    show (fields.credential?.mapError _).toOption = (fields.credential?.mapError _).toOption
    cases fields.credential? <;> rfl

section

variable {m m' : String × Json.Value} (h : Respelled m m')
include h

theorem Respelled.parse_eq : Scope.parse m.1 = Scope.parse m'.1 := by
  rcases h.2 with hkey | ⟨a, b, hab, ha, hb⟩
  · rw [hkey]
  · rw [ha, hb]
    exact Spelling.sameScope_iff.1 hab

theorem Respelled.toOption_eq :
    (entryCredential? m.1 m.2).toOption = (entryCredential? m'.1 m'.2).toOption := by
  rw [h.1]
  exact toOption_entryCredential? m.1 m'.1 m'.2

theorem Respelled.ofMember?_eq : Entry.ofMember? m = Entry.ofMember? m' := by
  rw [Entry.ofMember?, h.parse_eq, h.toOption_eq, Entry.ofMember?]

theorem Respelled.readable_iff : Readable m ↔ Readable m' := by
  have hok (x : Except ReadError (Option Credential)) :
      (∃ credential, x = .ok credential) ↔ x.toOption.isSome = true := by
    cases x <;> simp [Except.toOption]
  rw [Readable, Readable, hok, hok, h.parse_eq, h.toOption_eq]

end

theorem forall_readable_iff {ms ms' : Json.Members} (h : List.Forall₂ Respelled ms ms') :
    (∀ m ∈ ms, Readable m) ↔ ∀ m ∈ ms', Readable m := by
  induction h with
  | nil => exact Iff.rfl
  | cons hm _ ih => rw [List.forall_mem_cons, List.forall_mem_cons, hm.readable_iff, ih]

theorem filterMap_ofMember?_eq {ms ms' : Json.Members} (h : List.Forall₂ Respelled ms ms') :
    ms.filterMap Entry.ofMember? = ms'.filterMap Entry.ofMember? := by
  induction h with
  | nil => rfl
  | cons hm _ ih => rw [List.filterMap_cons, List.filterMap_cons, hm.ofMember?_eq, ih]

theorem value_entriesOf_of_respelled {ms ms' : Json.Members} (h : List.Forall₂ Respelled ms ms')
    (entries : List Entry) :
    (entriesOf ms).run.value = .ok entries ↔ (entriesOf ms').run.value = .ok entries := by
  rw [value_entriesOf_eq_ok, value_entriesOf_eq_ok, forall_readable_iff h, filterMap_ofMember?_eq h]

/-- Every spelling is a key. Two of them are the same scope exactly if their hosts are equal but for
case and aliases and their paths have the same segments, or on Docker Hub are each empty or that of
a version; as registries they are the same target exactly by hosts and segments. So no entry is
found otherwise for another spelling of a key, in a list of entries and in a document. -/
theorem Spelling.parse_text_eq_iff :
    (∀ a b : Spelling, (∃ scope, Scope.parse a.text = .ok scope) ∧
      (Scope.parse a.text = Scope.parse b.text ↔ a.SameScope b) ∧
      (Target.ofHost a.text = Target.ofHost b.text ↔ a.Same b)) ∧
    (∀ es es', List.Forall₂ Entry.Respelled es es' →
      ∀ t, (Source.mk es).credentialFor t = (Source.mk es').credentialFor t) ∧
    ∀ (format format' : DocumentFormat) s s' ms ms', format.decode s = .ok ms →
      format'.decode s' = .ok ms' → List.Forall₂ Respelled ms ms' →
      ∀ source, (Source.parse format s).run.value = .ok source ↔
        (Source.parse format' s').run.value = .ok source := by
  refine ⟨fun a b => ⟨⟨_, a.parse_text⟩, sameScope_iff.symm, ofHost_text_eq_iff⟩,
    fun es es' h t => ?_, fun format format' s s' ms ms' hs hs' h source => ?_⟩
  · have heq : es = es' := List.forall₂_eq_eq_eq ▸ h.imp fun _ _ => Entry.Respelled.eq
    rw [heq]
  · rw [value_parse_of_decode hs, value_parse_of_decode hs', Json.map_eq_ok, Json.map_eq_ok]
    simp only [value_entriesOf_of_respelled h]

namespace Spelling

/-- Docker Hub as the address of its interface. -/
def hubAddress : Spelling where
  front := "\t"
  scheme := "HTTPS://"
  host := "Docker.IO"
  tail := some "/v1/"
  back := " "
  front_blank := by decide
  back_blank := by decide
  scheme_known := by decide
  host_ne_empty := by decide
  host_no_slash := by decide
  host_no_blank := by decide
  host_no_scheme := by decide
  tail_end := by
    rintro _ ⟨⟩ c hc
    rw [← Option.some.inj hc]
    decide

/-- Docker Hub by its name alone. -/
def hubName : Spelling where
  front := ""
  scheme := ""
  host := "index.docker.io"
  tail := none
  back := ""
  front_blank := by decide
  back_blank := by decide
  scheme_known := by decide
  host_ne_empty := by decide
  host_no_slash := by decide
  host_no_blank := by decide
  host_no_scheme := by decide
  tail_end := by rintro _ ⟨⟩

theorem sameScope_hub : hubAddress.SameScope hubName :=
  .inr ⟨.inr ⟨by decide, by decide⟩, by decide, by decide, by decide⟩

theorem parse_text_hub :
    Scope.parse "\tHTTPS://Docker.IO//v1/ " = Scope.parse "index.docker.io" ∧
    ∀ source,
      (Source.parse .dockercfg
        (Text.utf8 "\x7b\"\\tHTTPS://Docker.IO//v1/ \":\x7b\x7d\x7d")).run.value = .ok source ↔
      (Source.parse .dockercfg
        (Text.utf8 "\x7b\"index.docker.io\":\x7b\x7d\x7d")).run.value = .ok source :=
  ⟨(parse_text_eq_iff.1 hubAddress hubName).2.1.2 sameScope_hub,
    parse_text_eq_iff.2.2 .dockercfg .dockercfg _ _ [("\tHTTPS://Docker.IO//v1/ ", .object [])]
      [("index.docker.io", .object [])] (by with_unfolding_all rfl) (by with_unfolding_all rfl)
      (.cons ⟨rfl, .inr ⟨_, _, sameScope_hub, rfl, rfl⟩⟩ .nil)⟩

end Spelling

end RegistryAuth
