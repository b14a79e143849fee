import RegistryAuth.Proofs.Target.Suffix

/-!
# The grammar of references

Every text has a layout as a reference: a scheme, components between slashes, a digest and slashes
at the end, each of which may be missing but the components (`exists_layout`). Its components are the
same in each layout of it (`Layout.components_text`), and what they name is told by `Denotes`. Main
statement: a reference names a target exactly if it holds something and no blanks, no component is
empty, and the components denote the target (`parse_iff_denotes`).
-/

namespace RegistryAuth.Target

open Text (lower)

/-! ## Layouts -/

/-- A way to write a reference without blanks around it. -/
structure Layout where
  scheme : String
  components : List String
  digest : String
  slashes : String
  components_ne_nil : components ≠ []
  no_slash : ∀ part ∈ components, '/' ∉ part.toList
  no_at : ∀ part ∈ components, '@' ∉ part.toList
  /-- A digest begins at the first `@`. -/
  digest_head : digest = "" ∨ digest.toList.head? = some '@'
  /-- All slashes at the end stand behind the digest. -/
  digest_end : (RepositoryPath.ofSegments components ++ digest).toList.getLast? ≠ some '/'
  slashes_only : ∀ c ∈ slashes.toList, c = '/'
  /-- Without a scheme the text does not begin with one. -/
  scheme_known : lower scheme ∈ Host.schemes ∨ scheme = "" ∧ ∀ scheme' rest,
    lower scheme' ∈ Host.schemes →
      RepositoryPath.ofSegments components ++ digest ++ slashes ≠ scheme' ++ rest

namespace Layout

variable (l : Layout)

/-- The text without its scheme. -/
def body : String := RepositoryPath.ofSegments l.components ++ l.digest ++ l.slashes

/-- The text that is laid out. -/
def text : String := l.scheme ++ l.body

theorem stripScheme_text : Host.stripScheme l.text = l.body := by
  rcases l.scheme_known with h | ⟨h, hnone⟩
  · exact Host.stripScheme_append h l.body
  · rw [text, h, String.empty_append]
    exact Host.stripScheme_eq_self_of_forall hnone

theorem before_digest : Text.before '@' (RepositoryPath.ofSegments l.components ++ l.digest) =
    RepositoryPath.ofSegments l.components := by
  have hno : '@' ∉ (RepositoryPath.ofSegments l.components).toList := by
    intro hc
    rcases RepositoryPath.mem_ofSegments hc with hc | ⟨part, hp, hc⟩
    · cases hc
    · exact l.no_at part hp hc
  have hempty : Text.before '@' l.digest = "" := Text.before_eq_empty_iff.2 l.digest_head
  rw [Text.before_append hno, hempty, String.append_empty]

/-- The components are those that are read off the text. -/
theorem components_text : Target.components l.text = l.components := by
  rw [Target.components, stripScheme_text, body, Text.dropTrailing_append_of_last l.digest_end,
    Text.dropTrailing_eq_empty l.slashes_only, String.append_empty, before_digest,
    RepositoryPath.ofSegments, Text.split_join l.components_ne_nil l.no_slash]

end Layout

theorem exists_digest (s : String) : ∃ digest : String,
    (digest = "" ∨ digest.toList.head? = some '@') ∧ s = Text.before '@' s ++ digest := by
  by_cases hat : '@' ∈ s.toList
  · refine ⟨"@" ++ Text.after '@' s, .inr (by simp), String.toList_inj.mp ?_⟩
    simpa using Text.toList_eq_of_mem hat
  · exact ⟨"", .inl rfl, by rw [Text.before_eq_self hat, String.append_empty]⟩

/-- Every text can be laid out. -/
theorem exists_layout (s : String) : ∃ l : Layout, l.text = s := by
  obtain ⟨slashes, hslashes, hbody⟩ := Text.exists_dropTrailing '/' (Host.stripScheme s)
  obtain ⟨digest, hhead, hdigest⟩ := exists_digest (Text.dropTrailing '/' (Host.stripScheme s))
  have hjoin : RepositoryPath.ofSegments (components s) =
      Text.before '@' (Text.dropTrailing '/' (Host.stripScheme s)) := RepositoryPath.ofSegments_split _
  have hlast := Text.getLast?_dropTrailing '/' (Host.stripScheme s)
  rw [← hjoin] at hdigest
  rw [hdigest] at hlast hbody
  obtain ⟨scheme, hs, hscheme⟩ : ∃ scheme, s = scheme ++ Host.stripScheme s ∧
      (lower scheme ∈ Host.schemes ∨ scheme = "" ∧ ∀ scheme' rest,
        lower scheme' ∈ Host.schemes → Host.stripScheme s ≠ scheme' ++ rest) := by
    rcases Host.stripScheme_cases s with ⟨scheme, hknown, hs⟩ | ⟨hnone, hs⟩
    · exact ⟨scheme, hs, .inl hknown⟩
    · exact ⟨"", by rw [hs, String.empty_append], .inr ⟨rfl, by rwa [hs]⟩⟩
  rw [hbody] at hs hscheme
  refine ⟨{
    scheme := scheme
    components := components s
    digest := digest
    slashes := slashes
    components_ne_nil := components_ne_nil s
    no_slash := fun _ => Text.not_mem_of_mem_split
    no_at := fun _ hp hc => Text.not_mem_before '@' _ (Text.mem_of_mem_split hp hc)
    digest_head := hhead
    digest_end := hlast
    slashes_only := hslashes
    scheme_known := hscheme }, ?_⟩
  simp only [Layout.text, Layout.body]
  exact hs.symm

/-! ## What components name -/

/-- Whether a target is the one that components name: a registry if they are a host alone, and else
a repository, on the first of them if that is a host and on Docker Hub if it is none. The last
component goes without its tag, and must not be a tag alone. -/
inductive Denotes : List String → Target → Prop where
  | registry {host : String} (h : HasHost [host]) :
      Denotes [host] (.registry (Host.normalize host))
  | onHost {host : String} {front : List String} {last : String}
      (h : HasHost (host :: (front ++ [last]))) (hlast : last.toList.head? ≠ some ':') :
      Denotes (host :: (front ++ [last])) (.repository (Host.normalize host)
        (RepositoryPath.ofSegments (withNamespace host (front ++ [Text.before ':' last]))))
  | onHub {front : List String} {last : String} (h : ¬ HasHost (front ++ [last]))
      (hlast : last.toList.head? ≠ some ':') :
      Denotes (front ++ [last]) (.repository Host.default
        (RepositoryPath.ofSegments (withNamespace Host.default (front ++ [Text.before ':' last]))))

theorem named_concat_eq_ok_iff {host : String} {front : List String} {last : String} {t : Target}
    (hlast : last ≠ "") : ofComponents.named host (front ++ [last]) = .ok t ↔
      last.toList.head? ≠ some ':' ∧ t = .repository (Host.normalize host)
        (RepositoryPath.ofSegments (withNamespace host (front ++ [Text.before ':' last]))) := by
  have hempty : Text.before ':' last = "" ↔ last.toList.head? = some ':' := by
    rw [Text.before_eq_empty_iff, or_iff_right hlast]
  rw [named_eq_ok_iff, dropTag_concat, List.getLast?_concat, ne_eq, Option.some.injEq, hempty,
    ofSegments_eq, eq_comm (a := t)]

theorem ofComponents_iff_denotes {parts : List String} {t : Target}
    (h : ∀ part ∈ parts, IsPart part) : ofComponents parts = .ok t ↔ Denotes parts t := by
  refine ⟨fun hof => ?_, fun hd => ?_⟩
  · have hne : parts ≠ [] := by
      rintro rfl
      cases hof
    obtain ⟨front, last, rfl⟩ : ∃ front last, parts = front ++ [last] :=
      ⟨_, _, (List.dropLast_append_getLast hne).symm⟩
    have hlast : last ≠ "" := (h last (by simp)).segment.1
    by_cases hhost : HasHost (front ++ [last])
    · cases front with
      | nil =>
        rw [List.nil_append] at h hhost hof ⊢
        rw [ofComponents_single hhost, ofHost_of_isPart (h last List.mem_cons_self)] at hof
        cases hof
        exact .registry hhost
      | cons host front =>
        rw [List.cons_append] at hhost hof ⊢
        rw [ofComponents_of_hasHost hhost (by simp), named_concat_eq_ok_iff hlast] at hof
        obtain ⟨hcolon, rfl⟩ := hof
        exact .onHost hhost hcolon
    · rw [ofComponents_of_not_hasHost hhost hne, named_concat_eq_ok_iff hlast] at hof
      obtain ⟨hcolon, rfl⟩ := hof
      exact .onHub hhost hcolon
  · cases hd with
    | registry hhost =>
      rw [ofComponents_single hhost, ofHost_of_isPart (h _ List.mem_cons_self)]
      rfl
    | @onHost host front last hhost hcolon =>
      rw [ofComponents_of_hasHost hhost (by simp),
        named_concat_eq_ok_iff (h last (by simp)).segment.1]
      exact ⟨hcolon, rfl⟩
    | @onHub front last hhost hcolon =>
      rw [ofComponents_of_not_hasHost hhost (by simp),
        named_concat_eq_ok_iff (h last (by simp)).segment.1]
      exact ⟨hcolon, rfl⟩

theorem exists_denotes_iff {parts : List String} (hne : parts ≠ []) : (∃ t, Denotes parts t) ↔
    (∃ host, parts = [host] ∧ HasHost [host]) ∨
      ∀ last, parts.getLast? = some last → last.toList.head? ≠ some ':' := by
  constructor
  · rintro ⟨t, hd⟩
    cases hd with
    | registry h => exact .inl ⟨_, rfl, h⟩
    | onHost h hlast =>
      right
      rw [← List.cons_append, List.getLast?_concat]
      rintro _ ⟨⟩
      exact hlast
    | onHub h hlast =>
      right
      rw [List.getLast?_concat]
      rintro _ ⟨⟩
      exact hlast
  · obtain ⟨front, last, rfl⟩ : ∃ front last, parts = front ++ [last] :=
      ⟨_, _, (List.dropLast_append_getLast hne).symm⟩
    rintro (⟨host, hparts, hhost⟩ | hcolon)
    · rw [hparts]
      exact ⟨_, .registry hhost⟩
    · have hlast := hcolon last List.getLast?_concat
      by_cases hhost : HasHost (front ++ [last])
      · cases front with
        | nil => exact ⟨_, .registry hhost⟩
        | cons host front => exact ⟨_, .onHost hhost hlast⟩
      · exact ⟨_, .onHub hhost hlast⟩

theorem Denotes.exists_registry_iff {parts : List String} {t : Target} (hd : Denotes parts t) :
    (∃ host, t = .registry host) ↔ ∃ host, parts = [host] ∧ HasHost [host] := by
  cases hd with
  | registry h => exact ⟨fun _ => ⟨_, rfl, h⟩, fun _ => ⟨_, rfl⟩⟩
  | onHost h hlast =>
    refine ⟨nofun, fun ⟨_, hparts, _⟩ => ?_⟩
    simp at hparts
  | onHub h hlast =>
    refine ⟨nofun, fun ⟨_, hparts, hhost⟩ => ?_⟩
    exact absurd (hparts ▸ hhost) h

/-! ## References -/

theorem parse_eq_ok_iff_denotes {reference : String} {t : Target} {l : Layout}
    (hl : l.text = Text.trim reference) : parse reference = .ok t ↔
      (Text.trim reference ≠ "" ∧ Text.hasBlank (Text.trim reference) = false ∧
        "" ∉ l.components) ∧ Denotes l.components t := by
  have hcomponents : components (Text.trim reference) = l.components := by
    rw [← hl, l.components_text]
  rw [parse_eq_ok_iff, hcomponents, and_assoc, and_assoc]
  refine and_congr_right fun _ => and_congr_right fun hblank => and_congr_right fun hempty => ?_
  rw [← hcomponents] at hempty ⊢
  exact ofComponents_iff_denotes fun part => isPart_of_mem_components hblank hempty

/-- What stands between the blanks around a reference has a layout, and the same components in each.
The reference names a target exactly if there is something, no blank and no empty component in it
and its components are a registry or the last of them begins with no colon. The target is then the
one that the components denote, a registry exactly in the first case. Whatever else is wrong is told
as a fault of the reference. -/
theorem parse_iff_denotes (reference : String) :
    ∃ l : Layout, l.text = Text.trim reference ∧
      (∀ l' : Layout, l'.text = Text.trim reference → l'.components = l.components) ∧
      ((∃ t, parse reference = .ok t) ↔
        (Text.trim reference ≠ "" ∧ Text.hasBlank (Text.trim reference) = false ∧
          "" ∉ l.components) ∧
        ((∃ host, l.components = [host] ∧ HasHost [host]) ∨
          ∀ last, l.components.getLast? = some last → last.toList.head? ≠ some ':')) ∧
      (∀ t, parse reference = .ok t → Denotes l.components t ∧
        (∀ t', Denotes l.components t' → t' = t) ∧
        ((∃ host, t = .registry host) ↔ ∃ host, l.components = [host] ∧ HasHost [host])) ∧
      ∀ e, parse reference = .error e → ∃ fault, e = .invalidReference reference fault := by
  obtain ⟨l, hl⟩ := exists_layout (Text.trim reference)
  refine ⟨l, hl, fun l' hl' => ?_, ?_, fun t ht => ?_, fun e he => ?_⟩
  · rw [← l'.components_text, ← l.components_text, hl', hl]
  · simp only [parse_eq_ok_iff_denotes hl]
    rw [exists_and_left, exists_denotes_iff l.components_ne_nil]
  · obtain ⟨hread, hd⟩ := (parse_eq_ok_iff_denotes hl).1 ht
    refine ⟨hd, fun t' hd' => ?_, hd.exists_registry_iff⟩
    have ht' : parse reference = .ok t' := (parse_eq_ok_iff_denotes hl).2 ⟨hread, hd'⟩
    exact Except.ok.inj (ht'.symm.trans ht)
  · rw [parse, mapError_eq_error] at he
    obtain ⟨fault, -, rfl⟩ := he
    exact ⟨fault, rfl⟩

/-- A reference with everything that may be left out, and slashes behind its digest. -/
theorem parse_full_layout :
    let reference := " HTTP://R.io:5000/team/App:1@sha256:0/1// "
    (∃ l : Layout, l.text = Text.trim reference ∧
      l.components = ["R.io:5000", "team", "App:1"] ∧ l.digest = "@sha256:0/1") ∧
    (∃ t, parse reference = .ok t) ∧
    ∀ t, parse reference = .ok t → t = .repository "r.io:5000" "team/App" := by
  intro reference
  let written : Layout :=
    { scheme := "HTTP://"
      components := ["R.io:5000", "team", "App:1"]
      digest := "@sha256:0/1"
      slashes := "//"
      components_ne_nil := by decide
      no_slash := by decide
      no_at := by decide
      digest_head := by decide
      digest_end := by decide
      slashes_only := by simp
      scheme_known := .inl (by decide) }
  have hwritten : written.text = Text.trim reference := by decide
  obtain ⟨l, -, hunique, hiff, hdenotes, -⟩ := parse_iff_denotes reference
  have hcomponents : l.components = ["R.io:5000", "team", "App:1"] := (hunique _ hwritten).symm
  rw [hcomponents] at hiff hdenotes
  refine ⟨⟨written, hwritten, rfl, rfl⟩, hiff.2 ⟨by decide, .inr ?_⟩, fun t ht => ?_⟩
  · rintro _ ⟨⟩
    decide
  · have hnamed := @Denotes.onHost "R.io:5000" ["team"] "App:1" (.inFront (.inl (by decide)))
      (by decide)
    have hhost : Host.normalize "R.io:5000" = "r.io:5000" := by decide
    have hpath : RepositoryPath.ofSegments
        (withNamespace "R.io:5000" (["team"] ++ [Text.before ':' "App:1"])) = "team/App" := by
      decide
    rw [hhost, hpath] at hnamed
    exact ((hdenotes t ht).2.1 _ hnamed).symm

end RegistryAuth.Target
