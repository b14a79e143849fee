import RegistryAuth.Proofs.Host
import RegistryAuth.Proofs.NormalForm
import RegistryAuth.Proofs.Source.Specificity
import RegistryAuth.Proofs.Text.Blank

/-!
# The text of a target

The text of a target that a reference names is itself a reference, a key and a host with a path. All
that is cut off or put in when a reference is read is gone or in place then: `Settled` are the hosts
and segments of which this holds. A reference names a target of such parts (`isSettled_of_parse`),
and every reader takes them as they stand. Main statement: the target is read back from its text in
each way (`readBack_of_parse`).
-/

namespace RegistryAuth

open RepositoryPath (IsSegment)

namespace Target

/-! ## Parts -/

/-- Whether a text can be a part of a reference, the host or a segment. -/
structure IsPart (part : String) : Prop where
  segment : IsSegment part
  no_at : '@' ∉ part.toList
  no_blank : Text.hasBlank part = false

theorem isPart_officialNamespace : IsPart officialNamespace :=
  ⟨isSegment_officialNamespace, by decide, by decide⟩

theorem IsPart.before {part : String} {c : Char} (h : IsPart part) (hne : Text.before c part ≠ "") :
    IsPart (Text.before c part) where
  segment := isSegment_before h.segment hne
  no_at hc := h.no_at (Text.mem_of_mem_before hc)
  no_blank := Text.hasBlank_eq_false_iff.2 fun x hx =>
    Text.hasBlank_eq_false_iff.1 h.no_blank x (Text.mem_of_mem_before hx)

theorem IsPart.normalize {host : String} (h : IsPart host) : IsPart (Host.normalize host) where
  segment := ⟨Host.normalize_ne_empty h.segment.1, fun hc =>
    h.segment.2 (Host.mem_of_mem_normalize (by decide) (by decide) hc)⟩
  no_at hc := h.no_at (Host.mem_of_mem_normalize (by decide) (by decide) hc)
  no_blank := Host.hasBlank_normalize h.no_blank

theorem isPart_of_mem_components {trimmed part : String} (hb : Text.hasBlank trimmed = false)
    (he : "" ∉ components trimmed) (h : part ∈ components trimmed) : IsPart part where
  segment := isSegment_of_mem_components he h
  no_at hc := Text.not_mem_before '@' _ (Text.mem_of_mem_split h hc)
  no_blank := Text.hasBlank_eq_false_iff.2 fun _ hx =>
    Text.hasBlank_eq_false_iff.1 hb _ (Host.mem_of_mem_stripScheme
      (Text.mem_of_mem_dropTrailing (Text.mem_of_mem_before (Text.mem_of_mem_split h hx))))

section

variable {parts : List String} (h : ∀ part ∈ parts, IsPart part)
include h

theorem isSegment_of_isPart : ∀ part ∈ parts, IsSegment part := fun part hp => (h part hp).segment

theorem no_at_ofSegments : '@' ∉ (RepositoryPath.ofSegments parts).toList := by
  intro hc
  rcases RepositoryPath.mem_ofSegments hc with hc | ⟨part, hp, hc⟩
  · cases hc
  · exact (h part hp).no_at hc

theorem no_blank_ofSegments : Text.hasBlank (RepositoryPath.ofSegments parts) = false := by
  rw [Text.hasBlank_eq_false_iff]
  intro c hc
  rcases RepositoryPath.mem_ofSegments hc with rfl | ⟨part, hp, hc⟩
  · decide
  · exact Text.hasBlank_eq_false_iff.1 (h part hp).no_blank c hc

theorem trim_ofSegments :
    Text.trim (RepositoryPath.ofSegments parts) = RepositoryPath.ofSegments parts :=
  Text.trim_eq_self (Text.isTrimmed_of_hasBlank (no_blank_ofSegments h))

theorem stripScheme_ofSegments :
    Host.stripScheme (RepositoryPath.ofSegments parts) = RepositoryPath.ofSegments parts := by
  -- the first part may be `https:`, so what rules a scheme out is that no two slashes are together
  refine Host.stripScheme_eq_self (.inr ?_)
  cases parts with
  | nil => simp [RepositoryPath.ofSegments_nil, Text.after]
  | cons part parts =>
    have hs := isSegment_of_isPart h
    rw [List.forall_mem_cons] at hs
    rw [RepositoryPath.after_ofSegments hs.1]
    exact RepositoryPath.head?_ofSegments hs.2

/-- The parts of a reference come back from their text. -/
theorem components_ofSegments (hne : parts ≠ []) :
    components (RepositoryPath.ofSegments parts) = parts := by
  have hs := isSegment_of_isPart h
  rw [components, stripScheme_ofSegments h,
    Text.dropTrailing_eq_self (RepositoryPath.getLast?_ofSegments hs),
    Text.before_eq_self (no_at_ofSegments h), RepositoryPath.ofSegments,
    Text.split_join hne fun part hp => (hs part hp).2]

end

/-! ## Settled hosts and segments -/

/-- Whether nothing of a host and segments is changed when they are read from their text. -/
structure Settled (host : String) (segs : List String) : Prop where
  parts : ∀ part ∈ host :: segs, IsPart part
  normal : Host.normalize host = host
  /-- A lone host is not taken for an image. -/
  alone : segs = [] → namesRegistry host = true
  /-- A host is not taken for a segment. -/
  inFront : segs ≠ [] → looksLikeHost host = true
  /-- No tag is left. -/
  untagged : dropTag segs = segs
  /-- The namespace is there, and so the path is not that of a version. -/
  inNamespace : host = Host.default → segs.length ≠ 1

/-- The target of settled parts. -/
def ofParts (host : String) (segs : List String) : Target :=
  ofNormal host (RepositoryPath.ofSegments segs)

theorem text_ofParts {host : String} {segs : List String} (h : Settled host segs) :
    (ofParts host segs).text = RepositoryPath.ofSegments (host :: segs) := by
  have hs := isSegment_of_isPart (List.forall_mem_cons.1 h.parts).2
  by_cases hsegs : segs = []
  · rw [hsegs, RepositoryPath.ofSegments_singleton]
    rfl
  · rw [RepositoryPath.ofSegments_cons host hsegs, ofParts, ofNormal,
      if_neg (RepositoryPath.ofSegments_ne_empty hs hsegs)]
    rfl

theorem ofHostAndPath_ofSegments {host : String} (h : IsPart host) {segs : List String}
    (hs : ∀ seg ∈ segs, IsSegment seg) :
    ofHostAndPath host (RepositoryPath.ofSegments segs) = ofParts (Host.normalize host) segs := by
  have hhost : ∀ part ∈ [host], IsPart part := List.forall_mem_singleton.2 h
  have hstrip : Host.stripScheme (Text.trim (RepositoryPath.ofSegments [host])) =
      RepositoryPath.ofSegments [host] := by
    rw [trim_ofSegments hhost, stripScheme_ofSegments hhost]
  rw [RepositoryPath.ofSegments_singleton] at hstrip
  have hnormal : RepositoryPath.normalize ("" ++ "/" ++ RepositoryPath.ofSegments segs) =
      RepositoryPath.ofSegments segs := by
    rw [RepositoryPath.normalize, RepositoryPath.segments_slash, RepositoryPath.segments_empty,
      List.nil_append, RepositoryPath.segments_ofSegments hs]
  rw [ofHostAndPath_eq hstrip, Text.before_eq_self h.segment.2, Text.after_eq_empty h.segment.2,
    hnormal, ofParts]

section

variable {host : String} {segs : List String} (h : Settled host segs)
include h

theorem ofSegments_of_settled (hne : segs ≠ []) : ofSegments host segs = ofParts host segs := by
  have hs := isSegment_of_isPart (List.forall_mem_cons.1 h.parts).2
  rw [ofSegments, h.normal, ofParts, ofNormal, if_neg (RepositoryPath.ofSegments_ne_empty hs hne),
    if_neg fun hc => h.inNamespace hc.1 hc.2]

theorem ofHostAndPath_of_settled :
    ofHostAndPath host (RepositoryPath.ofSegments segs) = ofParts host segs := by
  have hparts := List.forall_mem_cons.1 h.parts
  rw [ofHostAndPath_ofSegments hparts.1 (isSegment_of_isPart hparts.2), h.normal]

theorem ofComponents_of_settled : ofComponents (host :: segs) = .ok (ofParts host segs) := by
  match segs, h with
  | [], h =>
    rw [ofComponents, if_pos (h.alone rfl), ofHost, ← RepositoryPath.ofSegments_nil,
      ofHostAndPath_of_settled h]
  | seg :: segs, h =>
    have hne : (seg :: segs) ≠ [] := List.cons_ne_nil seg segs
    have hs := (List.forall_mem_cons.1 h.parts).2
    have hlast : (dropTag (seg :: segs)).getLast? ≠ some "" := by
      rw [h.untagged]
      exact fun hc => (hs "" (List.mem_of_getLast? hc)).segment.1 rfl
    rw [ofComponents, if_pos (h.inFront hne), named_eq_ok_iff.2 ⟨hlast, rfl⟩, h.untagged,
      ofSegments_of_settled h hne]

theorem parse_of_settled : parse (ofParts host segs).text = .ok (ofParts host segs) := by
  have hne : host :: segs ≠ [] := List.cons_ne_nil host segs
  have hs := isSegment_of_isPart h.parts
  rw [parse_eq_ok_iff, text_ofParts h, trim_ofSegments h.parts, components_ofSegments h.parts hne]
  exact ⟨RepositoryPath.ofSegments_ne_empty hs hne, no_blank_ofSegments h.parts,
    fun hc => (hs "" hc).1 rfl, ofComponents_of_settled h⟩

theorem scope_of_settled :
    Scope.parse (ofParts host segs).text = .ok ⟨host, RepositoryPath.ofSegments segs⟩ := by
  have hs := List.forall_mem_cons.1 (isSegment_of_isPart h.parts)
  have hnormal := RepositoryPath.isNormal_ofSegments hs.2
  have hversion : ¬ (host = Host.default ∧ RepositoryPath.ofSegments segs ∈ Scope.versionPaths) :=
    fun ⟨hhost, hpath⟩ => h.inNamespace hhost (Scope.length_of_mem_versionPaths hs.2 hpath)
  have hstripped : Host.stripScheme (Text.trim (RepositoryPath.ofSegments (host :: segs))) =
      RepositoryPath.ofSegments (host :: segs) := by
    rw [trim_ofSegments h.parts, stripScheme_ofSegments h.parts]
  rw [text_ofParts h, Scope.parse_eq_ok_iff hstripped, RepositoryPath.before_ofSegments hs.1,
    RepositoryPath.after_ofSegments hs.1, h.normal, hnormal, Scope.ofNormal, if_neg hversion]
  exact ⟨hs.1.1, (h.parts host List.mem_cons_self).no_blank, rfl⟩

end

/-! ## What a reference names -/

theorem looksLikeHost_iff {component : String} : looksLikeHost component = true ↔
    '.' ∈ component.toList ∨ ':' ∈ component.toList ∨ component = "localhost" := by
  simp [looksLikeHost, or_assoc]

theorem namesRegistry_iff {component : String} : namesRegistry component = true ↔
    '.' ∈ (Text.before ':' component).toList ∨ Text.before ':' component = "localhost" := by
  simp [namesRegistry]

theorem looksLikeHost_normalize {component : String} (h : looksLikeHost component = true) :
    looksLikeHost (Host.normalize component) = true := by
  refine Host.normalize_cases (P := fun s => looksLikeHost s = true) (by decide) ?_
  rw [looksLikeHost_iff] at h ⊢
  rw [Text.mem_lower_iff (by decide), Text.mem_lower_iff (by decide)]
  exact h.imp_right (.imp_right fun h => by rw [h]; decide)

theorem namesRegistry_normalize {component : String} (h : namesRegistry component = true) :
    namesRegistry (Host.normalize component) = true := by
  refine Host.normalize_cases (P := fun s => namesRegistry s = true) (by decide) ?_
  rw [namesRegistry_iff] at h ⊢
  rw [Text.before_lower (by decide), Text.mem_lower_iff (by decide)]
  exact h.imp_right fun h => by rw [h]; decide

theorem dropTag_cons (segment : String) {more : List String} (h : more ≠ []) :
    dropTag (segment :: more) = segment :: dropTag more := by
  cases more with
  | nil => exact absurd rfl h
  | cons next more => rfl

theorem dropTag_eq_self {components : List String}
    (h : ∀ last, components.getLast? = some last → ':' ∉ last.toList) :
    dropTag components = components := by
  fun_induction dropTag components with
  | case1 => rfl
  | case2 last => rw [Text.before_eq_self (h last rfl)]
  | case3 segment more hne ih =>
    rw [ih fun last hl => h last (by rwa [List.getLast?_cons_of_ne_nil hne])]

theorem dropTag_dropTag (components : List String) :
    dropTag (dropTag components) = dropTag components := by
  fun_induction dropTag components with
  | case1 => rfl
  | case2 last => rw [dropTag, Text.before_eq_self (Text.not_mem_before ':' last)]
  | case3 segment more hne ih => rw [dropTag_cons segment (dropTag_ne_nil hne), ih]

/-- Segments with the namespace of Docker Hub in front where it is left out. -/
def withNamespace (host : String) (segs : List String) : List String :=
  if Host.normalize host = Host.default ∧ segs.length = 1 then officialNamespace :: segs else segs

theorem ofSegments_eq (host : String) (segs : List String) : ofSegments host segs =
    .repository (Host.normalize host) (RepositoryPath.ofSegments (withNamespace host segs)) :=
  rfl

theorem dropTag_withNamespace (host : String) {segs : List String} (hne : segs ≠ [])
    (h : dropTag segs = segs) : dropTag (withNamespace host segs) = withNamespace host segs := by
  unfold withNamespace
  split
  · rw [dropTag_cons _ hne, h]
  · exact h

theorem length_withNamespace {host : String} {segs : List String}
    (hhost : Host.normalize host = Host.default) : (withNamespace host segs).length ≠ 1 := by
  unfold withNamespace
  split
  · next h => simp [h.2]
  · next h => exact fun hl => h ⟨hhost, hl⟩

theorem isPart_of_mem_withNamespace (host : String) {segs : List String}
    (h : ∀ part ∈ segs, IsPart part) : ∀ part ∈ withNamespace host segs, IsPart part := by
  unfold withNamespace
  split
  · exact List.forall_mem_cons.2 ⟨isPart_officialNamespace, h⟩
  · exact h

theorem withNamespace_ne_nil (host : String) {segs : List String} (h : segs ≠ []) :
    withNamespace host segs ≠ [] := by
  unfold withNamespace
  split
  · exact List.cons_ne_nil _ _
  · exact h

theorem ofSegments_eq_ofParts (host : String) {segs : List String} (h : ∀ part ∈ segs, IsPart part)
    (hne : segs ≠ []) :
    ofSegments host segs = ofParts (Host.normalize host) (withNamespace host segs) := by
  have hs := isSegment_of_isPart (isPart_of_mem_withNamespace host h)
  rw [ofSegments_eq, ofParts, ofNormal,
    if_neg (RepositoryPath.ofSegments_ne_empty hs (withNamespace_ne_nil host hne))]

theorem ofHost_of_isPart {host : String} (h : IsPart host) :
    ofHost host = ofParts (Host.normalize host) [] := by
  rw [ofHost, ← RepositoryPath.ofSegments_nil, ofHostAndPath_ofSegments h (List.forall_mem_nil _)]

/-- Whether a target is of settled host and segments. -/
def IsSettled (t : Target) : Prop := ∃ host segs, Settled host segs ∧ t = ofParts host segs

theorem isSettled_ofSegments {host : String} {segs : List String}
    (hparts : ∀ part ∈ host :: segs, IsPart part) (hlook : looksLikeHost host = true)
    (hne : segs ≠ []) (hdrop : dropTag segs = segs) : (ofSegments host segs).IsSettled := by
  rw [List.forall_mem_cons] at hparts
  have hsegs := isPart_of_mem_withNamespace host hparts.2
  have hnil := withNamespace_ne_nil host hne
  refine ⟨Host.normalize host, withNamespace host segs,
    { parts := List.forall_mem_cons.2 ⟨hparts.1.normalize, hsegs⟩
      normal := Host.normalize_normalize host
      alone := fun h => absurd h hnil
      inFront := fun _ => looksLikeHost_normalize hlook
      untagged := dropTag_withNamespace host hne hdrop
      inNamespace := length_withNamespace }, ?_⟩
  exact ofSegments_eq_ofParts host hparts.2 hne

theorem isSettled_of_named {host : String} {components : List String} {t : Target}
    (h : ofComponents.named host components = .ok t)
    (hparts : ∀ part ∈ host :: components, IsPart part) (hlook : looksLikeHost host = true)
    (hne : components ≠ []) : t.IsSettled := by
  rw [List.forall_mem_cons] at hparts
  obtain ⟨hlast, rfl⟩ := named_eq_ok_iff.1 h
  have hsegs := forall_mem_dropTag IsPart.before hparts.2 hlast
  exact isSettled_ofSegments (List.forall_mem_cons.2 ⟨hparts.1, hsegs⟩) hlook (dropTag_ne_nil hne)
    (dropTag_dropTag components)

theorem isSettled_ofHost {host : String} (hpart : IsPart host) (h : namesRegistry host = true) :
    (ofHost host).IsSettled := by
  refine ⟨Host.normalize host, [],
    { parts := List.forall_mem_singleton.2 hpart.normalize
      normal := Host.normalize_normalize host
      alone := fun _ => namesRegistry_normalize h
      inFront := fun hne => absurd rfl hne
      untagged := rfl
      inNamespace := fun _ => by decide }, ?_⟩
  exact ofHost_of_isPart hpart

theorem isPart_default : IsPart Host.default := ⟨⟨by decide, by decide⟩, by decide, by decide⟩

theorem isSettled_of_components {components : List String} {t : Target}
    (h : ofComponents components = .ok t) (hparts : ∀ part ∈ components, IsPart part) :
    t.IsSettled := by
  rcases ofComponents_cases h with
    ⟨single, rfl, hr, rfl⟩ | ⟨host, segs, hne, hnamed, ⟨rfl, hlook⟩ | ⟨rfl, rfl⟩⟩
  · exact isSettled_ofHost (hparts single List.mem_cons_self) hr
  · exact isSettled_of_named hnamed hparts hlook hne
  · have hlook : looksLikeHost Host.default = true := by decide
    exact isSettled_of_named hnamed (List.forall_mem_cons.2 ⟨isPart_default, hparts⟩) hlook hne

theorem isPart_of_parse {reference : String} {t : Target} (h : parse reference = .ok t) :
    ∀ part ∈ components (Text.trim reference), IsPart part := by
  obtain ⟨-, hb, he, -⟩ := parse_eq_ok_iff.1 h
  exact fun part => isPart_of_mem_components hb he

theorem isSettled_of_parse {reference : String} {t : Target} (h : parse reference = .ok t) :
    t.IsSettled := by
  obtain ⟨-, -, -, hcomponents⟩ := parse_eq_ok_iff.1 h
  exact isSettled_of_components hcomponents (isPart_of_parse h)

theorem covers_ofNormal {host path : String} (credential : Credential) :
    Entry.Covers ⟨⟨host, path⟩, credential⟩ (ofNormal host path) := by
  rw [Entry.Covers, Scope.covers, host_ofNormal, path_ofNormal, Host.covers_self]
  simp [RepositoryPath.liesUnder]

/-- An entry for a whole registry covers every target on it. -/
theorem covers_whole {host : String} {t : Target} (h : t.host = host) (credential : Credential) :
    Entry.Covers ⟨⟨host, ""⟩, credential⟩ t := by
  rw [Entry.Covers, Scope.covers, h, Host.covers_self]
  simp [RepositoryPath.liesUnder]

/-- A target that a reference names is read back from its text as a reference, and from its host and
path. The text is also a key, of a scope with the host and path of the target, which takes it in
even if the host is a pattern. -/
theorem readBack_of_parse {reference : String} {t : Target} (h : parse reference = .ok t) :
    parse t.text = .ok t ∧ ofHostAndPath t.host t.path = t ∧
      Scope.parse t.text = .ok ⟨t.host, t.path⟩ ∧
      ∀ credential, Entry.Covers ⟨⟨t.host, t.path⟩, credential⟩ t := by
  obtain ⟨host, segs, hs, rfl⟩ := isSettled_of_parse h
  have hhost : (ofParts host segs).host = host := host_ofNormal _ _
  have hpath : (ofParts host segs).path = RepositoryPath.ofSegments segs := path_ofNormal _ _
  rw [hhost, hpath]
  exact ⟨parse_of_settled hs, ofHostAndPath_of_settled hs, scope_of_settled hs, covers_ofNormal⟩

/-- A host that is a pattern, out of a reference with all that is cut off. -/
theorem readBack_pattern :
    parse "*.r.io:5000/a/b" = .ok (.repository "*.r.io:5000" "a/b") ∧
      Scope.parse "*.r.io:5000/a/b" = .ok ⟨"*.r.io:5000", "a/b"⟩ ∧
      Entry.Covers ⟨⟨"*.r.io:5000", "a/b"⟩, .bearer "t"⟩ (.repository "*.r.io:5000" "a/b") := by
  have h : parse "HTTP://*.R.io:5000/a/b:tag@sha256:0" = .ok (.repository "*.r.io:5000" "a/b") := by
    decide
  obtain ⟨hparse, -, hscope, hcovers⟩ := readBack_of_parse h
  exact ⟨hparse, hscope, hcovers _⟩

end Target

end RegistryAuth
