import RegistryAuth.Proofs.Target.Components

/-!
# References read as hosts and keys

A reference can also be read as a host with a path after it, and as a key. Each reader cuts the text
in its own way. Of a reference with a host, but with neither digest nor tag, all of them find host
and segments (`parse_eq_ofParts`, `ofHost_eq_ofParts`, `scope_eq_ofNormal`), and only the first puts
the namespace of Docker Hub in front of a lone segment. Main statement: the readers agree but for
lone segments on Docker Hub, and a reference as key covers itself but for most of these
(`readers_agree`).
-/

namespace RegistryAuth.Target

open RepositoryPath (segments IsSegment)
open Text (lower)

/-! ## The cuts -/

/-- Without a digest the components make up all that stands before the slashes at the end. -/
theorem ofSegments_components {trimmed : String} (h : '@' ∉ trimmed.toList) :
    RepositoryPath.ofSegments (components trimmed) =
      Text.dropTrailing '/' (Host.stripScheme trimmed) := by
  have hdigest : '@' ∉ (Text.dropTrailing '/' (Host.stripScheme trimmed)).toList := fun hc =>
    h (Host.mem_of_mem_stripScheme (Text.mem_of_mem_dropTrailing hc))
  rw [components, Text.before_eq_self hdigest, RepositoryPath.ofSegments_split]

theorem exists_stripScheme_append {trimmed host : String} {segs : List String}
    (hat : '@' ∉ trimmed.toList) (h : components trimmed = host :: segs) :
    ∃ rest, Host.stripScheme trimmed = host ++ rest := by
  obtain ⟨tail, -, htail⟩ := Text.exists_dropTrailing '/' (Host.stripScheme trimmed)
  rw [← ofSegments_components hat, h] at htail
  by_cases hsegs : segs = []
  · rw [hsegs, RepositoryPath.ofSegments_singleton] at htail
    exact ⟨tail, htail⟩
  · rw [RepositoryPath.ofSegments_cons host hsegs] at htail
    refine ⟨"/" ++ RepositoryPath.ofSegments segs ++ tail, ?_⟩
    simpa only [String.append_assoc] using htail

/-- The first slash is the one after the host, and the slashes at the end do not show. -/
theorem cut_of_components {trimmed host : String} {segs : List String} (hat : '@' ∉ trimmed.toList)
    (h : components trimmed = host :: segs) (hs : ∀ part ∈ host :: segs, IsSegment part) :
    Text.before '/' (Host.stripScheme trimmed) = host ∧
      segments (Text.after '/' (Host.stripScheme trimmed)) = segs := by
  have hsegments : segments (Host.stripScheme trimmed) = host :: segs := by
    rw [← RepositoryPath.segments_dropTrailing, ← ofSegments_components hat, h,
      RepositoryPath.segments_ofSegments hs]
  have hbefore : Text.before '/' (Host.stripScheme trimmed) ≠ "" := by
    have hhost := hs host List.mem_cons_self
    obtain ⟨rest, hrest⟩ := exists_stripScheme_append hat h
    rw [hrest, Text.before_append hhost.2]
    simp [hhost.1]
  rw [RepositoryPath.segments_eq_cons hbefore, List.cons.injEq] at hsegments
  exact hsegments

/-! ## The readers -/

section

variable {reference host : String} {segs : List String} {t : Target}
  (href : parse reference = .ok t) (hat : '@' ∉ reference.toList)
  (hcomponents : components (Text.trim reference) = host :: segs)
include href hcomponents

theorem isPart_of_components : ∀ part ∈ host :: segs, IsPart part := by
  rw [← hcomponents]
  exact isPart_of_parse href

theorem parse_eq_ofParts (hhost : HasHost (host :: segs))
    (htag : ∀ last, segs.getLast? = some last → ':' ∉ last.toList) :
    t = ofParts (Host.normalize host) (withNamespace host segs) := by
  have hparts := List.forall_mem_cons.1 (isPart_of_components href hcomponents)
  obtain ⟨-, -, -, h⟩ := parse_eq_ok_iff.1 href
  rw [hcomponents] at h
  by_cases hsegs : segs = []
  · rw [hsegs] at hhost h ⊢
    rw [ofComponents_single hhost, Except.ok.injEq, ofHost_of_isPart hparts.1] at h
    rw [← h, withNamespace, if_neg (by simp)]
  · rw [ofComponents_of_hasHost hhost hsegs] at h
    obtain ⟨-, h⟩ := named_eq_ok_iff.1 h
    rw [← h, dropTag_eq_self htag, ofSegments_eq_ofParts host hparts.2 hsegs]

include hat

theorem cut_of_parse : Text.before '/' (Host.stripScheme (Text.trim reference)) = host ∧
    segments (Text.after '/' (Host.stripScheme (Text.trim reference))) = segs :=
  cut_of_components (fun hc => hat (Text.mem_of_mem_trim hc)) hcomponents
    (isSegment_of_isPart (isPart_of_components href hcomponents))

theorem ofHost_eq_ofParts : ofHost reference = ofParts (Host.normalize host) segs := by
  obtain ⟨hbefore, hafter⟩ := cut_of_parse href hat hcomponents
  rw [ofHost, ofHostAndPath_eq rfl, hbefore, RepositoryPath.normalize,
    RepositoryPath.segments_slash, RepositoryPath.segments_empty, List.append_nil, hafter, ofParts]

theorem scope_eq_ofNormal : Scope.parse reference =
    .ok (.ofNormal (Host.normalize host) (RepositoryPath.ofSegments segs)) := by
  obtain ⟨hbefore, hafter⟩ := cut_of_parse href hat hcomponents
  have hpart := isPart_of_components href hcomponents host List.mem_cons_self
  rw [Scope.parse_eq_ok_iff rfl, hbefore, RepositoryPath.normalize, hafter]
  exact ⟨hpart.segment.1, hpart.no_blank, rfl⟩

end

/-! ## Lone segments on Docker Hub -/

theorem withNamespace_eq_self {host : String} {segs : List String}
    (h : ¬ (lower host ∈ Host.hubAliases ∧ segs.length = 1)) : withNamespace host segs = segs := by
  rw [withNamespace, if_neg]
  rwa [Host.normalize_eq_default_iff, Host.isHub_iff]

theorem withNamespace_lone {host : String} (h : lower host ∈ Host.hubAliases) (single : String) :
    withNamespace host [single] = [officialNamespace, single] := by
  rw [withNamespace, if_pos ⟨Host.normalize_of_isHub (Host.isHub_iff.2 h), List.length_singleton⟩]

theorem scope_ofNormal_eq {host : String} {segs : List String}
    (hs : ∀ seg ∈ segs, IsSegment seg)
    (h : ¬ (lower host ∈ Host.hubAliases ∧ segs.length = 1)) :
    Scope.ofNormal (Host.normalize host) (RepositoryPath.ofSegments segs) =
      ⟨Host.normalize host, RepositoryPath.ofSegments segs⟩ := by
  rw [Scope.ofNormal, if_neg]
  rintro ⟨hhost, hpath⟩
  rw [Host.normalize_eq_default_iff, Host.isHub_iff] at hhost
  exact h ⟨hhost, Scope.length_of_mem_versionPaths hs hpath⟩

/-- On Docker Hub a key with a lone segment covers the repository of this name in the official
namespace only if the segment is a version, which the key drops, or the namespace. -/
theorem covers_lone_iff {single : String} (h : IsSegment single) (credential : Credential) :
    Entry.Covers ⟨.ofNormal Host.default single, credential⟩
      (ofParts Host.default [officialNamespace, single]) ↔
      single ∈ officialNamespace :: Scope.versionPaths := by
  have hsegs : ∀ seg ∈ [officialNamespace, single], IsSegment seg :=
    List.forall_mem_cons.2 ⟨isSegment_officialNamespace, List.forall_mem_singleton.2 h⟩
  by_cases hversion : single ∈ Scope.versionPaths
  · rw [Scope.ofNormal, if_pos ⟨rfl, hversion⟩]
    exact iff_of_true (covers_whole (host_ofNormal _ _) credential)
      (List.mem_cons_of_mem _ hversion)
  · have hsingle : RepositoryPath.IsNormal single := by
      rw [RepositoryPath.IsNormal, RepositoryPath.normalize,
        RepositoryPath.segments_of_isSegment h, RepositoryPath.ofSegments_singleton]
    rw [Scope.ofNormal, if_neg (fun hc => hversion hc.2), Entry.Covers, Scope.covers, ofParts,
      host_ofNormal, path_ofNormal, Host.covers_self, Bool.true_and,
      RepositoryPath.liesUnder_iff (RepositoryPath.isNormal_ofSegments hsegs) hsingle,
      RepositoryPath.segments_ofSegments hsegs, RepositoryPath.segments_of_isSegment h]
    simp [hversion]

theorem covers_scope_iff {host : String} {segs : List String} (hs : ∀ seg ∈ segs, IsSegment seg)
    (credential : Credential) :
    Entry.Covers
        ⟨.ofNormal (Host.normalize host) (RepositoryPath.ofSegments segs), credential⟩
        (ofParts (Host.normalize host) (withNamespace host segs)) ↔
      ¬ (lower host ∈ Host.hubAliases ∧
        ∃ single, segs = [single] ∧ single ∉ officialNamespace :: Scope.versionPaths) := by
  by_cases h : lower host ∈ Host.hubAliases ∧ segs.length = 1
  · obtain ⟨hhub, hlength⟩ := h
    obtain ⟨single, rfl⟩ := List.length_eq_one_iff.1 hlength
    have hsingle := hs single List.mem_cons_self
    rw [withNamespace_lone hhub, Host.normalize_of_isHub (Host.isHub_iff.2 hhub),
      RepositoryPath.ofSegments_singleton, covers_lone_iff hsingle]
    simp only [hhub, true_and, List.cons.injEq, and_true, exists_eq_left', not_not]
  · rw [withNamespace_eq_self h, scope_ofNormal_eq hs h]
    refine iff_of_true (covers_ofNormal credential) fun ⟨hhub, single, hsegs, _⟩ => h ⟨hhub, ?_⟩
    rw [hsegs, List.length_singleton]

/-- Of a reference with a host, but with neither digest nor tag, the key and the registry of the
same text have the host and the path of the target, unless the path is a lone segment on Docker Hub.
Then the target is in the official namespace, the registry is not, and the key also drops the name
of a version. As a key the text covers the target unless it is such a lone segment, other than a
version and the namespace itself. -/
theorem readers_agree {reference host : String} {segs : List String} {t : Target}
    (href : parse reference = .ok t) (hat : '@' ∉ reference.toList)
    (hcomponents : components (Text.trim reference) = host :: segs)
    (hhost : HasHost (host :: segs))
    (htag : ∀ last, segs.getLast? = some last → ':' ∉ last.toList) :
    ∃ scope, Scope.parse reference = .ok scope ∧
      t.host = Host.normalize host ∧ (ofHost reference).host = Host.normalize host ∧
      scope.host = Host.normalize host ∧
      (¬ (lower host ∈ Host.hubAliases ∧ segs.length = 1) →
        t.path = RepositoryPath.ofSegments segs ∧ (ofHost reference).path = t.path ∧
          scope.path = t.path) ∧
      (∀ single, lower host ∈ Host.hubAliases → segs = [single] →
        t.path = officialNamespace ++ "/" ++ single ∧ (ofHost reference).path = single ∧
          scope.path = if single ∈ Scope.versionPaths then "" else single) ∧
      ∀ credential, Entry.Covers ⟨scope, credential⟩ t ↔
        ¬ (lower host ∈ Host.hubAliases ∧
          ∃ single, segs = [single] ∧ single ∉ officialNamespace :: Scope.versionPaths) := by
  have hs := List.forall_mem_cons.1 (isSegment_of_isPart (isPart_of_components href hcomponents))
  rw [parse_eq_ofParts href hcomponents hhost htag, ofHost_eq_ofParts href hat hcomponents]
  refine ⟨_, scope_eq_ofNormal href hat hcomponents, host_ofNormal _ _, host_ofNormal _ _,
    Scope.host_ofNormal _ _, fun h => ?_, fun single hhub hsegs => ?_, covers_scope_iff hs.2⟩
  · rw [withNamespace_eq_self h, scope_ofNormal_eq hs.2 h, ofParts, path_ofNormal]
    exact ⟨rfl, rfl, rfl⟩
  · have hhost : Host.normalize host = Host.default :=
      Host.normalize_of_isHub (Host.isHub_iff.2 hhub)
    rw [hsegs, withNamespace_lone hhub, hhost, ofParts, ofParts, path_ofNormal, path_ofNormal,
      RepositoryPath.ofSegments_cons officialNamespace (List.cons_ne_nil _ _),
      RepositoryPath.ofSegments_singleton, Scope.ofNormal]
    simp only [true_and, apply_ite Scope.path, and_self]

/-- A lone segment on Docker Hub, which the key of the same text does not cover. -/
theorem readers_agree_lone :
    parse "HTTP://Docker.io/nginx// " = .ok (.repository Host.default "library/nginx") ∧
      ofHost "HTTP://Docker.io/nginx// " = .repository Host.default "nginx" ∧
      Scope.parse "HTTP://Docker.io/nginx// " = .ok ⟨Host.default, "nginx"⟩ ∧
      ¬ Entry.Covers ⟨⟨Host.default, "nginx"⟩, .bearer "t"⟩
        (.repository Host.default "library/nginx") := by
  have href :
      parse "HTTP://Docker.io/nginx// " = .ok (.repository Host.default "library/nginx") := by decide
  have hcomponents :
      components (Text.trim "HTTP://Docker.io/nginx// ") = ["Docker.io", "nginx"] := by decide
  have htag : ∀ last, ["nginx"].getLast? = some last → ':' ∉ last.toList := by
    rintro _ ⟨⟩
    decide
  have hkey : Scope.parse "HTTP://Docker.io/nginx// " = .ok ⟨Host.default, "nginx"⟩ := by decide
  obtain ⟨scope, hscope, -, -, -, -, -, hcovers⟩ :=
    readers_agree href (by decide) hcomponents (by decide) htag
  rw [hkey, Except.ok.injEq] at hscope
  refine ⟨href, by decide, hkey, fun h => ?_⟩
  rw [hscope] at h
  exact (hcovers _).1 h ⟨by decide, "nginx", rfl, by decide⟩

end RegistryAuth.Target
