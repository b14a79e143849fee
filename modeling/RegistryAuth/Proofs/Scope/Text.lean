import RegistryAuth.Proofs.Host
import RegistryAuth.Proofs.NormalForm
import RegistryAuth.Proofs.Text.Blank

/-!
# The text of a scope

The scope that a key names is in normal form (`Settled`, `settled_of_named`). Its text is cut where
it was put together, even if the host looks like the start of a scheme, so all that reading the text
can change is the end of the path: blanks there are taken for blanks around the key
(`parse_text_of_settled`). Main statement: the scope is read back exactly if there are none
(`readBack_iff`).
-/

namespace RegistryAuth.Scope

/-! ## Scopes that a key names -/

/-- Whether a scope is in normal form. -/
structure Settled (s : Scope) : Prop where
  host_ne_empty : s.host ≠ ""
  host_no_slash : '/' ∉ s.host.toList
  host_no_blank : Text.hasBlank s.host = false
  host_normal : Host.normalize s.host = s.host
  path_normal : RepositoryPath.IsNormal s.path
  /-- The path is not that of a version of the interface of Docker Hub. -/
  no_version : ofNormal s.host s.path = s

theorem ofNormal_ofNormal (host path : String) :
    ofNormal (ofNormal host path).host (ofNormal host path).path = ofNormal host path := by
  rw [host_ofNormal]
  by_cases h : host = Host.default ∧ path ∈ versionPaths
  · have hempty : "" ∉ versionPaths := by decide
    have hpath : ofNormal host path = ⟨host, ""⟩ := if_pos h
    rw [hpath, ofNormal, if_neg fun hc => hempty hc.2]
  · have hpath : ofNormal host path = ⟨host, path⟩ := if_neg h
    rw [hpath, ofNormal, if_neg h]

theorem settled_of_named {s : Scope} (h : s.Named) : s.Settled := by
  have hpath := isNormal_path h
  obtain ⟨key, h⟩ := h
  obtain ⟨hne, hblank, rfl⟩ := (parse_eq_ok_iff rfl).1 h
  refine ⟨?_, fun hc => ?_, ?_, ?_, hpath, ofNormal_ofNormal _ _⟩
  · rw [host_ofNormal]
    exact Host.normalize_ne_empty hne
  · rw [host_ofNormal] at hc
    exact Text.not_mem_before '/' _ (Host.mem_of_mem_normalize (by decide) (by decide) hc)
  · rw [host_ofNormal]
    exact Host.hasBlank_normalize hblank
  · rw [host_ofNormal, Host.normalize_normalize]

/-! ## Reading the text -/

section

variable {s : Scope} (h : s.Settled)
include h

/-- A key without two slashes after the host has no scheme, so it is cut as it stands. -/
theorem parse_of_trim (key : String) (hbefore : Text.before '/' (Text.trim key) = s.host)
    (hafter : (Text.after '/' (Text.trim key)).toList.head? ≠ some '/') : parse key =
      .ok (ofNormal s.host (RepositoryPath.normalize (Text.after '/' (Text.trim key)))) := by
  have hstrip : Host.stripScheme (Text.trim key) = Text.trim key :=
    Host.stripScheme_eq_self (.inr hafter)
  rw [parse_eq_ok_iff hstrip, hbefore, h.host_normal]
  exact ⟨h.host_ne_empty, h.host_no_blank, rfl⟩

theorem trim_text_of_ne (hpath : s.path ≠ "") :
    Text.trim s.text = s.host ++ "/" ++ Text.trimEnd s.path := by
  obtain ⟨back, hback, hlast, hs⟩ := Text.exists_trimEnd s.path
  have htext : s.text = "" ++ (s.host ++ "/" ++ Text.trimEnd s.path) ++ back := by
    rw [text, if_neg hpath, String.empty_append]
    simp only [String.append_assoc]
    rw [← hs]
  have hfront : Text.hasBlank (s.host ++ "/") = false := by
    rw [Text.hasBlank_append, h.host_no_blank]
    rfl
  rw [htext]
  exact Text.trim_surrounded (by simp [Text.IsBlankText])
    (Text.IsTrimmed.append hfront (by simp) hlast) (by simp) hback

theorem parse_text_of_settled : parse s.text =
    .ok (ofNormal s.host (RepositoryPath.normalize (Text.trimEnd s.path))) := by
  by_cases hpath : s.path = ""
  · have htext : Text.trim s.text = s.host := by
      rw [text, if_pos hpath]
      exact Text.trim_eq_self (Text.isTrimmed_of_hasBlank h.host_no_blank)
    have hafter : Text.after '/' s.host = "" := Text.after_eq_empty h.host_no_slash
    have hparse := parse_of_trim h s.text
    rw [htext, Text.before_eq_self h.host_no_slash, hafter] at hparse
    rw [hparse rfl (by simp), hpath]
    rfl
  · have htext := trim_text_of_ne h hpath
    have hcut : (s.host ++ "/" ++ Text.trimEnd s.path).toList =
        s.host.toList ++ '/' :: (Text.trimEnd s.path).toList := by simp
    have hparse := parse_of_trim h s.text
    rw [htext, Text.before_eq hcut h.host_no_slash, Text.after_eq hcut h.host_no_slash] at hparse
    refine hparse rfl fun hhead => ?_
    -- the path begins as what is left of it, and a normal path begins with no slash
    obtain ⟨back, -, -, hs⟩ := Text.exists_trimEnd s.path
    have hslash : s.path.toList.head? = some '/' := by
      rw [hs, String.toList_append, List.head?_append, hhead]
      rfl
    rw [← h.path_normal] at hslash
    exact RepositoryPath.head?_ofSegments
      (fun _ => RepositoryPath.isSegment_of_mem_segments) hslash

end

/-- Blanks belong to the segments, so a normal path without those at its end is another one. -/
theorem normalize_trimEnd_eq_iff {path : String} (h : RepositoryPath.IsNormal path) :
    RepositoryPath.normalize (Text.trimEnd path) = path ↔
      ∀ c, path.toList.getLast? = some c → Text.isBlank c = false := by
  refine ⟨fun hp => ?_, fun hlast => by rw [Text.trimEnd_eq_self hlast, h]⟩
  obtain ⟨back, hback, hlast, hs⟩ := Text.exists_trimEnd path
  have hsegs : RepositoryPath.segments (Text.trimEnd path) = RepositoryPath.segments path := by
    rw [← RepositoryPath.normalize_eq_iff, hp, h]
  have hkept := congrArg (List.flatMap String.toList) hsegs
  rw [RepositoryPath.flatMap_segments, RepositoryPath.flatMap_segments] at hkept
  have hnone : back.toList.filter (· ≠ '/') = [] := by
    have hlist := congrArg String.toList hs
    rw [String.toList_append] at hlist
    rw [hlist, List.filter_append] at hkept
    simpa using hkept
  have hempty : back = "" := by
    rw [← String.toList_eq_nil_iff, List.eq_nil_iff_forall_not_mem]
    intro c hc
    have hslash : c = '/' := by simpa using List.filter_eq_nil_iff.1 hnone c hc
    have hblank := hback c hc
    rw [hslash] at hblank
    exact absurd hblank (by decide)
  rw [hempty, String.append_empty] at hs
  rwa [← hs] at hlast

/-- The scope that a key names is read back from its text exactly if its path does not end with a
blank. -/
theorem readBack_iff {key : String} {s : Scope} (hkey : parse key = .ok s) :
    parse s.text = .ok s ↔ ∀ c, s.path.toList.getLast? = some c → Text.isBlank c = false := by
  have h := settled_of_named ⟨key, hkey⟩
  rw [parse_text_of_settled h, Except.ok.injEq, ← normalize_trimEnd_eq_iff h.path_normal]
  refine ⟨fun hs => ?_, fun hp => by rw [hp, h.no_version]⟩
  have hpath := congrArg Scope.path hs
  rw [ofNormal] at hpath
  split at hpath
  · have hempty : s.path = "" := hpath.symm
    rw [hempty]
    decide
  · exact hpath

/-- A host that looks like a scheme is no hindrance, and a blank before the last slash is one. -/
theorem readBack_blank :
    parse "HTTPS://HTTP:/a b//" = .ok ⟨"http:", "a b"⟩ ∧
      parse "http:/a b" = .ok ⟨"http:", "a b"⟩ ∧
      parse "r.io/a /" = .ok ⟨"r.io", "a "⟩ ∧ parse "r.io/a " ≠ .ok ⟨"r.io", "a "⟩ := by
  have hscheme : parse "HTTPS://HTTP:/a b//" = .ok ⟨"http:", "a b"⟩ := by decide
  have hblank : parse "r.io/a /" = .ok ⟨"r.io", "a "⟩ := by decide
  have hlast : ∀ c, "a b".toList.getLast? = some c → Text.isBlank c = false := by
    rintro _ ⟨⟩
    decide
  exact ⟨hscheme, (readBack_iff hscheme).2 hlast, hblank,
    fun h => absurd ((readBack_iff hblank).1 h ' ' rfl) (by decide)⟩

end RegistryAuth.Scope
