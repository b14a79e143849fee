import RegistryAuth.Proofs.Host
import RegistryAuth.Proofs.NormalForm
import RegistryAuth.Proofs.Text.Blank

/-!
# Hosts and paths put together

A path can be given behind the host or apart from it. With a slash and a text behind it a host is
trimmed as before (`trim_append_slash`), it is cut at the same place (`segments_after_append`), and
it keeps its scheme and gets none, unless all of it is the start of one (`stripScheme_append_slash`).
Main statement: moving what follows a slash from the host to the path makes no difference, and this
holds of all hosts but those that begin a scheme (`join_iff`).
-/

namespace RegistryAuth

open Text (lower isBlank)

/-! ## The host -/

namespace Host

/-- The texts that may become a scheme by a slash and what follows it. -/
def schemeStarts : List String := ["https:", "https:/", "http:", "http:/"]

/-- What stands before a slash of a scheme is the start of one. -/
theorem mem_schemeStarts {front : List Char} (tail : List Char)
    (h : String.ofList (front ++ '/' :: tail) ∈ schemes) : String.ofList front ∈ schemeStarts := by
  have hcut : ∀ scheme ∈ schemes, ∀ n < scheme.toList.length, scheme.toList[n]? = some '/' →
      String.ofList (scheme.toList.take n) ∈ schemeStarts := by decide
  have hfront := hcut _ h front.length
  rw [String.toList_ofList, List.length_append, List.length_cons, List.take_left] at hfront
  exact hfront (by omega) (by simp)

theorem stripScheme_append_slash {s : String} (h : lower s ∉ schemeStarts) (x : String) :
    stripScheme (s ++ "/" ++ x) = stripScheme s ++ "/" ++ x := by
  rcases stripScheme_cases s with ⟨scheme, hscheme, hs⟩ | ⟨hnone, hs⟩
  · rw [hs, String.append_assoc, String.append_assoc, stripScheme_append hscheme,
      stripScheme_append hscheme, String.append_assoc]
  · rw [hs]
    refine stripScheme_eq_self_of_forall fun scheme rest hscheme heq => ?_
    have hlist := congrArg String.toList heq
    rw [String.append_assoc, String.toList_append, String.toList_append (s := scheme),
      List.append_eq_append_iff] at hlist
    rcases hlist with ⟨a, hfront, htail⟩ | ⟨a, hfront, -⟩
    · -- the scheme reaches beyond the text, by nothing or by the slash and more
      cases a with
      | nil =>
        rw [List.append_nil, String.toList_inj] at hfront
        exact hnone scheme "" hscheme (by rw [hfront, String.append_empty])
      | cons c a =>
        rw [String.toList_append] at htail
        obtain ⟨rfl, -⟩ : '/' = c ∧ _ := List.cons.inj htail
        refine h (mem_schemeStarts (a.map Char.toLower) ?_)
        have hlower : lower scheme = String.ofList
            (s.toList.map Char.toLower ++ '/' :: a.map Char.toLower) := by
          rw [lower, hfront, List.map_append, List.map_cons]
          rfl
        rwa [hlower] at hscheme
    · refine hnone scheme (String.ofList a) hscheme (String.toList_inj.mp ?_)
      rw [hfront, String.toList_append, String.toList_ofList]

/-- The start of a scheme has a host of its own, and with the rest of the scheme behind it has
none. -/
theorem cut_of_schemeStart {s : String} (h : lower s ∈ schemeStarts) :
    Text.before '/' (stripScheme s) ≠ "" ∧
      ∃ p ∈ ["", "/"], stripScheme (s ++ "/" ++ p) = "" := by
  have hcut : ∀ start ∈ schemeStarts,
      Text.before '/' start ≠ "" ∧ Text.after '/' start = "" ∧
        ∃ p ∈ ["", "/"], start ++ "/" ++ p ∈ schemes ∧ lower p = p := by decide
  obtain ⟨hbefore, hafter, p, hp, hscheme, hlower⟩ := hcut _ h
  rw [Text.before_lower (by decide), ne_eq, Text.lower_eq_empty_iff] at hbefore
  rw [Text.after_lower (by decide), Text.lower_eq_empty_iff] at hafter
  have hself : stripScheme s = s := stripScheme_eq_self (.inr (by simp [hafter]))
  refine ⟨by rwa [hself], p, hp, ?_⟩
  have hslash : lower "/" = "/" := by decide
  have hwhole : lower (s ++ "/" ++ p) ∈ schemes := by
    rwa [Text.lower_append, Text.lower_append, hslash, hlower]
  rw [← String.append_empty (s := s ++ "/" ++ p), stripScheme_append hwhole]

end Host

/-! ## The cuts -/

theorem Text.trim_append_slash {h p : String}
    (hh : ∀ c, h.toList.getLast? = some c → isBlank c = false)
    (hp : ∀ c, p.toList.getLast? = some c → isBlank c = false) :
    trim (h ++ "/" ++ p) = trim h ++ "/" ++ p := by
  have hslash : hasBlank "/" = false := by decide
  rw [String.append_assoc, trim_append_right hh (IsTrimmed.append hslash (by decide) hp),
    String.append_assoc]

theorem Text.before_append_slash (s p : String) : before '/' (s ++ "/" ++ p) = before '/' s := by
  refine before_append_cons (b := p) ?_
  simp

/-- Behind the first slash a text goes on with what is put behind it after another slash. -/
theorem RepositoryPath.segments_after_append (s p : String) :
    segments (Text.after '/' (s ++ "/" ++ p)) = segments (Text.after '/' s) ++ segments p := by
  by_cases hs : '/' ∈ s.toList
  · have hcut : (s ++ "/" ++ p).toList =
        (Text.before '/' s).toList ++ '/' :: (Text.after '/' s ++ "/" ++ p).toList := by
      rw [String.toList_append, String.toList_append, Text.toList_eq_of_mem hs]
      simp
    rw [Text.after_eq hcut (Text.not_mem_before '/' s), segments_slash]
  · have hcut : (s ++ "/" ++ p).toList = s.toList ++ '/' :: p.toList := by simp
    rw [Text.after_eq hcut hs, Text.after_eq_empty hs, segments_empty, List.nil_append]

namespace Target

open RepositoryPath (segments segments_slash segments_empty segments_after_append)

/-! ## Targets -/

theorem ofHostAndPath_congr {host path path' : String} (h : segments path = segments path') :
    ofHostAndPath host path = ofHostAndPath host path' := by
  have hpath : RepositoryPath.normalize
        (Text.after '/' (Host.stripScheme (Text.trim host)) ++ "/" ++ path) =
      RepositoryPath.normalize
        (Text.after '/' (Host.stripScheme (Text.trim host)) ++ "/" ++ path') := by
    rw [RepositoryPath.normalize_eq_iff, segments_slash, segments_slash, h]
  rw [ofHostAndPath_eq rfl, ofHostAndPath_eq rfl, hpath]

theorem ofHostAndPath_append {h p : String}
    (hh : ∀ c, h.toList.getLast? = some c → isBlank c = false)
    (hp : ∀ c, p.toList.getLast? = some c → isBlank c = false)
    (hstart : lower (Text.trim h) ∉ Host.schemeStarts) (q : String) :
    ofHostAndPath (h ++ "/" ++ p) q = ofHostAndPath h (p ++ "/" ++ q) := by
  have hstrip : Host.stripScheme (Text.trim (h ++ "/" ++ p)) =
      Host.stripScheme (Text.trim h) ++ "/" ++ p := by
    rw [Text.trim_append_slash hh hp, Host.stripScheme_append_slash hstart]
  generalize hs : Host.stripScheme (Text.trim h) = s at hstrip
  have hpath : RepositoryPath.normalize (Text.after '/' (s ++ "/" ++ p) ++ "/" ++ q) =
      RepositoryPath.normalize (Text.after '/' s ++ "/" ++ (p ++ "/" ++ q)) := by
    rw [RepositoryPath.normalize_eq_iff, segments_slash, segments_slash, segments_slash,
      segments_after_append, List.append_assoc]
  rw [ofHostAndPath_eq hstrip, ofHostAndPath_eq hs, Text.before_append_slash, hpath]

/-- Without blanks at the end of the host and of what follows its slash, it is the same to give that
behind the host or in front of the path; a whole registry with a slash and a path behind it is the
repository of that path. Only a host that is the start of a scheme, but for case and blanks in
front, is another one before some path. -/
theorem join_iff {h : String} (hh : ∀ c, h.toList.getLast? = some c → isBlank c = false) :
    lower (Text.trim h) ∉ Host.schemeStarts ↔
      ∀ p : String, (∀ c, p.toList.getLast? = some c → isBlank c = false) →
        (∀ q, ofHostAndPath (h ++ "/" ++ p) q = ofHostAndPath h (p ++ "/" ++ q)) ∧
          ofHost (h ++ "/" ++ p) = ofHostAndPath h p := by
  refine ⟨fun hstart p hp => ⟨ofHostAndPath_append hh hp hstart, ?_⟩, fun hjoin hstart => ?_⟩
  · rw [ofHost, ofHostAndPath_append hh hp hstart]
    refine ofHostAndPath_congr ?_
    rw [segments_slash, segments_empty, List.append_nil]
  · obtain ⟨hne, p, hp, hempty⟩ := Host.cut_of_schemeStart hstart
    have hlast : ∀ p ∈ ["", "/"], ∀ c, p.toList.getLast? = some c → isBlank c = false := by
      simp only [List.forall_mem_cons]
      refine ⟨nofun, ?_, List.forall_mem_nil _⟩
      rintro _ ⟨⟩
      decide
    have hhost := congrArg Target.host (hjoin p (hlast p hp)).2
    rw [ofHost, host_ofHostAndPath, host_ofHostAndPath, Text.trim_append_slash hh (hlast p hp),
      hempty] at hhost
    refine Host.normalize_ne_empty hne ?_
    rw [← hhost]
    decide

/-- A host with a scheme and blanks in front, and a host that becomes a scheme. -/
theorem join_scheme :
    ofHostAndPath "\tHTTP://R.io:5000/a b//" "c " = ofHostAndPath "\tHTTP://R.io:5000" "a b///c " ∧
      ofHost "http://" ≠ ofHostAndPath "http:/" "" := by
  have hport : ∀ c, "\tHTTP://R.io:5000".toList.getLast? = some c → isBlank c = false := by
    rintro _ ⟨⟩
    decide
  have hpath : ∀ c, "a b//".toList.getLast? = some c → isBlank c = false := by
    rintro _ ⟨⟩
    decide
  exact ⟨((join_iff hport).1 (by decide) "a b//" hpath).1 "c ", by decide⟩

end Target

end RegistryAuth
