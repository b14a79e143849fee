import RegistryAuth.Proofs.Scope.Text
import RegistryAuth.Proofs.Target.Text

/-!
# Normal form by its clauses

Elsewhere a host or path is in normal form if making its normal form leaves it as it is. Here the
same is said without the functions that make it: what a host (`Host.IsCanonical`) and what a path
(`RepositoryPath.IsCanonical`) must not hold. Whatever is left as it is meets the clauses
(`Host.isCanonical_of_normalize`, `RepositoryPath.isCanonical_of_isNormal`). Main statement: every
target that is made and every scope that a key names meets them, and what besides holds of those
that are read from a text (`canonical_forms`).
-/

namespace RegistryAuth

/-! ## Hosts -/

/-- Whether a host has the form in which hosts are compared. -/
structure Host.IsCanonical (host : String) : Prop where
  no_slash : '/' ∉ host.toList
  no_capital : ∀ c ∈ host.toList, c.isUpper = false
  /-- Docker Hub goes by one of its names only. -/
  one_hub : Text.lower host ∈ hubAliases → host = default

theorem Text.isUpper_toLower (c : Char) : c.toLower.isUpper = false := by
  have hiff (x : Char) : x.isUpper = true ↔ 65 ≤ x.toNat ∧ x.toNat ≤ 90 := by
    delta Char.isUpper
    simp only [ge_iff_le, UInt32.le_iff_toNat_le, decide_eq_true_eq]
    rfl
  rw [← Bool.not_eq_true, hiff, toNat_toLower]
  grind

namespace Host

theorem isUpper_of_mem_normalize {host : String} : ∀ c ∈ (normalize host).toList,
    c.isUpper = false := by
  have hlower (s : String) : ∀ c ∈ (Text.lower s).toList, c.isUpper = false := by
    rw [Text.toList_lower]
    exact List.forall_mem_map.2 fun c _ => Text.isUpper_toLower c
  have hdefault : Text.lower default = default := by decide
  exact normalize_cases (P := fun s => ∀ c ∈ s.toList, c.isUpper = false)
    (hdefault ▸ hlower default) (hlower host)

theorem isCanonical_of_normalize {host : String} (hslash : '/' ∉ host.toList)
    (h : normalize host = host) : IsCanonical host where
  no_slash := hslash
  no_capital := h ▸ isUpper_of_mem_normalize
  one_hub hhub := by rw [← h, normalize_of_isHub (isHub_iff.2 hhub)]

end Host

/-! ## Paths -/

/-- Whether a path has the form in which paths are compared: between its slashes, and before the
first and behind the last one, stands something. -/
structure RepositoryPath.IsCanonical (path : String) : Prop where
  no_empty : path ≠ "" → "" ∉ Text.split '/' path
  not_leading : path.toList.head? ≠ some '/'
  not_trailing : path.toList.getLast? ≠ some '/'
  not_doubled : ¬ ['/', '/'] <:+: path.toList

namespace RepositoryPath

/-- Nothing stands between two slashes next to each other. -/
theorem empty_mem_split {path : String} (h : ['/', '/'] <:+: path.toList) :
    "" ∈ Text.split '/' path := by
  obtain ⟨front, tail, hpath⟩ := h
  have hfirst : path.toList =
      (String.ofList front).toList ++ '/' :: (String.ofList ('/' :: tail)).toList := by
    simp [← hpath]
  have hsecond : (String.ofList ('/' :: tail)).toList =
      "".toList ++ '/' :: (String.ofList tail).toList := by simp
  have hempty : Text.split '/' "" = [""] := Text.split_eq_singleton (by decide)
  rw [Text.split_append_cons hfirst, Text.split_append_cons hsecond, hempty]
  simp

theorem isCanonical_of_isNormal {path : String} (h : IsNormal path) : IsCanonical path := by
  have hsegments : ∀ s ∈ segments path, IsSegment s := fun _ => isSegment_of_mem_segments
  have hpath : ofSegments (segments path) = path := h
  have hempty : path ≠ "" → "" ∉ Text.split '/' path := by
    intro hne
    have hsegs : segments path ≠ [] := fun hnil => hne (by rw [← hpath, hnil, ofSegments_nil])
    rw [← hpath, ofSegments, Text.split_join hsegs fun s hs => (hsegments s hs).2]
    exact fun hmem => (hsegments "" hmem).1 rfl
  refine ⟨hempty, ?_, ?_, fun hinfix => ?_⟩
  · rw [← hpath]
    exact head?_ofSegments hsegments
  · rw [← hpath]
    exact getLast?_ofSegments hsegments
  · refine hempty (fun hnil => ?_) (empty_mem_split hinfix)
    rw [hnil] at hinfix
    simp at hinfix

end RepositoryPath

/-! ## Targets and scopes -/

namespace Target

theorem isCanonical_ofHostAndPath (host path : String) :
    Host.IsCanonical (ofHostAndPath host path).host := by
  rw [host_ofHostAndPath]
  refine Host.isCanonical_of_normalize (fun hc => ?_) (Host.normalize_normalize _)
  exact Text.not_mem_before '/' _ (Host.mem_of_mem_normalize (by decide) (by decide) hc)

theorem Settled.isCanonical_host {host : String} {segs : List String} (h : Settled host segs) :
    Host.IsCanonical host :=
  Host.isCanonical_of_normalize (h.parts host List.mem_cons_self).segment.2 h.normal

theorem Made.isCanonical_host {t : Target} (h : Made t) : Host.IsCanonical t.host := by
  induction h with
  | parsed h =>
    obtain ⟨host, segs, hs, rfl⟩ := isSettled_of_parse h
    rw [ofParts, host_ofNormal]
    exact hs.isCanonical_host
  | ofHost host => exact isCanonical_ofHostAndPath host ""
  | ofHostAndPath host path => exact isCanonical_ofHostAndPath host path
  | toRegistry _ ih => exact ih

/-- Whatever makes a target makes a registry of an empty path. -/
theorem Made.exists_ofNormal {t : Target} (h : Made t) : ∃ host path, t = ofNormal host path := by
  cases h with
  | parsed h =>
    obtain ⟨host, segs, -, rfl⟩ := isSettled_of_parse h
    exact ⟨_, _, rfl⟩
  | ofHost host => exact ⟨_, _, ofHostAndPath_eq rfl ""⟩
  | ofHostAndPath host path => exact ⟨_, _, ofHostAndPath_eq rfl path⟩
  | @toRegistry t h => exact ⟨t.host, "", (if_pos rfl).symm⟩

theorem path_ne_empty_of_made {host path : String} (h : Made (.repository host path)) :
    path ≠ "" := by
  obtain ⟨host', path', h⟩ := h.exists_ofNormal
  rw [ofNormal] at h
  split at h
  · cases h
  · next hne =>
    cases h
    exact hne

theorem Settled.two_le_length {segs : List String} (h : Settled Host.default segs) {path : String}
    (hpath : ofParts Host.default segs = .repository Host.default path) :
    2 ≤ (RepositoryPath.segments path).length := by
  have hs := (List.forall_mem_cons.1 (isSegment_of_isPart h.parts)).2
  obtain rfl : RepositoryPath.ofSegments segs = path := by
    rw [← path_ofNormal Host.default (RepositoryPath.ofSegments segs), ← ofParts, hpath,
      Target.path]
  have hone := h.inNamespace rfl
  rw [RepositoryPath.segments_ofSegments hs]
  have hne : segs.length ≠ 0 := by
    intro hnil
    rw [List.length_eq_zero_iff] at hnil
    subst hnil
    cases hpath
  omega

end Target

theorem Scope.Settled.no_versionPath {s : Scope} (h : s.Settled) (hhost : s.host = Host.default) :
    s.path ∉ versionPaths := by
  intro hpath
  have hnone : "" ∉ versionPaths := by decide
  have hempty := h.no_version
  rw [ofNormal, if_pos ⟨hhost, hpath⟩] at hempty
  rw [← hempty] at hpath
  exact hnone hpath

/-- Every target, however it is made, has host and path in canonical form, and a repository has a
path. One that a reference names has a host, without blanks like its path, and on Docker Hub a
repository has two segments at least. Every scope that a key names has a host, without blanks, and
host and path in canonical form, and on Docker Hub its path is not that of a version. -/
theorem canonical_forms :
    (∀ t, Target.Made t → Host.IsCanonical t.host ∧ RepositoryPath.IsCanonical t.path ∧
      ∀ host path, t = .repository host path → path ≠ "") ∧
    (∀ reference t, Target.parse reference = .ok t →
      t.host ≠ "" ∧ Text.hasBlank t.host = false ∧ Text.hasBlank t.path = false ∧
      ∀ path, t = .repository Host.default path → 2 ≤ (RepositoryPath.segments path).length) ∧
    ∀ key s, Scope.parse key = .ok s →
      Host.IsCanonical s.host ∧ RepositoryPath.IsCanonical s.path ∧
      s.host ≠ "" ∧ Text.hasBlank s.host = false ∧
      (s.host = Host.default → s.path ∉ Scope.versionPaths) := by
  refine ⟨fun t h => ⟨h.isCanonical_host, ?_, ?_⟩, fun reference t h => ?_, fun key s h => ?_⟩
  · exact RepositoryPath.isCanonical_of_isNormal (Target.isNormal_path h)
  · rintro host path rfl
    exact Target.path_ne_empty_of_made h
  · obtain ⟨host, segs, hs, rfl⟩ := Target.isSettled_of_parse h
    have hparts := List.forall_mem_cons.1 hs.parts
    rw [Target.ofParts, Target.host_ofNormal, Target.path_ofNormal]
    refine ⟨hparts.1.segment.1, hparts.1.no_blank, Target.no_blank_ofSegments hparts.2,
      fun path hpath => ?_⟩
    obtain rfl : host = Host.default := by
      rw [← Target.host_ofNormal host (RepositoryPath.ofSegments segs), hpath, Target.host]
    exact hs.two_le_length hpath
  · have hs := Scope.settled_of_named ⟨key, h⟩
    exact ⟨Host.isCanonical_of_normalize hs.host_no_slash hs.host_normal,
      RepositoryPath.isCanonical_of_isNormal hs.path_normal, hs.host_ne_empty, hs.host_no_blank,
      hs.no_versionPath⟩

/-- Docker Hub by three of its names: the registry of a repository, an image and a key. -/
theorem canonical_hub :
    Host.IsCanonical (Target.ofHostAndPath " HTTP://Docker.IO//a" "/b/").toRegistry.host ∧
      2 ≤ (RepositoryPath.segments "library/nginx").length ∧
      RepositoryPath.IsCanonical "v1/v2" := by
  have hparse : Target.parse "Registry-1.Docker.io/nginx:1@x//" =
      .ok (.repository Host.default "library/nginx") := by decide +kernel
  have hkey : Scope.parse "HTTPS://Index.docker.io//v1/v2/" = .ok ⟨Host.default, "v1/v2"⟩ := by
    decide +kernel
  exact ⟨(canonical_forms.1 _ (.toRegistry (.ofHostAndPath _ _))).1,
    (canonical_forms.2.1 _ _ hparse).2.2.2 _ rfl, (canonical_forms.2.2 _ _ hkey).2.1⟩

end RegistryAuth
