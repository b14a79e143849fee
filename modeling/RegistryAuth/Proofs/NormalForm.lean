import RegistryAuth.Proofs.Logged
import RegistryAuth.Proofs.RepositoryPath.Segments
import RegistryAuth.Scope
import RegistryAuth.Target

/-!
# Normal form

Scopes and targets compare by their host and path as texts, so whatever makes one has to give it in
normal form: `Scope.isNormal_path` for every scope that a key names, and `Target.isNormal_path` for
every target that is made (`Target.Made`). What a key and a reference have to be to name one is said
by `Scope.parse_eq_ok_iff` and `Target.parse_eq_ok_iff`.
-/

namespace RegistryAuth

open RepositoryPath (IsSegment IsNormal isNormal_normalize isNormal_empty isNormal_ofSegments)

/-! ## Scopes -/

/-- Whether a key names the scope. -/
def Scope.Named (s : Scope) : Prop := ∃ key, Scope.parse key = .ok s

theorem Scope.host_ofNormal (host path : String) : (Scope.ofNormal host path).host = host := by
  rw [Scope.ofNormal]
  split <;> rfl

theorem Scope.isNormal_path_ofNormal (host : String) {path : String} (h : IsNormal path) :
    IsNormal (Scope.ofNormal host path).path := by
  unfold Scope.ofNormal
  split
  · exact isNormal_empty
  · exact h

/-- On Docker Hub the paths of versions and the empty path are one. -/
theorem Scope.ofNormal_eq_iff {host host' path path' : String} :
    Scope.ofNormal host path = Scope.ofNormal host' path' ↔ host = host' ∧
      (path = path' ∨ host = Host.default ∧ path ∈ "" :: Scope.versionPaths ∧
        path' ∈ "" :: Scope.versionPaths) := by
  unfold Scope.ofNormal
  split <;> split <;> grind

/-- The path of a version is a lone segment. -/
theorem Scope.length_of_mem_versionPaths {segs : List String} (h : ∀ seg ∈ segs, IsSegment seg)
    (hpath : RepositoryPath.ofSegments segs ∈ versionPaths) : segs.length = 1 := by
  have hlength : ∀ path ∈ versionPaths, (RepositoryPath.segments path).length = 1 := by decide
  rw [← RepositoryPath.segments_ofSegments h]
  exact hlength _ hpath

/-- A key names a scope exactly if it has a host, without blanks. -/
theorem Scope.parse_eq_ok_iff {key stripped : String}
    (hstripped : Host.stripScheme (Text.trim key) = stripped) {s : Scope} :
    Scope.parse key = .ok s ↔
      Text.before '/' stripped ≠ "" ∧ Text.hasBlank (Text.before '/' stripped) = false ∧
        ofNormal (Host.normalize (Text.before '/' stripped))
          (RepositoryPath.normalize (Text.after '/' stripped)) = s := by
  simp only [Scope.parse, hstripped]
  split
  · next h => simp [h]
  split
  · next hb => simp [hb]
  · next hne hb => simp [hne, hb]

theorem Scope.isNormal_path {s : Scope} (h : s.Named) : IsNormal s.path := by
  obtain ⟨key, h⟩ := h
  obtain ⟨-, -, rfl⟩ := (Scope.parse_eq_ok_iff rfl).1 h
  exact isNormal_path_ofNormal _ (isNormal_normalize _)

/-! ## Targets -/

namespace Target

/-- The targets that are made from texts. -/
inductive Made : Target → Prop where
  | parsed {reference : String} {t : Target} (h : parse reference = .ok t) : Made t
  | ofHost (host : String) : Made (ofHost host)
  | ofHostAndPath (host path : String) : Made (ofHostAndPath host path)
  | toRegistry {t : Target} (h : Made t) : Made t.toRegistry

/-- The target of a host and path in normal form. -/
def ofNormal (host path : String) : Target :=
  if path = "" then .registry host else .repository host path

@[simp] theorem host_ofNormal (host path : String) : (ofNormal host path).host = host := by
  rw [ofNormal]
  split <;> rfl

@[simp] theorem path_ofNormal (host path : String) : (ofNormal host path).path = path := by
  rw [ofNormal]
  split
  · next h => exact h.symm
  · rfl

theorem ofNormal_eq_iff {host host' path path' : String} :
    ofNormal host path = ofNormal host' path' ↔ host = host' ∧ path = path' := by
  refine ⟨fun h => ⟨?_, ?_⟩, fun ⟨hh, hp⟩ => by rw [hh, hp]⟩
  · rw [← host_ofNormal host path, h, host_ofNormal]
  · rw [← path_ofNormal host path, h, path_ofNormal]

theorem ofHostAndPath_eq {host stripped : String} (h : Host.stripScheme (Text.trim host) = stripped)
    (path : String) : ofHostAndPath host path =
      ofNormal (Host.normalize (Text.before '/' stripped))
        (RepositoryPath.normalize (Text.after '/' stripped ++ "/" ++ path)) := by
  rw [← h]
  rfl

theorem host_ofHostAndPath (host path : String) : (ofHostAndPath host path).host =
    Host.normalize (Text.before '/' (Host.stripScheme (Text.trim host))) := by
  rw [ofHostAndPath_eq rfl, host_ofNormal]

theorem isNormal_path_ofHostAndPath (host path : String) :
    IsNormal (ofHostAndPath host path).path := by
  simp only [ofHostAndPath]
  split
  · exact isNormal_empty
  · exact isNormal_normalize _

theorem isSegment_before {s : String} {c : Char} (h : IsSegment s) (hne : Text.before c s ≠ "") :
    IsSegment (Text.before c s) := by
  refine ⟨hne, fun hm => h.2 ?_⟩
  rw [Text.before, String.toList_ofList] at hm
  exact (List.takeWhile_subset _) hm

theorem dropTag_ne_nil {components : List String} (h : components ≠ []) :
    dropTag components ≠ [] := by
  unfold dropTag
  split <;> simp_all

/-- What holds of all components and is kept by cutting them short holds without the tag. -/
theorem forall_mem_dropTag {P : String → Prop}
    (hcut : ∀ {s}, P s → Text.before ':' s ≠ "" → P (Text.before ':' s)) {components : List String}
    (h : ∀ s ∈ components, P s) (hl : (dropTag components).getLast? ≠ some "") :
    ∀ s ∈ dropTag components, P s := by
  fun_induction dropTag components with
  | case1 => exact List.forall_mem_nil P
  | case2 last =>
    rw [List.forall_mem_singleton] at h ⊢
    exact hcut h (by simpa using hl)
  | case3 segment more hne ih =>
    rw [List.forall_mem_cons] at h ⊢
    refine ⟨h.1, ih h.2 ?_⟩
    rwa [List.getLast?_cons_of_ne_nil (dropTag_ne_nil hne)] at hl

theorem isSegment_officialNamespace : IsSegment officialNamespace := ⟨by decide, by decide⟩

theorem isNormal_path_ofSegments (host : String) {segments : List String}
    (h : ∀ s ∈ segments, IsSegment s) : IsNormal (ofSegments host segments).path := by
  refine isNormal_ofSegments ?_
  split
  · simp only [List.mem_cons, forall_eq_or_imp]
    exact ⟨isSegment_officialNamespace, h⟩
  · exact h

theorem named_eq_ok_iff {host : String} {components : List String} {t : Target} :
    ofComponents.named host components = .ok t ↔
      (dropTag components).getLast? ≠ some "" ∧ ofSegments host (dropTag components) = t := by
  simp only [ofComponents.named]
  split
  · next h => simp [h]
  · next h => simp [h]

/-- A reference names a registry, a repository on its first component, or one on Docker Hub. -/
theorem ofComponents_cases {components : List String} {t : Target}
    (h : ofComponents components = .ok t) :
    (∃ single, components = [single] ∧ namesRegistry single = true ∧ ofHost single = t) ∨
      ∃ host segs, segs ≠ [] ∧ ofComponents.named host segs = .ok t ∧
        (components = host :: segs ∧ looksLikeHost host = true ∨
          components = segs ∧ host = Host.default) := by
  unfold ofComponents at h
  split at h
  · next single =>
    split at h
    · next hr => exact .inl ⟨single, rfl, hr, Except.ok.inj h⟩
    · exact .inr ⟨_, _, List.cons_ne_nil _ _, h, .inr ⟨rfl, rfl⟩⟩
  · split at h
    · next hl => exact .inr ⟨_, _, List.cons_ne_nil _ _, h, .inl ⟨rfl, hl⟩⟩
    · exact .inr ⟨_, _, List.cons_ne_nil _ _, h, .inr ⟨rfl, rfl⟩⟩
  · cases h

theorem parse_eq_ok_iff {reference : String} {t : Target} : parse reference = .ok t ↔
    Text.trim reference ≠ "" ∧ Text.hasBlank (Text.trim reference) = false ∧
      "" ∉ components (Text.trim reference) ∧
      ofComponents (components (Text.trim reference)) = .ok t := by
  simp only [parse, mapError_eq_ok]
  generalize Text.trim reference = trimmed
  split
  · next h => simp [h]
  split
  · next hb => simp [hb]
  split
  · next he => simp [he]
  · next hne hb he => simp [hne, hb, he]

theorem isNormal_path_named {host : String} {components : List String} {t : Target}
    (h : ofComponents.named host components = .ok t) (hc : ∀ s ∈ components, IsSegment s) :
    IsNormal t.path := by
  obtain ⟨hlast, rfl⟩ := named_eq_ok_iff.1 h
  exact isNormal_path_ofSegments host (forall_mem_dropTag isSegment_before hc hlast)

theorem isNormal_path_ofComponents {components : List String} {t : Target}
    (h : ofComponents components = .ok t) (hc : ∀ s ∈ components, IsSegment s) :
    IsNormal t.path := by
  rcases ofComponents_cases h with ⟨single, -, -, rfl⟩ | ⟨host, segs, -, hnamed, hsegs⟩
  · exact isNormal_path_ofHostAndPath single ""
  · refine isNormal_path_named hnamed fun s hs => hc s ?_
    rcases hsegs with ⟨rfl, -⟩ | ⟨rfl, -⟩
    · exact List.mem_cons_of_mem _ hs
    · exact hs

theorem isSegment_of_mem_components {trimmed s : String} (h : "" ∉ components trimmed)
    (hs : s ∈ components trimmed) : IsSegment s :=
  ⟨fun e => h (e ▸ hs), Text.not_mem_of_mem_split hs⟩

theorem isNormal_path_parse {reference : String} {t : Target} (h : parse reference = .ok t) :
    IsNormal t.path := by
  obtain ⟨-, -, he, h⟩ := parse_eq_ok_iff.1 h
  exact isNormal_path_ofComponents h fun s => isSegment_of_mem_components he

theorem isNormal_path {t : Target} (h : Made t) : IsNormal t.path := by
  cases h with
  | parsed h => exact isNormal_path_parse h
  | ofHost host => exact isNormal_path_ofHostAndPath host ""
  | ofHostAndPath host path => exact isNormal_path_ofHostAndPath host path
  | toRegistry h => exact isNormal_empty

end Target

end RegistryAuth
