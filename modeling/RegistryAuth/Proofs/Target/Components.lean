import RegistryAuth.Proofs.Target.Text

/-!
# The components of a reference

The first component of a reference is its host or belongs to the path (`HasHost`), and a reference
without host is one on Docker Hub (`ofComponents_of_not_hasHost`). A part with a slash put in front
of a reference is one more component (`parse_append_iff`).
-/

namespace RegistryAuth.Target

open RepositoryPath (segments IsSegment)
open Text (lower)

/-! ## The host -/

/-- Whether the first of the components of a reference is a host. A lone one is if it has a dot
before any port or is `localhost`, and the first of several if it has a dot or a port or is
`localhost`. -/
inductive HasHost : List String → Prop where
  | alone {single : String}
      (h : '.' ∈ (Text.before ':' single).toList ∨ Text.before ':' single = "localhost") :
      HasHost [single]
  | inFront {first second : String} {rest : List String}
      (h : '.' ∈ first.toList ∨ ':' ∈ first.toList ∨ first = "localhost") :
      HasHost (first :: second :: rest)

theorem hasHost_singleton_iff {single : String} :
    HasHost [single] ↔ namesRegistry single = true := by
  rw [namesRegistry_iff]
  exact ⟨fun | .alone h => h, .alone⟩

theorem hasHost_cons_cons_iff {first second : String} {rest : List String} :
    HasHost (first :: second :: rest) ↔ looksLikeHost first = true := by
  rw [looksLikeHost_iff]
  exact ⟨fun | .inFront h => h, .inFront⟩

instance decidableHasHost : DecidablePred HasHost
  | [] => .isFalse nofun
  | [_] => decidable_of_iff _ hasHost_singleton_iff.symm
  | _ :: _ :: _ => decidable_of_iff _ hasHost_cons_cons_iff.symm

theorem ofComponents_single {single : String} (h : HasHost [single]) :
    ofComponents [single] = .ok (ofHost single) := by
  rw [ofComponents, if_pos (hasHost_singleton_iff.1 h)]

theorem ofComponents_of_hasHost {host : String} {segs : List String} (h : HasHost (host :: segs))
    (hne : segs ≠ []) : ofComponents (host :: segs) = ofComponents.named host segs := by
  obtain ⟨seg, more, rfl⟩ := List.exists_cons_of_ne_nil hne
  rw [ofComponents, if_pos (hasHost_cons_cons_iff.1 h)]

theorem ofComponents_of_not_hasHost {components : List String} (h : ¬ HasHost components)
    (hne : components ≠ []) :
    ofComponents components = ofComponents.named Host.default components := by
  match components with
  | [] => exact absurd rfl hne
  | [single] => rw [ofComponents, if_neg (mt hasHost_singleton_iff.2 h)]
  | first :: second :: rest => rw [ofComponents, if_neg (mt hasHost_cons_cons_iff.2 h)]

/-! ## The path -/

theorem named_congr {host host' : String} (h : Host.normalize host = Host.normalize host')
    (components : List String) :
    ofComponents.named host components = ofComponents.named host' components := by
  simp only [ofComponents.named, ofSegments, h]

/-- On Docker Hub a lone segment is in the namespace that may be left out. -/
theorem named_officialNamespace (single : String) :
    ofComponents.named Host.default [officialNamespace, single] =
      ofComponents.named Host.default [single] := by
  simp [ofComponents.named, dropTag, ofSegments, Host.normalize_default]

theorem segments_path_ofSegments (host : String) {segs : List String}
    (h : ∀ part ∈ segs, IsPart part) :
    segments (ofSegments host segs).path = withNamespace host segs :=
  RepositoryPath.segments_ofSegments (isSegment_of_isPart (isPart_of_mem_withNamespace host h))

/-! ## References -/

theorem components_ne_nil (trimmed : String) : components trimmed ≠ [] :=
  Text.split_ne_nil '/' _

/-- A part with a slash in front of a text is one more component of it, unless it ends a scheme. -/
theorem components_append {part s : String} (hp : IsPart part)
    (hscheme : lower part ∉ Host.schemeNames) (hs : Host.stripScheme s = s)
    (he : "" ∉ components s) : components (part ++ "/" ++ s) = part :: components s := by
  have hfront : '@' ∉ (part ++ "/").toList := by
    simp [hp.no_at]
  have hcut : (part ++ "/" ++ s).toList = part.toList ++ '/' :: s.toList := by simp
  have hstrip : Host.stripScheme (part ++ "/" ++ s) = part ++ "/" ++ s := by
    refine Host.stripScheme_eq_self (.inl ?_)
    rwa [Text.before_eq hcut hp.segment.2]
  have hne : Text.dropTrailing '/' s ≠ "" := by
    intro hempty
    refine he ?_
    rw [components, hs, hempty, Text.before_eq_self (by simp), Text.split_eq_singleton (by simp)]
    exact List.mem_singleton.2 rfl
  have hsplit : (part ++ "/" ++ Text.before '@' (Text.dropTrailing '/' s)).toList =
      part.toList ++ '/' :: (Text.before '@' (Text.dropTrailing '/' s)).toList := by simp
  rw [components, hstrip, Text.dropTrailing_append hne, Text.before_append hfront,
    Text.split_append_cons hsplit, Text.split_eq_singleton hp.segment.2, List.singleton_append,
    components, hs]

/-- Whether a reference may follow a host: it begins neither with a blank nor with a scheme. -/
structure Follows (reference : String) : Prop where
  no_blank : ∀ c, reference.toList.head? = some c → Text.isBlank c = false
  no_scheme : ∀ scheme rest, lower scheme ∈ Host.schemes → reference ≠ scheme ++ rest

theorem Follows.stripScheme_trim {reference : String} (h : Follows reference) :
    Host.stripScheme (Text.trim reference) = Text.trim reference := by
  refine Host.stripScheme_eq_self_of_forall fun scheme rest hscheme htrim => ?_
  obtain ⟨back, -, -, href⟩ := Text.exists_trim_append h.no_blank
  refine h.no_scheme scheme (rest ++ back) hscheme ?_
  rw [← String.append_assoc, ← htrim, ← href]

theorem parse_append_iff {part reference : String} {t t' : Target} (hp : IsPart part)
    (hscheme : lower part ∉ Host.schemeNames) (h : Follows reference)
    (href : parse reference = .ok t) : parse (part ++ "/" ++ reference) = .ok t' ↔
      ofComponents (part :: components (Text.trim reference)) = .ok t' := by
  obtain ⟨-, hb, he, -⟩ := parse_eq_ok_iff.1 href
  have hfront : Text.hasBlank (part ++ "/") = false := by
    rw [Text.hasBlank_append, hp.no_blank]
    rfl
  have htrim : Text.trim (part ++ "/" ++ reference) = part ++ "/" ++ Text.trim reference :=
    Text.trim_append hfront h.no_blank
  have hblank : Text.hasBlank (part ++ "/" ++ Text.trim reference) = false := by
    rw [Text.hasBlank_append, hfront, hb]
    rfl
  have hcomponents : components (part ++ "/" ++ Text.trim reference) =
      part :: components (Text.trim reference) :=
    components_append hp hscheme h.stripScheme_trim he
  have hempty : "" ∉ part :: components (Text.trim reference) := by
    rw [List.mem_cons, not_or]
    exact ⟨hp.segment.1.symm, he⟩
  rw [parse_eq_ok_iff, htrim, hcomponents]
  simp [hblank, hempty]

end RegistryAuth.Target
