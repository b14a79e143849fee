import RegistryAuth.Keychain
import RegistryAuth.Proofs.Cluster.Resolution
import RegistryAuth.Proofs.Source.Specificity
import RegistryAuth.Proofs.Spelling
import RegistryAuth.Proofs.Target.Components

/-!
# References to Docker Hub

A reference without host is one on Docker Hub. It may be written with the host in front, under each
of its names (`parse_hub_append`), and a lone segment with its namespace (`parse_namespace_append`).
A key that names Docker Hub, also by a version of its interface, is one for the whole registry
(`parse_hubKey`). Main statement: all these references are one target, and a document with such a
key has the credential for it (`parse_on_hub`).
-/

namespace RegistryAuth

open RepositoryPath (segments)
open Text (lower)

/-! ## The names of Docker Hub -/

namespace Target

theorem isPart_of_lower {part : String} (h : IsPart (lower part)) : IsPart part where
  segment := ⟨fun he => h.segment.1 (Text.lower_eq_empty_iff.2 he),
    fun hc => h.segment.2 ((Text.mem_lower_iff (by decide)).2 hc)⟩
  no_at hc := h.no_at ((Text.mem_lower_iff (by decide)).2 hc)
  no_blank := by rw [← Text.hasBlank_lower, h.no_blank]

theorem isPart_of_mem_hubAliases : ∀ hub ∈ Host.hubAliases, IsPart hub := by
  have hparts : ∀ hub ∈ Host.hubAliases, (hub ≠ "" ∧ '/' ∉ hub.toList) ∧ '@' ∉ hub.toList ∧
      Text.hasBlank hub = false := by decide
  intro hub hmem
  obtain ⟨hsegment, hat, hblank⟩ := hparts hub hmem
  exact ⟨hsegment, hat, hblank⟩

theorem not_mem_schemeNames_of_mem_hubAliases :
    ∀ hub ∈ Host.hubAliases, hub ∉ Host.schemeNames := by
  decide

theorem dot_mem_of_mem_hubAliases : ∀ hub ∈ Host.hubAliases, '.' ∈ hub.toList := by decide

section

variable {hub : String} (h : lower hub ∈ Host.hubAliases)
include h

theorem isPart_hub : IsPart hub := isPart_of_lower (isPart_of_mem_hubAliases _ h)

theorem hasHost_hub {segs : List String} (hne : segs ≠ []) : HasHost (hub :: segs) := by
  obtain ⟨seg, more, rfl⟩ := List.exists_cons_of_ne_nil hne
  exact .inFront (.inl ((Text.mem_lower_iff (by decide)).1 (dot_mem_of_mem_hubAliases _ h)))

theorem normalize_hub : Host.normalize hub = Host.default :=
  Host.normalize_eq_default_iff.2 (Host.isHub_iff.2 h)

theorem ofComponents_hub {segs : List String} (hne : segs ≠ []) :
    ofComponents (hub :: segs) = ofComponents.named Host.default segs := by
  rw [ofComponents_of_hasHost (hasHost_hub h hne) hne, named_congr]
  rw [normalize_hub h, Host.normalize_default]

end

end Target

/-! ## Keys -/

namespace Scope

/-- Whether a key is a name of Docker Hub in any case, with or without a scheme, a version of the
interface and a slash at the end. -/
def IsHubKey (key : String) : Prop :=
  ∃ scheme hub tail, key = scheme ++ hub ++ tail ∧ (scheme = "" ∨ lower scheme ∈ Host.schemes) ∧
    lower hub ∈ Host.hubAliases ∧ tail ∈ ["", "/", "/v1", "/v1/", "/v2", "/v2/"]

/-- What stands after the slash in such a key, if there is one. -/
def hubTails : List (Option String) :=
  [none, some "", some "v1", some "v1/", some "v2", some "v2/"]

theorem exists_hubSpelling {key : String} (h : IsHubKey key) :
    ∃ s : Spelling, s.text = key ∧ Host.isHub s.host = true ∧ s.IsVersion := by
  obtain ⟨scheme, hub, tail, rfl, hscheme, hhub, htail⟩ := h
  have hpart := Target.isPart_hub hhub
  have htails : ∀ tail ∈ ["", "/", "/v1", "/v1/", "/v2", "/v2/"],
      ∃ tail' ∈ hubTails, (tail'.map ("/" ++ ·)).getD "" = tail := by decide
  have hblank : ∀ tail' ∈ hubTails, Text.hasBlank (tail'.getD "") = false := by decide
  have hversion : ∀ tail' ∈ hubTails, segments (tail'.getD "") ∈ [[], ["v1"], ["v2"]] := by decide
  obtain ⟨tail', hmem, rfl⟩ := htails tail htail
  have hend : ∀ path, tail' = some path →
      ∀ c, path.toList.getLast? = some c → Text.isBlank c = false := by
    rintro path rfl
    exact (Text.isTrimmed_of_hasBlank (hblank _ hmem)).last
  let s : Spelling :=
    { front := ""
      scheme := scheme
      host := hub
      tail := tail'
      back := ""
      front_blank := by decide
      back_blank := by decide
      scheme_known := hscheme
      host_ne_empty := hpart.segment.1
      host_no_slash := hpart.segment.2
      host_no_blank := hpart.no_blank
      host_no_scheme := Target.not_mem_schemeNames_of_mem_hubAliases _ hhub
      tail_end := hend }
  refine ⟨s, ?_, Host.isHub_iff.2 hhub, hversion tail' hmem⟩
  simp [s, Spelling.text, Spelling.tailText]

theorem parse_hubKey {key : String} (h : IsHubKey key) :
    Scope.parse key = .ok ⟨Host.default, ""⟩ := by
  obtain ⟨s, rfl, hhub, hversion⟩ := exists_hubSpelling h
  have hpath := Spelling.isVersion_iff.1 hversion
  rw [s.parse_text, Host.normalize_of_isHub hhub, ofNormal]
  rcases List.mem_cons.1 hpath with hempty | hmem
  · rw [hempty]
    rfl
  · rw [if_pos ⟨rfl, hmem⟩]

end Scope

/-! ## Documents -/

theorem credentialFor_singleton {e : Entry} {t : Target} (h : e.Covers t) :
    ((Source.mk [e]).credentialFor t).value = some e.credential := by
  rw [Source.value_credentialFor, List.foldl_cons, Source.better_none h]
  rfl

theorem value_parse_of_member {format : DocumentFormat} {s : Bytes} {key : String} {v : Json.Value}
    {scope : Scope} {credential : Credential} (hdecode : format.decode s = .ok [(key, v)])
    (hkey : Scope.parse key = .ok scope) (hv : entryCredential? key v = .ok (some credential)) :
    (Source.parse format s).run.value = .ok ⟨[⟨scope, credential⟩]⟩ := by
  rw [value_parse_of_decode hdecode, run_entriesOf_of_some hkey hv]
  rfl

namespace Keychain

theorem value_build_document {format : DocumentFormat} {s : Bytes} {source : Source}
    (h : (Source.parse format s).run.value = .ok source) (label : String) :
    (build [.document label format s]).value = ⟨[source], .anonymous⟩ := by
  rw [build, Logged.value_foldlM, List.foldl_cons, add, Logged.value_bind, h]
  rfl

theorem value_resolve_document {format : DocumentFormat} {s : Bytes} {source : Source} {t : Target}
    {credential : Credential} (h : (Source.parse format s).run.value = .ok source)
    (hc : (source.credentialFor t).value = some credential) (label : String) :
    ((build [.document label format s]).value.resolve t).value = .credential credential := by
  rw [value_build_document h, resolve, value_resolveFrom, List.findSome?_cons, hc]
  rfl

end Keychain

/-! ## References -/

namespace Target

section

variable {reference : String} {t : Target} (href : parse reference = .ok t)
  (hfollows : Follows reference) (hhost : ¬ HasHost (components (Text.trim reference)))
include href hhost

theorem named_of_parse :
    ofComponents.named Host.default (components (Text.trim reference)) = .ok t := by
  obtain ⟨-, -, -, h⟩ := parse_eq_ok_iff.1 href
  rwa [ofComponents_of_not_hasHost hhost (components_ne_nil _)] at h

theorem host_of_not_hasHost : t.host = Host.default := by
  obtain ⟨-, rfl⟩ := named_eq_ok_iff.1 (named_of_parse href hhost)
  rw [ofSegments_eq, Host.normalize_default]
  rfl

theorem two_le_length_of_not_hasHost : 2 ≤ (segments t.path).length := by
  obtain ⟨hlast, rfl⟩ := named_eq_ok_iff.1 (named_of_parse href hhost)
  have hparts := forall_mem_dropTag IsPart.before (isPart_of_parse href) hlast
  have hne := dropTag_ne_nil (components_ne_nil (Text.trim reference))
  have hzero := List.length_pos_iff.2 (withNamespace_ne_nil Host.default hne)
  rw [segments_path_ofSegments Host.default hparts]
  generalize dropTag (components (Text.trim reference)) = segs at hzero
  have hone : (withNamespace Host.default segs).length ≠ 1 :=
    length_withNamespace Host.normalize_default
  omega

include hfollows

theorem parse_hub_append {hub : String} (h : lower hub ∈ Host.hubAliases) :
    parse (hub ++ "/" ++ reference) = .ok t := by
  refine (parse_append_iff (isPart_hub h) (not_mem_schemeNames_of_mem_hubAliases _ h) hfollows
    href).2 ?_
  rw [ofComponents_hub h (components_ne_nil _), named_of_parse href hhost]

theorem parse_namespace_append {single : String} (h : components (Text.trim reference) = [single]) :
    parse (officialNamespace ++ "/" ++ reference) = .ok t := by
  have hnamed := named_of_parse href hhost
  have hnot : ¬ HasHost [officialNamespace, single] :=
    mt hasHost_cons_cons_iff.1 (by decide)
  refine (parse_append_iff isPart_officialNamespace (by decide) hfollows href).2 ?_
  rw [h] at hnamed ⊢
  rw [ofComponents_of_not_hasHost hnot (List.cons_ne_nil _ _), named_officialNamespace, hnamed]

/-- A reference without host is on Docker Hub, in a namespace. With any name of Docker Hub in front
it is the same target, as with the official namespace in front of a lone segment. The credential for
it is that of a document whose one key names Docker Hub. -/
theorem parse_on_hub :
    (∀ hub, lower hub ∈ Host.hubAliases → parse (hub ++ "/" ++ reference) = .ok t) ∧
    t.host = Host.default ∧ 2 ≤ (segments t.path).length ∧
    (∀ single, components (Text.trim reference) = [single] →
      parse (officialNamespace ++ "/" ++ reference) = .ok t) ∧
    ∀ format s key v credential, Scope.IsHubKey key → format.decode s = .ok [(key, v)] →
      entryCredential? key v = .ok (some credential) →
      ∃ source, (Source.parse format s).run.value = .ok source ∧
        (source.credentialFor t).value = some credential ∧
        ∀ label, ((Keychain.build [.document label format s]).value.resolve t).value =
          .credential credential := by
  have hdefault := host_of_not_hasHost href hhost
  refine ⟨fun hub => parse_hub_append href hfollows hhost, hdefault,
    two_le_length_of_not_hasHost href hhost,
    fun single => parse_namespace_append href hfollows hhost, ?_⟩
  intro format s key v credential hkey hdecode hv
  have hsource := value_parse_of_member hdecode (Scope.parse_hubKey hkey) hv
  have hcredential := credentialFor_singleton (covers_whole hdefault credential)
  exact ⟨_, hsource, hcredential, Keychain.value_resolve_document hsource hcredential⟩

end

/-- A document with one key, a name of Docker Hub with all that may stand around it. -/
def hubDocument : Bytes :=
  Text.utf8 "\x7b\"HTTPS://registry-1.docker.IO/v2/\":\x7b\"registrytoken\":\"t\"\x7d\x7d"

theorem decode_hubDocument : DocumentFormat.dockercfg.decode hubDocument =
    .ok [("HTTPS://registry-1.docker.IO/v2/", .object [("registrytoken", .string "t")])] := by
  with_unfolding_all rfl

/-- A lone segment with a tag and a digest. -/
theorem parse_on_hub_tagged :
    parse "nginx:1.25@sha256:0" = .ok (.repository Host.default "library/nginx") ∧
      parse "Docker.IO/nginx:1.25@sha256:0" = parse "nginx:1.25@sha256:0" ∧
      parse "library/nginx:1.25@sha256:0" = parse "nginx:1.25@sha256:0" ∧
      ((Keychain.build [.document "hub" .dockercfg hubDocument]).value.resolve
        (.repository Host.default "library/nginx")).value = .credential (.bearer "t") := by
  have href : parse "nginx:1.25@sha256:0" = .ok (.repository Host.default "library/nginx") := by
    decide
  have hfollows : Follows "nginx:1.25@sha256:0" :=
    { no_blank := fun c hc => by
        rw [← Option.some.inj hc]
        decide
      no_scheme := fun scheme rest hscheme hs => by
        have hhead := (Host.cut_of_scheme hscheme rest).2
        rw [← hs] at hhead
        exact absurd hhead (by decide) }
  have hhost : ¬ HasHost (components (Text.trim "nginx:1.25@sha256:0")) := by decide
  have hkey : Scope.IsHubKey "HTTPS://registry-1.docker.IO/v2/" :=
    ⟨"HTTPS://", "registry-1.docker.IO", "/v2/", by decide, .inr (by decide), by decide, by decide⟩
  obtain ⟨hhub, -, -, hlone, hdocument⟩ := parse_on_hub href hfollows hhost
  have hwithHub : "Docker.IO" ++ "/" ++ "nginx:1.25@sha256:0" =
      "Docker.IO/nginx:1.25@sha256:0" := by decide
  have hwithNamespace : officialNamespace ++ "/" ++ "nginx:1.25@sha256:0" =
      "library/nginx:1.25@sha256:0" := by decide
  refine ⟨href, ?_⟩
  rw [href, ← hwithHub, ← hwithNamespace]
  refine ⟨hhub "Docker.IO" (by decide), hlone "nginx:1.25" (by decide), ?_⟩
  obtain ⟨source, -, -, hresolve⟩ :=
    hdocument .dockercfg _ _ _ (.bearer "t") hkey decode_hubDocument (by with_unfolding_all rfl)
  exact hresolve "hub"

end Target

end RegistryAuth
