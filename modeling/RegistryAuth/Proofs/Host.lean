import RegistryAuth.Host
import RegistryAuth.Proofs.Text.Cut
import RegistryAuth.Proofs.Text.Fold

/-!
# Hosts in normal form

Hosts have the same normal form if they are equal but for case or both name Docker Hub
(`normalize_eq_iff`), and the normal form is its own (`normalize_normalize`). A scheme is taken off
whatever follows it (`stripScheme_append`), and a text without one stays as it is
(`stripScheme_eq_self`). A host belongs to itself as a pattern (`covers_self`).
-/

namespace RegistryAuth.Host

open Text (lower IsLetter)

theorem isHub_congr {a b : String} (h : lower a = lower b) : isHub a = isHub b := by
  rw [isHub, isHub, h]

theorem isHub_lower (host : String) : isHub (lower host) = isHub host :=
  isHub_congr (Text.lower_lower host)

theorem isHub_iff {host : String} : isHub host = true ↔ lower host ∈ hubAliases := by
  have hlower : ∀ hub ∈ hubAliases, lower hub = hub := by decide
  rw [isHub, List.any_eq_true]
  constructor
  · rintro ⟨hub, hmem, h⟩
    rw [decide_eq_true_eq, hlower hub hmem] at h
    exact h ▸ hmem
  · intro h
    exact ⟨lower host, h, by rw [decide_eq_true_eq, Text.lower_lower]⟩

theorem isHub_default : isHub default = true := by decide

theorem normalize_of_isHub {host : String} (h : isHub host = true) : normalize host = default :=
  if_pos h

theorem normalize_of_not_isHub {host : String} (h : ¬ isHub host = true) :
    normalize host = lower host :=
  if_neg h

theorem normalize_default : normalize default = default := normalize_of_isHub isHub_default

theorem normalize_normalize (host : String) : normalize (normalize host) = normalize host := by
  by_cases h : isHub host = true
  · rw [normalize_of_isHub h, normalize_of_isHub isHub_default]
  · rw [normalize_of_not_isHub h, normalize_of_not_isHub (by rwa [isHub_lower]), Text.lower_lower]

theorem isHub_normalize (host : String) : isHub (normalize host) = isHub host := by
  by_cases h : isHub host = true
  · rw [normalize_of_isHub h, isHub_default, h]
  · rw [normalize_of_not_isHub h, isHub_lower]

theorem normalize_eq_default_iff {host : String} : normalize host = default ↔ isHub host = true :=
  ⟨fun h => by rw [← isHub_normalize, h, isHub_default], normalize_of_isHub⟩

theorem normalize_eq_iff {a b : String} : normalize a = normalize b ↔
    lower a = lower b ∨ isHub a = true ∧ isHub b = true := by
  by_cases ha : isHub a = true
  · rw [normalize_of_isHub ha, eq_comm, normalize_eq_default_iff]
    refine ⟨fun hb => .inr ⟨ha, hb⟩, fun h => h.elim (fun h => ?_) And.right⟩
    rw [← isHub_congr h, ha]
  · by_cases hb : isHub b = true
    · rw [normalize_of_isHub hb, normalize_eq_default_iff]
      refine ⟨fun h => absurd h ha, fun h => h.elim (fun h => ?_) And.left⟩
      rw [isHub_congr h, hb]
    · rw [normalize_of_not_isHub ha, normalize_of_not_isHub hb]
      simp [ha]

/-- What holds of Docker Hub and of a host in lower case holds of its normal form. -/
theorem normalize_cases {P : String → Prop} {host : String} (hub : P default)
    (other : P (lower host)) : P (normalize host) := by
  by_cases h : isHub host = true
  · rwa [normalize_of_isHub h]
  · rwa [normalize_of_not_isHub h]

/-- The normal form holds a character that is no letter only where the host does. -/
theorem mem_of_mem_normalize {c : Char} (hc : ¬ IsLetter c) (hd : c ∉ default.toList)
    {host : String} : c ∈ (normalize host).toList → c ∈ host.toList :=
  normalize_cases (P := fun s => c ∈ s.toList → c ∈ host.toList) (fun h => absurd h hd)
    (Text.mem_lower_iff hc).1

theorem hasBlank_normalize {host : String} (h : Text.hasBlank host = false) :
    Text.hasBlank (normalize host) = false :=
  normalize_cases (P := fun s => Text.hasBlank s = false) (by decide)
    (by rw [Text.hasBlank_lower, h])

theorem normalize_ne_empty {host : String} (h : host ≠ "") : normalize host ≠ "" :=
  normalize_cases (P := (· ≠ "")) (by decide) (mt Text.lower_eq_empty_iff.1 h)

/-! ## Schemes -/

/-- What stands before the first slash of a scheme. -/
def schemeNames : List String := ["https:", "http:"]

theorem schemes_eq : schemes = schemeNames.map (· ++ "//") := by decide

theorem lower_of_mem_schemes : ∀ scheme ∈ schemes, lower scheme = scheme := by decide

theorem not_mem_of_mem_schemeNames : ∀ name ∈ schemeNames, '/' ∉ name.toList := by decide

/-- A text with a scheme has two slashes at its first one. -/
theorem cut_of_scheme {scheme : String} (h : lower scheme ∈ schemes) (rest : String) :
    lower (Text.before '/' (scheme ++ rest)) ∈ schemeNames ∧
      (Text.after '/' (scheme ++ rest)).toList.head? = some '/' := by
  rw [schemes_eq] at h
  obtain ⟨name, hname, hscheme⟩ := List.mem_map.1 h
  have hn := not_mem_of_mem_schemeNames name hname
  have hcut : (lower (scheme ++ rest)).toList =
      name.toList ++ '/' :: ("/" ++ lower rest).toList := by
    rw [Text.lower_append, ← hscheme]
    simp
  -- both cuts are read off the text in lower case, where the scheme is known
  rw [← Text.before_lower (by decide), Text.before_eq hcut hn]
  refine ⟨hname, ?_⟩
  have hafter := Text.after_eq hcut hn
  rw [Text.after_lower (by decide)] at hafter
  have hhead := congrArg (fun s => s.toList.head?) hafter
  rw [Text.toList_lower, List.head?_map, String.toList_append] at hhead
  obtain ⟨x, hx, hlower⟩ := Option.map_eq_some_iff.1 hhead
  rw [hx, (Text.toLower_eq_iff (c := '/') (by decide)).1 hlower]

theorem stripScheme_eq_self_of_forall {s : String}
    (h : ∀ scheme rest, lower scheme ∈ schemes → s ≠ scheme ++ rest) : stripScheme s = s := by
  have hnone : schemes.findSome? (fun scheme => Text.dropFolded? scheme s) = none := by
    rw [List.findSome?_eq_none_iff]
    intro scheme hscheme
    rw [Option.eq_none_iff_forall_ne_some]
    intro rest hs
    obtain ⟨a, ha, hs⟩ := Text.dropFolded?_eq_some_iff.1 hs
    rw [lower_of_mem_schemes scheme hscheme] at ha
    exact h a rest (ha ▸ hscheme) hs
  rw [stripScheme, hnone]
  rfl

theorem stripScheme_eq_self {s : String} (h : lower (Text.before '/' s) ∉ schemeNames ∨
    (Text.after '/' s).toList.head? ≠ some '/') : stripScheme s = s := by
  refine stripScheme_eq_self_of_forall fun scheme rest hscheme hs => ?_
  obtain ⟨hname, hhead⟩ := cut_of_scheme hscheme rest
  rw [hs] at h
  exact h.elim (· hname) (· hhead)

theorem stripScheme_append {scheme : String} (h : lower scheme ∈ schemes) (rest : String) :
    stripScheme (scheme ++ rest) = rest := by
  have hself : Text.dropFolded? (lower scheme) (scheme ++ rest) = some rest :=
    Text.dropFolded?_eq_some_iff.2 ⟨scheme, (Text.lower_lower scheme).symm, rfl⟩
  simp only [schemes, List.mem_cons, List.not_mem_nil, or_false] at h
  rw [stripScheme, schemes, List.findSome?_cons]
  rcases h with h | h
  · rw [← h, hself]
    rfl
  · have hnone : Text.dropFolded? "https://" (scheme ++ rest) = none := by
      rw [Option.eq_none_iff_forall_ne_some]
      intro r hr
      obtain ⟨a, ha, hs⟩ := Text.dropFolded?_eq_some_iff.1 hr
      have hs := congrArg lower hs
      rw [Text.lower_append, Text.lower_append, h, ha] at hs
      have hs := congrArg String.toList hs
      simp [Text.toList_lower] at hs
    rw [hnone, List.findSome?_cons, ← h, hself]
    rfl

/-- A text either has a scheme, which is taken off, or stays as it is. -/
theorem stripScheme_cases (s : String) :
    (∃ scheme, lower scheme ∈ schemes ∧ s = scheme ++ stripScheme s) ∨
      (∀ scheme rest, lower scheme ∈ schemes → s ≠ scheme ++ rest) ∧ stripScheme s = s := by
  by_cases h : ∃ scheme rest, lower scheme ∈ schemes ∧ s = scheme ++ rest
  · obtain ⟨scheme, rest, hscheme, rfl⟩ := h
    exact .inl ⟨scheme, hscheme, by rw [stripScheme_append hscheme]⟩
  · have hnone : ∀ scheme rest, lower scheme ∈ schemes → s ≠ scheme ++ rest :=
      fun scheme rest hscheme hs => h ⟨scheme, rest, hscheme, hs⟩
    exact .inr ⟨hnone, stripScheme_eq_self_of_forall hnone⟩

/-- What is left of a text is the end of it. -/
theorem exists_append_stripScheme (s : String) : ∃ scheme, s = scheme ++ stripScheme s := by
  rcases stripScheme_cases s with ⟨scheme, -, hs⟩ | ⟨-, hs⟩
  · exact ⟨scheme, hs⟩
  · exact ⟨"", by rw [hs, String.empty_append]⟩

theorem getLast?_stripScheme {c : Char} {s : String} (h : s.toList.getLast? ≠ some c) :
    (stripScheme s).toList.getLast? ≠ some c := by
  obtain ⟨scheme, hs⟩ := exists_append_stripScheme s
  intro hc
  refine h ?_
  rw [hs, String.toList_append, List.getLast?_append, hc]
  rfl

theorem scheme_end {scheme : String} (h : lower scheme ∈ schemes) :
    '@' ∉ scheme.toList ∧ scheme.toList.getLast? = some '/' := by
  have hall : ∀ scheme ∈ schemes, '@' ∉ scheme.toList ∧ scheme.toList.getLast? = some '/' := by
    decide
  obtain ⟨hat, hlast⟩ := hall _ h
  refine ⟨fun hc => hat ((Text.mem_lower_iff (by decide)).2 hc), ?_⟩
  rw [Text.toList_lower, List.getLast?_map] at hlast
  obtain ⟨x, hx, hlower⟩ := Option.map_eq_some_iff.1 hlast
  rw [hx, (Text.toLower_eq_iff (c := '/') (by decide)).1 hlower]

/-- A text gets no scheme from an end whose slashes all stand behind an `@`. -/
theorem stripScheme_append_right {s x : String} (hx : '/' ∉ (Text.before '@' x).toList) :
    stripScheme (s ++ x) = stripScheme s ++ x := by
  rcases stripScheme_cases s with ⟨scheme, hscheme, hs⟩ | ⟨hnone, hs⟩
  · rw [hs, String.append_assoc, stripScheme_append hscheme, stripScheme_append hscheme]
  · rw [hs]
    refine stripScheme_eq_self_of_forall fun scheme rest hscheme h => ?_
    obtain ⟨hat, hlast⟩ := scheme_end hscheme
    have hlist := congrArg String.toList h
    rw [String.toList_append, String.toList_append, List.append_eq_append_iff] at hlist
    rcases hlist with ⟨a, hfront, hx'⟩ | ⟨a, hfront, -⟩
    · -- the scheme reaches into the end, so its last slash stands there
      rw [hfront] at hat hlast
      by_cases ha : a = []
      · rw [ha, List.append_nil, String.toList_inj] at hfront
        exact hnone scheme "" hscheme (by rw [hfront, String.append_empty])
      · rw [List.getLast?_append, Option.or_of_isSome (List.getLast?_isSome.2 ha)] at hlast
        have hxa : x = String.ofList a ++ rest := by
          apply String.toList_inj.mp
          rw [hx', String.toList_append, String.toList_ofList]
        have hata : '@' ∉ (String.ofList a).toList := by
          rw [String.toList_ofList]
          exact fun hc => hat (List.mem_append_right _ hc)
        rw [hxa, Text.before_append hata, String.toList_append, String.toList_ofList] at hx
        exact hx (List.mem_append_left _ (List.mem_of_getLast? hlast))
    · refine hnone scheme (String.ofList a) hscheme (String.toList_inj.mp ?_)
      rw [hfront, String.toList_append, String.toList_ofList]

theorem mem_of_mem_stripScheme {c : Char} {s : String} (h : c ∈ (stripScheme s).toList) :
    c ∈ s.toList := by
  obtain ⟨scheme, hs⟩ := exists_append_stripScheme s
  rw [hs, String.toList_append]
  exact List.mem_append_right _ h

/-! ## Patterns -/

theorem someEnd_of_accepts {accepts : List Char → Bool} {label : List Char}
    (h : accepts label = true) : someEnd accepts label = true := by
  cases label with
  | nil => exact h
  | cons c rest => rw [someEnd, h, Bool.true_or]

theorem labelMatches_self (label : List Char) : labelMatches label label = true := by
  induction label with
  | nil => rfl
  | cons c rest ih =>
    rw [labelMatches]
    split
    · rw [someEnd, someEnd_of_accepts ih, Bool.or_true]
    · simp [ih]

theorem covers_self (host : String) : covers host host = true := by
  rw [covers]
  split
  · have hzip (labels : List String) :
        labels.zip labels = labels.map fun label => (label, label) := by
      rw [← List.zip_map', List.map_id']
    simp [hzip, labelMatches_self]
  · simp

end RegistryAuth.Host
