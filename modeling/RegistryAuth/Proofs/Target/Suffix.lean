import RegistryAuth.Proofs.Target.Components

/-!
# Tags and digests

What stands behind a reference reaches no component but the last. A digest is cut off with its `@`
(`components_digest`), and a tag makes the last component longer (`exists_components_append`), where
all that is looked at stands before the first colon (`ofComponents_concat`). Main statement: a tag,
a digest and both behind a reference leave its target as it is (`parse_tag_digest`).
-/

namespace RegistryAuth.Target

/-- Whether a tag or a digest may follow a text: it ends neither with a slash nor with a blank. -/
structure IsOpen (s : String) : Prop where
  no_slash : s.toList.getLast? ≠ some '/'
  no_blank : ∀ c, s.toList.getLast? = some c → Text.isBlank c = false

/-- Whether a text can be a tag. -/
structure IsTag (tag : String) : Prop where
  no_slash : '/' ∉ tag.toList
  no_at : '@' ∉ tag.toList
  no_blank : Text.hasBlank tag = false

theorem getLast?_append_of_no_slash {s x : String} (hs : s.toList.getLast? ≠ some '/')
    (hx : '/' ∉ x.toList) : (s ++ x).toList.getLast? ≠ some '/' := by
  rw [String.toList_append, List.getLast?_append]
  cases hlast : x.toList.getLast? with
  | none => exact hs
  | some c =>
    rintro ⟨⟩
    exact hx (List.mem_of_getLast? hlast)

theorem IsTag.isOpen {tag : String} (h : IsTag tag) (s : String) : IsOpen (s ++ ":" ++ tag) where
  no_slash := getLast?_append_of_no_slash (by simp) h.no_slash
  no_blank c hc := by
    rw [String.toList_append, List.getLast?_append] at hc
    cases hlast : tag.toList.getLast? with
    | none =>
      rw [hlast] at hc
      obtain rfl : ':' = c := by simpa using hc
      decide
    | some d =>
      rw [hlast] at hc
      obtain rfl : d = c := by simpa using hc
      exact (Text.isTrimmed_of_hasBlank h.no_blank).last d hlast

/-! ## References with something behind them -/

theorem getLast?_trim {s : String} (h : IsOpen s) : (Text.trim s).toList.getLast? ≠ some '/' := by
  obtain ⟨front, -, -, hs⟩ := Text.exists_append_trim h.no_blank
  intro hc
  refine h.no_slash ?_
  rw [hs, String.toList_append, List.getLast?_append, hc]
  rfl

theorem parse_append_right {reference x : String} {t t' : Target} (href : parse reference = .ok t)
    (hopen : IsOpen reference) (hx : Text.hasBlank x = false)
    (hempty : "" ∉ components (Text.trim reference ++ x))
    (hof : ofComponents (components (Text.trim reference ++ x)) = .ok t') :
    parse (reference ++ x) = .ok t' := by
  obtain ⟨hne, hblank, -, -⟩ := parse_eq_ok_iff.1 href
  rw [parse_eq_ok_iff, Text.trim_append_right hopen.no_blank
    (Text.isTrimmed_of_hasBlank hx)]
  refine ⟨by simp [hne], ?_, hempty, hof⟩
  rw [Text.hasBlank_append, hblank, hx]
  rfl

theorem components_eq_split {s : String} (hs : s.toList.getLast? ≠ some '/') :
    components s = Text.split '/' (Text.before '@' (Host.stripScheme s)) := by
  rw [components, Text.dropTrailing_eq_self (Host.getLast?_stripScheme hs)]

/-! ## Digests -/

theorem components_digest {s : String} (hs : s.toList.getLast? ≠ some '/') (digest : String) :
    components (s ++ ("@" ++ digest)) = components s := by
  have hfront : '/' ∉ (Text.before '@' ("@" ++ digest)).toList := by
    have hcut : ("@" ++ digest).toList = "".toList ++ '@' :: digest.toList := by simp
    rw [Text.before_eq hcut (by simp)]
    simp
  have hlast : (Host.stripScheme s ++ "@").toList.getLast? ≠ some '/' := by simp
  have hcut : (Host.stripScheme s ++ "@" ++ Text.dropTrailing '/' digest).toList =
      (Host.stripScheme s).toList ++ '@' :: (Text.dropTrailing '/' digest).toList := by simp
  rw [components, Host.stripScheme_append_right hfront, ← String.append_assoc,
    Text.dropTrailing_append_of_last hlast, Text.before_append_cons hcut, components_eq_split hs]

theorem parse_digest {reference : String} {t : Target} (href : parse reference = .ok t)
    (hopen : IsOpen reference) {digest : String} (h : Text.hasBlank digest = false) :
    parse (reference ++ "@" ++ digest) = .ok t := by
  obtain ⟨-, -, hempty, hof⟩ := parse_eq_ok_iff.1 href
  have hblank : Text.hasBlank ("@" ++ digest) = false := by
    rw [Text.hasBlank_append, h]
    rfl
  rw [← components_digest (getLast?_trim hopen) digest] at hempty hof
  rw [String.append_assoc]
  exact parse_append_right href hopen hblank hempty hof

/-! ## Tags -/

/-- What holds no slash makes the last part of a text longer. -/
theorem exists_split_append {s x : String} (hx : '/' ∉ x.toList) :
    ∃ front last, Text.split '/' s = front ++ [last] ∧
      Text.split '/' (s ++ x) = front ++ [last ++ x] := by
  obtain ⟨front, last, hsplit⟩ : ∃ front last, Text.split '/' s = front ++ [last] :=
    ⟨_, _, (List.dropLast_append_getLast (Text.split_ne_nil '/' s)).symm⟩
  have hparts : ∀ part ∈ front ++ [last], '/' ∉ part.toList := by
    rw [← hsplit]
    exact fun _ => Text.not_mem_of_mem_split
  have hjoin : s ++ x = RepositoryPath.ofSegments (front ++ [last ++ x]) := by
    have hs : s = RepositoryPath.ofSegments (front ++ [last]) := by
      rw [← hsplit, RepositoryPath.ofSegments_split]
    by_cases hfront : front = []
    · rw [hs, hfront, List.nil_append, List.nil_append, RepositoryPath.ofSegments_singleton,
        RepositoryPath.ofSegments_singleton]
    · rw [hs, RepositoryPath.ofSegments_append hfront (List.cons_ne_nil _ _),
        RepositoryPath.ofSegments_append hfront (List.cons_ne_nil _ _),
        RepositoryPath.ofSegments_singleton, RepositoryPath.ofSegments_singleton,
        String.append_assoc]
  refine ⟨front, last, hsplit, ?_⟩
  rw [hjoin, RepositoryPath.ofSegments, Text.split_join (by simp)]
  rw [List.forall_mem_append, List.forall_mem_singleton] at hparts ⊢
  refine ⟨hparts.1, ?_⟩
  simp [hparts.2, hx]

theorem exists_components_append {s x : String} (hs : s.toList.getLast? ≠ some '/')
    (hat : '@' ∉ s.toList) (hx : '/' ∉ x.toList) (hxat : '@' ∉ x.toList) :
    ∃ front last, components s = front ++ [last] ∧ components (s ++ x) = front ++ [last ++ x] := by
  have hstripped : '@' ∉ (Host.stripScheme s).toList := fun hc =>
    hat (Host.mem_of_mem_stripScheme hc)
  have hboth : '@' ∉ (Host.stripScheme s ++ x).toList := by
    rw [String.toList_append, List.mem_append, not_or]
    exact ⟨hstripped, hxat⟩
  have hstrip : Host.stripScheme (s ++ x) = Host.stripScheme s ++ x :=
    Host.stripScheme_append_right fun hc => hx (Text.mem_of_mem_before hc)
  rw [components_eq_split hs, components_eq_split (getLast?_append_of_no_slash hs hx), hstrip,
    Text.before_eq_self hstripped, Text.before_eq_self hboth]
  exact exists_split_append hx

theorem dropTag_concat (front : List String) (last : String) :
    dropTag (front ++ [last]) = front ++ [Text.before ':' last] := by
  induction front with
  | nil => rfl
  | cons segment front ih => rw [List.cons_append, dropTag_cons _ (by simp), ih, List.cons_append]

section

variable {last last' : String} (h : Text.before ':' last' = Text.before ':' last)
include h

/-- Whether the first component is a host is seen without the tag of the last one. -/
theorem hasHost_concat_iff (front : List String) :
    HasHost (front ++ [last']) ↔ HasHost (front ++ [last]) := by
  match front with
  | [] =>
    rw [List.nil_append, List.nil_append, hasHost_singleton_iff, hasHost_singleton_iff,
      namesRegistry_iff, namesRegistry_iff, h]
  | [first] => exact hasHost_cons_cons_iff.trans hasHost_cons_cons_iff.symm
  | first :: second :: front => exact hasHost_cons_cons_iff.trans hasHost_cons_cons_iff.symm

theorem named_concat (host : String) (front : List String) :
    ofComponents.named host (front ++ [last']) = ofComponents.named host (front ++ [last]) := by
  simp only [ofComponents.named, dropTag_concat, h]

/-- A repository is named by what stands before the tag of the last component. A registry is not:
its port stands behind a colon too. -/
theorem ofComponents_concat {front : List String} {host path : String} (hlast : IsPart last)
    (hof : ofComponents (front ++ [last]) = .ok (.repository host path)) :
    ofComponents (front ++ [last']) = .ok (.repository host path) := by
  by_cases hhost : HasHost (front ++ [last])
  · have hhost' := (hasHost_concat_iff h front).2 hhost
    cases front with
    | nil =>
      rw [List.nil_append] at hhost hof
      rw [ofComponents_single hhost, ofHost_of_isPart hlast] at hof
      cases hof
    | cons first front =>
      rw [List.cons_append] at hhost hhost' hof ⊢
      rw [ofComponents_of_hasHost hhost (by simp)] at hof
      rw [ofComponents_of_hasHost hhost' (by simp), named_concat h first front, hof]
  · have hhost' := mt (hasHost_concat_iff h front).1 hhost
    rw [ofComponents_of_not_hasHost hhost (by simp)] at hof
    rw [ofComponents_of_not_hasHost hhost' (by simp), named_concat h _ front, hof]

end

theorem parse_tag {reference host path : String}
    (href : parse reference = .ok (.repository host path)) (hopen : IsOpen reference)
    (hat : '@' ∉ reference.toList) {tag : String} (htag : IsTag tag) :
    parse (reference ++ ":" ++ tag) = .ok (.repository host path) := by
  obtain ⟨-, hblank, hempty, hof⟩ := parse_eq_ok_iff.1 href
  have hx : Text.hasBlank (":" ++ tag) = false := by
    rw [Text.hasBlank_append, htag.no_blank]
    rfl
  have hslash : '/' ∉ (":" ++ tag).toList := by simp [htag.no_slash]
  have hxat : '@' ∉ (":" ++ tag).toList := by simp [htag.no_at]
  obtain ⟨front, last, hcomponents, htagged⟩ := exists_components_append (getLast?_trim hopen)
    (fun hc => hat (Text.mem_of_mem_trim hc)) hslash hxat
  have hlast : IsPart last := by
    refine isPart_of_mem_components hblank hempty ?_
    rw [hcomponents]
    exact List.mem_append_right _ List.mem_cons_self
  have hbefore : Text.before ':' (last ++ (":" ++ tag)) = Text.before ':' last := by
    have hcut : (last ++ (":" ++ tag)).toList = last.toList ++ ':' :: tag.toList := by simp
    exact Text.before_append_cons hcut
  rw [hcomponents, List.mem_append, not_or] at hempty
  rw [hcomponents] at hof
  rw [String.append_assoc]
  refine parse_append_right href hopen hx ?_ ?_
  · rw [htagged, List.mem_append, not_or]
    exact ⟨hempty.1, by simp⟩
  · rw [htagged]
    exact ofComponents_concat hbefore hlast hof

/-- A digest behind a reference leaves its target as it is, whatever it holds but blanks. So does a
tag behind a reference without a digest if that names a repository, and so do both together. -/
theorem parse_tag_digest {reference : String} {t : Target} (href : parse reference = .ok t)
    (hopen : IsOpen reference) :
    (∀ digest, Text.hasBlank digest = false → parse (reference ++ "@" ++ digest) = .ok t) ∧
    ('@' ∉ reference.toList → (∃ host path, t = .repository host path) → ∀ tag, IsTag tag →
      parse (reference ++ ":" ++ tag) = .ok t ∧
      ∀ digest, Text.hasBlank digest = false →
        parse (reference ++ ":" ++ tag ++ "@" ++ digest) = .ok t) := by
  refine ⟨fun digest => parse_digest href hopen, ?_⟩
  rintro hat ⟨host, path, rfl⟩ tag htag
  have htagged := parse_tag href hopen hat htag
  exact ⟨htagged, fun digest => parse_digest htagged (htag.isOpen reference)⟩

/-- A lone image, of which tag and digest together look like a registry with a port and a path. -/
theorem parse_tag_digest_image :
    parse "nginx" = .ok (.repository Host.default "library/nginx") ∧
      parse ("nginx" ++ ":" ++ "1.25:80" ++ "@" ++ "r.io:5000/") =
        .ok (.repository Host.default "library/nginx") := by
  have href : parse "nginx" = .ok (.repository Host.default "library/nginx") := by decide
  have hblank : ∀ c, "nginx".toList.getLast? = some c → Text.isBlank c = false := by
    rintro _ ⟨⟩
    decide
  obtain ⟨-, htag⟩ := parse_tag_digest href ⟨by decide, hblank⟩
  exact ⟨href, (htag (by decide) ⟨_, _, rfl⟩ "1.25:80" ⟨by decide, by decide, by decide⟩).2
    "r.io:5000/" (by decide)⟩

end RegistryAuth.Target
