import Mathlib.Data.List.Basic
import RegistryAuth.Proofs.Text.Cut
import RegistryAuth.RepositoryPath

/-!
# Paths as lists of segments

A path is normal if it is what its segments make again. Slashes at the end of a text make no
segment (`segments_dropTrailing`), and what stands before the first slash is one
(`segments_eq_cons`). Main statements: making a path and taking its segments undo each other
(`segments_ofSegments`); the segments of a text are those that it is written from, which
`HasSegments` says apart from any cutting (`hasSegments_iff`); and of two paths over the same one
the longer text has more segments (`utf8ByteSize_lt_iff`).
-/

namespace RegistryAuth.RepositoryPath

/-- Whether a text can be a segment: it is not empty and holds no slash. -/
def IsSegment (s : String) : Prop := s ≠ "" ∧ '/' ∉ s.toList

/-- Whether a path is in normal form. -/
def IsNormal (path : String) : Prop := normalize path = path

instance (path : String) : Decidable (IsNormal path) := inferInstanceAs (Decidable (_ = _))

theorem isSegment_of_mem_segments {path s : String} (h : s ∈ segments path) : IsSegment s := by
  obtain ⟨hs, hne⟩ := List.mem_filter.mp h
  exact ⟨by simpa using hne, Text.not_mem_of_mem_split hs⟩

theorem segments_empty : segments "" = [] := by decide

theorem ofSegments_nil : ofSegments [] = "" := rfl

theorem ofSegments_singleton (s : String) : ofSegments [s] = s := by
  simp [ofSegments, Text.join]

theorem ofSegments_split (path : String) : ofSegments (Text.split '/' path) = path :=
  Text.join_split '/' path

/-- A slash between two texts parts their segments. -/
theorem segments_slash (a b : String) : segments (a ++ "/" ++ b) = segments a ++ segments b := by
  have e : (a ++ "/" ++ b).toList = a.toList ++ '/' :: b.toList := by simp
  rw [segments, Text.split_append_cons e, List.filter_append]
  rfl

theorem segments_of_isSegment {s : String} (h : IsSegment s) : segments s = [s] := by
  rw [segments, Text.split_eq_singleton h.2]
  simp [h.1]

theorem segments_append_slashes {tail : String} (h : ∀ c ∈ tail.toList, c = '/') (s : String) :
    segments (s ++ tail) = segments s := by
  generalize hcs : tail.toList = cs at h
  induction cs generalizing s tail with
  | nil =>
    rw [String.toList_eq_nil_iff.1 hcs, String.append_empty]
  | cons c cs ih =>
    rw [List.forall_mem_cons] at h
    have htail : s ++ tail = s ++ "/" ++ "" ++ String.ofList cs := by
      apply String.toList_inj.mp
      simp [hcs, h.1]
    rw [htail, ih _ String.toList_ofList h.2, segments_slash, segments_empty, List.append_nil]

theorem segments_dropTrailing (s : String) : segments (Text.dropTrailing '/' s) = segments s := by
  obtain ⟨tail, htail, h⟩ := Text.exists_dropTrailing '/' s
  have hsegments := segments_append_slashes htail (Text.dropTrailing '/' s)
  rw [← hsegments, ← h]

/-- What stands before the first slash is the first segment, if anything stands there. -/
theorem segments_eq_cons {s : String} (h : Text.before '/' s ≠ "") :
    segments s = Text.before '/' s :: segments (Text.after '/' s) := by
  have hfirst := segments_of_isSegment ⟨h, Text.not_mem_before '/' s⟩
  by_cases hs : '/' ∈ s.toList
  · have hcut : s = Text.before '/' s ++ "/" ++ Text.after '/' s := by
      apply String.toList_inj.mp
      rw [Text.toList_eq_of_mem hs]
      simp
    have hsegments := segments_slash (Text.before '/' s) (Text.after '/' s)
    rwa [← hcut, hfirst, List.singleton_append] at hsegments
  · rw [Text.before_eq_self hs] at hfirst ⊢
    rw [hfirst, Text.after_eq_empty hs, segments_empty]

theorem segments_ofSegments {segs : List String} (h : ∀ s ∈ segs, IsSegment s) :
    segments (ofSegments segs) = segs := by
  by_cases hne : segs = []
  · rw [hne]; exact segments_empty
  · rw [segments, ofSegments, Text.split_join hne fun s hs => (h s hs).2]
    exact List.filter_eq_self.mpr fun s hs => by simpa using (h s hs).1

/-! ## Normal paths -/

theorem segments_normalize (path : String) : segments (normalize path) = segments path :=
  segments_ofSegments fun _ => isSegment_of_mem_segments

theorem isNormal_ofSegments {segs : List String} (h : ∀ s ∈ segs, IsSegment s) :
    IsNormal (ofSegments segs) := by
  rw [IsNormal, normalize, segments_ofSegments h]

theorem isNormal_normalize (path : String) : IsNormal (normalize path) :=
  isNormal_ofSegments fun _ => isSegment_of_mem_segments

theorem isNormal_empty : IsNormal "" := by rw [IsNormal, normalize, segments_empty, ofSegments_nil]

/-- Normal paths with the same segments are equal. -/
theorem IsNormal.ext {a b : String} (ha : IsNormal a) (hb : IsNormal b)
    (h : segments a = segments b) : a = b := by
  rw [← ha, ← hb, normalize, normalize, h]

theorem normalize_eq_iff {a b : String} : normalize a = normalize b ↔ segments a = segments b :=
  ⟨fun h => by rw [← segments_normalize a, h, segments_normalize],
    fun h => by rw [normalize, h, normalize]⟩

/-! ## Joining -/

theorem ofSegments_cons (s : String) {segs : List String} (h : segs ≠ []) :
    ofSegments (s :: segs) = s ++ "/" ++ ofSegments segs := by
  have hne : segs.map String.toList ≠ [] := by simpa using h
  apply String.toList_inj.mp
  simp [ofSegments, Text.join, List.intercalate_cons_of_ne_nil hne]

theorem ofSegments_append {xs ys : List String} (hx : xs ≠ []) (hy : ys ≠ []) :
    ofSegments (xs ++ ys) = ofSegments xs ++ "/" ++ ofSegments ys := by
  induction xs with
  | nil => exact absurd rfl hx
  | cons s xs ih =>
    by_cases h : xs = []
    · rw [h, List.singleton_append, ofSegments_cons s hy, ofSegments_singleton]
    · rw [List.cons_append, ofSegments_cons s (by simp [h]), ih h, ofSegments_cons s h]
      simp only [String.append_assoc]

theorem ofSegments_ne_empty {segs : List String} (h : ∀ s ∈ segs, IsSegment s) (hne : segs ≠ []) :
    ofSegments segs ≠ "" := fun e =>
  hne (by rw [← segments_ofSegments h, e, segments_empty])

/-! ## At the ends -/

theorem before_ofSegments {s : String} (h : IsSegment s) (segs : List String) :
    Text.before '/' (ofSegments (s :: segs)) = s := by
  by_cases hs : segs = []
  · rw [hs, ofSegments_singleton, Text.before_eq_self h.2]
  · have hcut : (ofSegments (s :: segs)).toList = s.toList ++ '/' :: (ofSegments segs).toList := by
      rw [ofSegments_cons s hs]
      simp
    exact Text.before_eq hcut h.2

theorem after_ofSegments {s : String} (h : IsSegment s) (segs : List String) :
    Text.after '/' (ofSegments (s :: segs)) = ofSegments segs := by
  by_cases hs : segs = []
  · rw [hs, ofSegments_singleton, Text.after_eq_empty h.2, ofSegments_nil]
  · have hcut : (ofSegments (s :: segs)).toList = s.toList ++ '/' :: (ofSegments segs).toList := by
      rw [ofSegments_cons s hs]
      simp
    exact Text.after_eq hcut h.2

theorem head?_ofSegments {segs : List String} (h : ∀ s ∈ segs, IsSegment s) :
    (ofSegments segs).toList.head? ≠ some '/' := by
  cases segs with
  | nil => simp [ofSegments_nil]
  | cons s segs =>
    have hs := h s List.mem_cons_self
    have hne : s.toList ≠ [] := by simpa using hs.1
    have hhead : (ofSegments (s :: segs)).toList.head? = s.toList.head? := by
      by_cases hsegs : segs = []
      · rw [hsegs, ofSegments_singleton]
      · rw [ofSegments_cons s hsegs, String.append_assoc, String.toList_append, List.head?_append,
          Option.or_of_isSome (List.isSome_head?.2 hne)]
    rw [hhead]
    exact fun hc => hs.2 (List.mem_of_head? hc)

theorem getLast?_ofSegments {segs : List String} (h : ∀ s ∈ segs, IsSegment s) :
    (ofSegments segs).toList.getLast? ≠ some '/' := by
  induction segs with
  | nil => simp [ofSegments_nil]
  | cons s segs ih =>
    rw [List.forall_mem_cons] at h
    by_cases hsegs : segs = []
    · rw [hsegs, ofSegments_singleton]
      exact fun hc => h.1.2 (List.mem_of_getLast? hc)
    · have hne : (ofSegments segs).toList ≠ [] := by
        simpa using ofSegments_ne_empty h.2 hsegs
      rw [ofSegments_cons s hsegs, String.toList_append, List.getLast?_append_of_ne_nil _ hne]
      exact ih h.2

theorem mem_ofSegments {c : Char} {segs : List String} (h : c ∈ (ofSegments segs).toList) :
    c = '/' ∨ ∃ s ∈ segs, c ∈ s.toList := by
  induction segs with
  | nil => simp [ofSegments_nil] at h
  | cons s segs ih =>
    by_cases hsegs : segs = []
    · rw [hsegs, ofSegments_singleton] at h
      exact .inr ⟨s, List.mem_cons_self, h⟩
    · rw [ofSegments_cons s hsegs] at h
      simp only [String.toList_append, List.mem_append] at h
      rcases h with (h | h) | h
      · exact .inr ⟨s, List.mem_cons_self, h⟩
      · exact .inl (by simpa using h)
      · exact (ih h).imp_right fun ⟨t, ht, hc⟩ => ⟨t, List.mem_cons_of_mem s ht, hc⟩

/-! ## The segments of a text -/

/-- Whether a text consists of segments: it is written from them in order, with slashes after all
but the last, and with as many more slashes at any of these places and at the ends. -/
inductive HasSegments : String → List String → Prop where
  | empty : HasSegments "" []
  | slash {rest : String} {segs : List String} (h : HasSegments rest segs) :
      HasSegments ("/" ++ rest) segs
  | last {seg : String} (hseg : IsSegment seg) : HasSegments seg [seg]
  | segment {seg rest : String} {segs : List String} (hseg : IsSegment seg)
      (h : HasSegments rest segs) : HasSegments (seg ++ "/" ++ rest) (seg :: segs)

theorem HasSegments.segments_eq {path : String} {segs : List String} (h : HasSegments path segs) :
    segments path = segs := by
  induction h with
  | empty => exact segments_empty
  | @slash rest segs _ ih =>
    have hslash := segments_slash "" rest
    rwa [String.empty_append, segments_empty, List.nil_append, ih] at hslash
  | last hseg => exact segments_of_isSegment hseg
  | segment hseg _ ih => rw [segments_slash, segments_of_isSegment hseg, ih, List.singleton_append]

/-- Parts without slashes make a text of which the segments are those that are not empty. -/
theorem hasSegments_ofSegments {parts : List String} (h : ∀ part ∈ parts, '/' ∉ part.toList) :
    HasSegments (ofSegments parts) (parts.filter (· ≠ "")) := by
  induction parts with
  | nil => exact .empty
  | cons part parts ih =>
    rw [List.forall_mem_cons] at h
    by_cases hparts : parts = []
    · rw [hparts, ofSegments_singleton]
      by_cases hpart : part = ""
      · simpa [hpart] using HasSegments.empty
      · simpa [hpart] using HasSegments.last ⟨hpart, h.1⟩
    · rw [ofSegments_cons part hparts]
      by_cases hpart : part = ""
      · simpa [hpart] using (ih h.2).slash
      · simpa [hpart] using (ih h.2).segment ⟨hpart, h.1⟩

/-- A text has the segments that it is cut into and no others. -/
theorem hasSegments_iff {path : String} {segs : List String} :
    HasSegments path segs ↔ segments path = segs := by
  refine ⟨HasSegments.segments_eq, ?_⟩
  rintro rfl
  have hparts : HasSegments (ofSegments (Text.split '/' path)) (segments path) :=
    hasSegments_ofSegments fun _ => Text.not_mem_of_mem_split
  rwa [ofSegments_split] at hparts

theorem filter_of_isSegment {s : String} (h : IsSegment s) :
    s.toList.filter (· ≠ '/') = s.toList := by
  rw [List.filter_eq_self]
  exact fun c hc => decide_eq_true fun e => h.2 (e ▸ hc)

/-- The segments hold all that a path does but its slashes. -/
theorem flatMap_segments (path : String) :
    (segments path).flatMap String.toList = path.toList.filter (· ≠ '/') := by
  generalize hsegs : segments path = segs
  rw [← hasSegments_iff] at hsegs
  induction hsegs with
  | empty => rfl
  | slash _ ih => simp [ih]
  | last hseg => rw [List.flatMap_singleton, filter_of_isSegment hseg]
  | segment hseg _ ih =>
    rw [List.flatMap_cons, ih, String.toList_append, String.toList_append, List.filter_append,
      List.filter_append, filter_of_isSegment hseg]
    simp

/-! ## Length in bytes -/

theorem utf8ByteSize_append_lt {xs ys : List String} (h : ∀ s ∈ xs ++ ys, IsSegment s)
    (hy : ys ≠ []) : (ofSegments xs).utf8ByteSize < (ofSegments (xs ++ ys)).utf8ByteSize := by
  by_cases hx : xs = []
  · subst hx
    have := ofSegments_ne_empty h hy
    rw [ofSegments_nil, List.nil_append]
    exact Nat.pos_of_ne_zero fun e => this (String.utf8ByteSize_eq_zero_iff.mp e)
  · rw [ofSegments_append hx hy, String.utf8ByteSize_append, String.utf8ByteSize_append]
    have : "/".utf8ByteSize = 1 := rfl
    omega

/-- Of normal paths over the same path the one with more segments is the longer text. -/
theorem utf8ByteSize_lt_of_length_lt {a b : String} {whole : List String} (ha : IsNormal a)
    (hb : IsNormal b) (pa : segments a <+: whole) (pb : segments b <+: whole)
    (h : (segments a).length < (segments b).length) : a.utf8ByteSize < b.utf8ByteSize := by
  obtain ⟨more, e⟩ := List.prefix_of_prefix_length_le pa pb (Nat.le_of_lt h)
  have hne : more ≠ [] := by rintro rfl; rw [← e] at h; simp at h
  rw [← ha, ← hb, normalize, normalize, ← e]
  exact utf8ByteSize_append_lt (fun s hs => isSegment_of_mem_segments (e ▸ hs)) hne

/-- Normal paths over the same path are equal if they have as many segments. -/
theorem eq_of_length_eq {a b : String} {whole : List String} (ha : IsNormal a) (hb : IsNormal b)
    (pa : segments a <+: whole) (pb : segments b <+: whole)
    (h : (segments a).length = (segments b).length) : a = b :=
  ha.ext hb ((List.prefix_of_prefix_length_le pa pb (Nat.le_of_eq h)).eq_of_length h)

/-- On normal paths over the same path, the length of the text orders as the number of segments. -/
theorem utf8ByteSize_lt_iff {a b : String} {whole : List String} (ha : IsNormal a)
    (hb : IsNormal b) (pa : segments a <+: whole) (pb : segments b <+: whole) :
    a.utf8ByteSize < b.utf8ByteSize ↔ (segments a).length < (segments b).length := by
  refine ⟨fun h => ?_, utf8ByteSize_lt_of_length_lt ha hb pa pb⟩
  rcases Nat.lt_trichotomy (segments a).length (segments b).length with l | l | l
  · exact l
  · rw [eq_of_length_eq ha hb pa pb l] at h; omega
  · have := utf8ByteSize_lt_of_length_lt hb ha pb pa l; omega

/-- Normal paths over the same path are equal if their texts are as long. -/
theorem eq_of_utf8ByteSize_eq {a b : String} {whole : List String} (ha : IsNormal a)
    (hb : IsNormal b) (pa : segments a <+: whole) (pb : segments b <+: whole)
    (h : a.utf8ByteSize = b.utf8ByteSize) : a = b := by
  have h₁ := utf8ByteSize_lt_iff ha hb pa pb
  have h₂ := utf8ByteSize_lt_iff hb ha pb pa
  exact eq_of_length_eq ha hb pa pb (by omega)

end RegistryAuth.RepositoryPath
