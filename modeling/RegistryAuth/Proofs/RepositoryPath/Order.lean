import RegistryAuth.Proofs.RepositoryPath.Segments
import RegistryAuth.Text.Utf8

/-!
# The order of paths

Whether a path lies under another one is a comparison of their texts, which may as well be made on
the bytes (`liesUnder_iff_utf8`). It orders the paths, and those over the same one form a chain
(`liesUnder_trans`, `liesUnder_antisymm`, `liesUnder_or_liesUnder`), in which the longer text lies
under the shorter one (`liesUnder_of_utf8ByteSize_le`). On normal paths, to lie under a path is to
have its segments in front (`liesUnder_iff`). Main statement: how any two texts compare once they
are made normal, and the laws of the order (`liesUnder_order`).
-/

namespace RegistryAuth.RepositoryPath

open Text (utf8 utf8_append utf8_prefix_iff)

/-! ## As texts -/

theorem liesUnder_iff_utf8 {path top : String} : liesUnder path top = true ↔
    top = "" ∨ path = top ∨ utf8 top ++ utf8 "/" <+: utf8 path := by
  have hslash : (top ++ "/").toList = top.toList ++ ['/'] := by simp
  rw [← utf8_append, utf8_prefix_iff, hslash]
  simp [liesUnder, or_assoc]

/-- What lies under a path goes on after it with a slash, unless it is the path itself. -/
theorem liesUnder_iff_exists {path top : String} : liesUnder path top = true ↔
    top = "" ∨ path = top ∨ ∃ rest, path = top ++ "/" ++ rest := by
  simp only [liesUnder, Bool.or_eq_true, decide_eq_true_eq, List.isPrefixOf_iff_prefix, or_assoc]
  refine or_congr_right (or_congr_right ⟨fun ⟨rest, h⟩ => ⟨String.ofList rest, ?_⟩,
    fun ⟨rest, h⟩ => ⟨rest.toList, ?_⟩⟩)
  · apply String.toList_inj.mp
    simp [← h]
  · simp [h]

/-- With a slash at the end of both, to lie under a path is to start with it. -/
theorem liesUnder_iff_startsWith {path top : String} : liesUnder path top = true ↔
    top = "" ∨ top.toList ++ ['/'] <+: path.toList ++ ['/'] := by
  rw [liesUnder_iff_exists, List.prefix_concat_iff]
  refine or_congr_right (or_congr ?_ ⟨fun ⟨rest, h⟩ => ⟨rest.toList, by simp [h]⟩, ?_⟩)
  · rw [List.append_left_inj, String.toList_inj, eq_comm]
  · rintro ⟨rest, h⟩
    refine ⟨String.ofList rest, String.toList_inj.mp ?_⟩
    simp [← h]

theorem liesUnder_self (path : String) : liesUnder path path = true :=
  liesUnder_iff_exists.2 (.inr (.inl rfl))

theorem liesUnder_trans {a b c : String} (hcb : liesUnder c b = true) (hba : liesUnder b a = true) :
    liesUnder c a = true := by
  rw [liesUnder_iff_startsWith] at *
  rcases hba with ha | hba
  · exact .inl ha
  · rcases hcb with rfl | hcb
    · refine .inl ?_
      simpa using hba.length_le
    · exact .inr (hba.trans hcb)

/-- Only a path itself lies under it and over it. -/
theorem liesUnder_antisymm {a b : String} (hab : liesUnder a b = true)
    (hba : liesUnder b a = true) : a = b := by
  rw [liesUnder_iff_startsWith] at hab hba
  rcases hab with rfl | hab <;> rcases hba with rfl | hba
  · rfl
  · simpa using hba.length_le
  · simpa using hab.length_le
  · have htexts := hba.eq_of_length_le hab.length_le
    exact String.toList_inj.1 (List.append_cancel_right htexts)

/-- The paths over the same one form a chain. -/
theorem liesUnder_or_liesUnder {path a b : String} (ha : liesUnder path a = true)
    (hb : liesUnder path b = true) : liesUnder a b = true ∨ liesUnder b a = true := by
  rw [liesUnder_iff_startsWith] at ha hb
  rw [liesUnder_iff_startsWith, liesUnder_iff_startsWith]
  rcases ha with ha | ha
  · exact .inr (.inl ha)
  rcases hb with hb | hb
  · exact .inl (.inl hb)
  · exact (List.prefix_or_prefix_of_prefix hb ha).imp .inr .inr

/-- Of two paths over the same one the longer lies under the other. -/
theorem liesUnder_of_utf8ByteSize_le {path a b : String} (ha : liesUnder path a = true)
    (hb : liesUnder path b = true) (h : a.utf8ByteSize ≤ b.utf8ByteSize) :
    liesUnder b a = true := by
  refine (liesUnder_or_liesUnder hb ha).elim id fun hab => ?_
  rcases liesUnder_iff_exists.1 hab with rfl | rfl | ⟨rest, rfl⟩
  · exact liesUnder_iff_exists.2 (.inl (String.utf8ByteSize_eq_zero_iff.1 (Nat.le_zero.1 h)))
  · exact liesUnder_self _
  · have hslash : "/".utf8ByteSize = 1 := rfl
    rw [String.utf8ByteSize_append, String.utf8ByteSize_append] at h
    omega

/-! ## Segments in front -/

/-- A path whose segments continue those of another one lies under it. -/
theorem liesUnder_append (xs ys : List String) :
    liesUnder (ofSegments (xs ++ ys)) (ofSegments xs) = true := by
  by_cases hx : xs = []
  · simp [liesUnder, hx, ofSegments_nil]
  by_cases hy : ys = []
  · simp [liesUnder, hy]
  · have e : (ofSegments (xs ++ ys)).toList =
        (ofSegments xs).toList ++ ['/'] ++ (ofSegments ys).toList := by
      rw [ofSegments_append hx hy]; simp
    simp [liesUnder, e]

/-- On normal paths, to lie under a path is to have its segments in front. -/
theorem liesUnder_iff {path top : String} (hp : IsNormal path) (ht : IsNormal top) :
    liesUnder path top = true ↔ segments top <+: segments path := by
  refine ⟨fun h => ?_, fun ⟨more, h⟩ => ?_⟩
  · rcases liesUnder_iff_exists.1 h with rfl | rfl | ⟨rest, rfl⟩
    · rw [segments_empty]; exact List.nil_prefix
    · exact List.prefix_rfl
    · rw [segments_slash]; exact List.prefix_append _ _
  · rw [← hp, ← ht, normalize, normalize, ← h]
    exact liesUnder_append _ _

theorem liesUnder_normalize_iff {path top : String} :
    liesUnder (normalize path) (normalize top) = true ↔ segments top <+: segments path := by
  rw [liesUnder_iff (isNormal_normalize path) (isNormal_normalize top), segments_normalize,
    segments_normalize]

/-- To lie under a path compares the bytes of two texts and asks for a slash where the shorter one
ends. Once both are made normal, which a second time changes nothing, it is to have the segments of
the other path in front. It orders all paths, and those over the same one form a chain. -/
theorem liesUnder_order :
    (∀ path segs, HasSegments path segs ↔ segments path = segs) ∧
    (∀ path top, liesUnder path top = true ↔
      top = "" ∨ path = top ∨ utf8 top ++ utf8 "/" <+: utf8 path) ∧
    (∀ a b, liesUnder (normalize a) (normalize b) = true ↔ segments b <+: segments a) ∧
    (∀ a, normalize (normalize a) = normalize a) ∧
    (∀ a, liesUnder a a = true) ∧
    (∀ a b c, liesUnder a b = true → liesUnder b c = true → liesUnder a c = true) ∧
    (∀ a b, liesUnder a b = true → liesUnder b a = true → a = b) ∧
    ∀ path a b, liesUnder path a = true → liesUnder path b = true →
      liesUnder a b = true ∨ liesUnder b a = true :=
  ⟨fun _ _ => hasSegments_iff, fun _ _ => liesUnder_iff_utf8, fun _ _ => liesUnder_normalize_iff,
    isNormal_normalize, liesUnder_self, fun _ _ _ => liesUnder_trans, fun _ _ => liesUnder_antisymm,
    fun _ _ _ => liesUnder_or_liesUnder⟩

/-- An image, its repository with slashes too many and without them, and the namespace of both. -/
theorem liesUnder_order_image :
    HasSegments "/ns//img/" ["ns", "img"] ∧
    liesUnder (normalize "ns/img/v1") (normalize "/ns//img/") = true ∧
    liesUnder (normalize "/ns//img/") (normalize "ns/") = true ∧
    liesUnder (normalize "ns/img/v1") (normalize "ns/") = true ∧
    (liesUnder (normalize "/ns//img/") (normalize "ns/") = true ∨
      liesUnder (normalize "ns/") (normalize "/ns//img/") = true) ∧
    liesUnder (normalize "/ns//img/") (normalize "ns/img") = true ∧
    liesUnder (normalize "ns/img") (normalize "/ns//img/") = true ∧
    normalize "/ns//img/" = normalize "ns/img" ∧
    ¬ liesUnder (normalize "/ns//img/") (normalize "ns/im") = true := by
  obtain ⟨hread, -, hsegments, -, -, htrans, hantisymm, hchain⟩ := liesUnder_order
  have himage : liesUnder (normalize "ns/img/v1") (normalize "/ns//img/") = true := by decide
  have hns : liesUnder (normalize "/ns//img/") (normalize "ns/") = true := by decide
  have hunder : liesUnder (normalize "/ns//img/") (normalize "ns/img") = true := by decide
  have hover : liesUnder (normalize "ns/img") (normalize "/ns//img/") = true := by decide
  have hall := htrans _ _ _ himage hns
  refine ⟨(hread _ _).2 (by decide), himage, hns, hall, hchain _ _ _ himage hall, hunder, hover,
    hantisymm _ _ hunder hover, ?_⟩
  rw [hsegments]
  decide

end RegistryAuth.RepositoryPath
