import Mathlib.Data.List.TakeWhile
import RegistryAuth.Text.Cut

/-!
# Cutting and joining

A text around a separator that the left side does not hold is cut right there (`before_eq`,
`after_eq`), and so every text is that holds one (`toList_eq_of_mem`). Of separators at the end
nothing else is dropped (`exists_dropTrailing`). The parts of a cut text hold no separator
(`not_mem_of_mem_split`), parts without the separator come back from their join (`split_join`), and
a separator between two texts parts their cuts (`split_append_cons`).
-/

namespace RegistryAuth.Text

variable {c x : Char} {s a b : String}

/-! ## At the first separator -/

theorem bne_of_not_mem {cs : List Char} (h : c ∉ cs) : ∀ x ∈ cs, (x != c) = true :=
  fun _ hx => bne_iff_ne.2 fun e => h (e ▸ hx)

theorem before_eq (h : s.toList = a.toList ++ c :: b.toList) (ha : c ∉ a.toList) :
    before c s = a := by
  rw [before, h, List.takeWhile_append_of_pos (bne_of_not_mem ha),
    List.takeWhile_cons_of_neg (by simp), List.append_nil, String.ofList_toList]

theorem before_append (h : c ∉ a.toList) : before c (a ++ s) = a ++ before c s := by
  apply String.toList_inj.mp
  rw [before, String.toList_append, List.takeWhile_append_of_pos (bne_of_not_mem h)]
  simp [before]

theorem after_eq (h : s.toList = a.toList ++ c :: b.toList) (ha : c ∉ a.toList) :
    after c s = b := by
  rw [after, h, List.dropWhile_append_of_pos (bne_of_not_mem ha),
    List.dropWhile_cons_of_neg (by simp), List.drop_one, List.tail_cons, String.ofList_toList]

theorem before_eq_self (h : c ∉ s.toList) : before c s = s := by
  rw [before, List.takeWhile_eq_self_iff.2 (bne_of_not_mem h), String.ofList_toList]

theorem after_eq_empty (h : c ∉ s.toList) : after c s = "" := by
  rw [after, List.dropWhile_eq_nil_iff.2 (bne_of_not_mem h)]
  rfl

theorem not_mem_before (c : Char) (s : String) : c ∉ (before c s).toList := by
  rw [before, String.toList_ofList]
  intro h
  simpa using List.mem_takeWhile_imp h

theorem mem_of_mem_before (h : x ∈ (before c s).toList) : x ∈ s.toList := by
  rw [before, String.toList_ofList] at h
  exact List.takeWhile_subset _ h

theorem toList_eq_of_mem (h : c ∈ s.toList) :
    s.toList = (before c s).toList ++ c :: (after c s).toList := by
  obtain ⟨xs, ys, hs, hx⟩ := List.eq_append_cons_of_mem h
  have hcut : s.toList = (String.ofList xs).toList ++ c :: (String.ofList ys).toList := by
    rw [String.toList_ofList, String.toList_ofList, hs]
  rw [← String.toList_ofList (l := xs)] at hx
  rw [before_eq hcut hx, after_eq hcut hx, hcut]

theorem before_eq_empty_iff : before c s = "" ↔ s = "" ∨ s.toList.head? = some c := by
  rw [← String.toList_eq_nil_iff, ← String.toList_eq_nil_iff, before, String.toList_ofList]
  cases s.toList with
  | nil => simp
  | cons x xs => by_cases hx : x = c <;> simp [hx]

/-- Nothing behind a separator shows before the first one. -/
theorem before_append_cons (h : s.toList = a.toList ++ c :: b.toList) :
    before c s = before c a := by
  by_cases ha : c ∈ a.toList
  · have hcut : s.toList = (before c a).toList ++
        c :: (String.ofList ((after c a).toList ++ c :: b.toList)).toList := by
      rw [h, toList_eq_of_mem ha, String.toList_ofList, List.append_assoc, List.cons_append]
    exact before_eq hcut (not_mem_before c a)
  · rw [before_eq h ha, before_eq_self ha]

/-! ## At the end -/

theorem toList_dropTrailing (c : Char) (s : String) :
    (dropTrailing c s).toList = (s.toList.reverse.dropWhile (· == c)).reverse :=
  String.toList_ofList

theorem dropTrailing_append (h : dropTrailing c s ≠ "") :
    dropTrailing c (a ++ s) = a ++ dropTrailing c s := by
  have hne : s.toList.reverse.dropWhile (· == c) ≠ [] := by
    rw [ne_eq, ← List.reverse_eq_nil_iff, ← toList_dropTrailing]
    simpa using h
  apply String.toList_inj.mp
  rw [toList_dropTrailing, String.toList_append, String.toList_append, List.reverse_append,
    List.dropWhile_append, if_neg (by simpa using hne), List.reverse_append, List.reverse_reverse,
    toList_dropTrailing]

/-- A text is what is left without the `c`s at its end and these `c`s. -/
theorem exists_dropTrailing (c : Char) (s : String) :
    ∃ tail, (∀ x ∈ tail.toList, x = c) ∧ s = dropTrailing c s ++ tail := by
  refine ⟨String.ofList (s.toList.reverse.takeWhile (· == c)).reverse, fun x hx => ?_, ?_⟩
  · rw [String.toList_ofList, List.mem_reverse] at hx
    simpa using List.mem_takeWhile_imp hx
  · apply String.toList_inj.mp
    rw [String.toList_append, toList_dropTrailing, String.toList_ofList, ← List.reverse_append,
      List.takeWhile_append_dropWhile, List.reverse_reverse]

theorem dropTrailing_eq_self (h : s.toList.getLast? ≠ some c) : dropTrailing c s = s := by
  have hrev : s.toList.reverse.dropWhile (· == c) = s.toList.reverse := by
    rw [← List.head?_reverse] at h
    cases hs : s.toList.reverse with
    | nil => rfl
    | cons x xs =>
      rw [hs, List.head?_cons, ne_eq, Option.some.injEq] at h
      exact List.dropWhile_cons_of_neg (by simpa using h)
  rw [dropTrailing, hrev, List.reverse_reverse, String.ofList_toList]

theorem getLast?_dropTrailing (c : Char) (s : String) :
    (dropTrailing c s).toList.getLast? ≠ some c := by
  rw [toList_dropTrailing, List.getLast?_reverse]
  intro h
  have hnot := List.head?_dropWhile_not (· == c) s.toList.reverse
  rw [h] at hnot
  simp at hnot

theorem dropTrailing_eq_empty (h : ∀ x ∈ s.toList, x = c) : dropTrailing c s = "" := by
  rw [← String.toList_eq_nil_iff, toList_dropTrailing, List.reverse_eq_nil_iff,
    List.dropWhile_eq_nil_iff]
  intro x hx
  simpa using h x (List.mem_reverse.1 hx)

/-- Of a text that ends with another character only what stands behind it is dropped. -/
theorem dropTrailing_append_of_last (h : a.toList.getLast? ≠ some c) :
    dropTrailing c (a ++ s) = a ++ dropTrailing c s := by
  by_cases hs : dropTrailing c s = ""
  · have hnil : s.toList.reverse.dropWhile (· == c) = [] := by
      rw [← List.reverse_eq_nil_iff, ← toList_dropTrailing, hs]
      rfl
    apply String.toList_inj.mp
    rw [toList_dropTrailing, String.toList_append, List.reverse_append, List.dropWhile_append,
      hnil, List.isEmpty_nil, if_pos rfl, ← toList_dropTrailing, dropTrailing_eq_self h, hs,
      String.append_empty]
  · exact dropTrailing_append hs

theorem mem_of_mem_dropTrailing (h : x ∈ (dropTrailing c s).toList) : x ∈ s.toList := by
  rw [dropTrailing, String.toList_ofList, List.mem_reverse] at h
  exact List.mem_reverse.1 ((List.dropWhile_sublist _).mem h)

/-! ## At every separator -/

theorem not_mem_of_mem_splitOn {part : List Char} :
    ∀ {cs : List Char}, part ∈ cs.splitOn c → c ∉ part
  | [], h => by
    rw [List.splitOn_nil, List.mem_singleton] at h
    simp [h]
  | x :: cs, h => by
    obtain ⟨first, more, hcs⟩ := List.exists_cons_of_ne_nil (List.splitOn_ne_nil c cs)
    have hfirst : c ∉ first := not_mem_of_mem_splitOn (hcs ▸ List.mem_cons_self)
    have hmore : ∀ p ∈ more, c ∉ p := fun p hp =>
      not_mem_of_mem_splitOn (hcs ▸ List.mem_cons_of_mem _ hp)
    rw [List.splitOn_cons_eq_if_modifyHead, hcs, List.modifyHead_cons] at h
    split at h <;> rename_i hx
    · simp only [List.mem_cons] at h
      rcases h with rfl | rfl | h
      · simp
      · exact hfirst
      · exact hmore _ h
    · rcases List.mem_cons.mp h with rfl | h
      · simp only [beq_iff_eq] at hx
        simp [hfirst, Ne.symm hx]
      · exact hmore _ h

theorem not_mem_of_mem_split {part : String} (h : part ∈ split c s) : c ∉ part.toList := by
  obtain ⟨cs, hcs, rfl⟩ := List.mem_map.mp h
  rw [String.toList_ofList]
  exact not_mem_of_mem_splitOn hcs

theorem mem_of_mem_splitOn {cs part : List Char} (h : part ∈ cs.splitOn c) (hx : x ∈ part) :
    x ∈ cs := by
  induction cs generalizing part with
  | nil =>
    rw [List.splitOn_nil, List.mem_singleton] at h
    rw [h] at hx
    cases hx
  | cons y cs ih =>
    obtain ⟨first, more, hcs⟩ := List.exists_cons_of_ne_nil (List.splitOn_ne_nil c cs)
    rw [hcs] at ih
    rw [List.splitOn_cons_eq_if_modifyHead, hcs, List.modifyHead_cons] at h
    split at h
    · rcases List.mem_cons.1 h with rfl | h
      · cases hx
      · exact List.mem_cons_of_mem y (ih h hx)
    · rcases List.mem_cons.1 h with rfl | h
      · exact List.mem_cons.2 ((List.mem_cons.1 hx).imp id (ih List.mem_cons_self))
      · exact List.mem_cons_of_mem y (ih (List.mem_cons_of_mem _ h) hx)

theorem mem_of_mem_split {part : String} (h : part ∈ split c s) (hx : x ∈ part.toList) :
    x ∈ s.toList := by
  obtain ⟨cs, hcs, rfl⟩ := List.mem_map.mp h
  rw [String.toList_ofList] at hx
  exact mem_of_mem_splitOn hcs hx

theorem split_join {parts : List String} (hne : parts ≠ []) (h : ∀ s ∈ parts, c ∉ s.toList) :
    split c (join c parts) = parts := by
  rw [split, join, String.toList_ofList,
    List.splitOn_intercalate c (by simpa using h) (by simpa using hne)]
  simp

theorem split_eq_singleton (h : c ∉ s.toList) : split c s = [s] := by
  have hjoin : join c [s] = s := by simp [join]
  have hsplit := split_join (List.cons_ne_nil s []) (List.forall_mem_singleton.2 h)
  rwa [hjoin] at hsplit

theorem split_append_cons (h : s.toList = a.toList ++ c :: b.toList) :
    split c s = split c a ++ split c b := by
  rw [split, h, List.splitOn_append_cons_self, List.map_append]
  rfl

end RegistryAuth.Text
