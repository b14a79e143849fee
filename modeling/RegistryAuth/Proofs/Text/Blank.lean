import Mathlib.Data.List.TakeWhile
import RegistryAuth.Text.Blank

/-!
# Trimming

Trimming takes off what blanks stand around a text (`trim_surrounded`), and every text is made up so
(`exists_surrounded`). A text that neither begins nor ends with a blank keeps all its characters
(`trim_eq_self`). What holds no blank may be put in front before or after (`trim_append`), and so may
a trimmed text at the end (`trim_append_right`). At the end alone it is the same (`exists_trimEnd`).
-/

namespace RegistryAuth.Text

/-- Whether a text holds blank characters only. -/
def IsBlankText (s : String) : Prop := ∀ c ∈ s.toList, isBlank c = true

instance (s : String) : Decidable (IsBlankText s) := List.decidableBAll _ s.toList

/-- Whether a text neither begins nor ends with a blank character. -/
structure IsTrimmed (s : String) : Prop where
  head : ∀ c, s.toList.head? = some c → isBlank c = false
  last : ∀ c, s.toList.getLast? = some c → isBlank c = false

theorem toList_trim (s : String) : (trim s).toList =
    ((s.toList.dropWhile isBlank).reverse.dropWhile isBlank).reverse := by
  simp [trim, trimEnd]

theorem dropWhile_eq_self {cs : List Char} (h : ∀ c, cs.head? = some c → isBlank c = false) :
    cs.dropWhile isBlank = cs := by
  cases cs with
  | nil => rfl
  | cons c cs => rw [List.dropWhile_cons_of_neg (by simp [h c rfl])]

theorem trim_eq_self {s : String} (h : IsTrimmed s) : trim s = s := by
  apply String.toList_inj.mp
  rw [toList_trim, dropWhile_eq_self h.head, dropWhile_eq_self, List.reverse_reverse]
  rw [List.head?_reverse]
  exact h.last

/-- Trimming takes off the blanks around a trimmed text. -/
theorem trim_surrounded {a s b : String} (ha : IsBlankText a) (hs : IsTrimmed s) (hne : s ≠ "")
    (hb : IsBlankText b) : trim (a ++ s ++ b) = s := by
  apply String.toList_inj.mp
  have hnil : s.toList ≠ [] := by simpa using hne
  have hhead : (s.toList ++ b.toList).dropWhile isBlank = s.toList ++ b.toList := by
    refine dropWhile_eq_self fun c hc => hs.head c ?_
    rwa [List.head?_append, Option.or_of_isSome (List.isSome_head?.2 hnil)] at hc
  rw [toList_trim, String.toList_append, String.toList_append, List.append_assoc,
    List.dropWhile_append_of_pos ha, hhead, List.reverse_append,
    List.dropWhile_append_of_pos (by simpa [IsBlankText] using hb), dropWhile_eq_self,
    List.reverse_reverse]
  rw [List.head?_reverse]
  exact hs.last

theorem hasBlank_eq_false_iff {s : String} :
    hasBlank s = false ↔ ∀ c ∈ s.toList, isBlank c = false := by
  simp [hasBlank]

theorem hasBlank_append (s t : String) : hasBlank (s ++ t) = (hasBlank s || hasBlank t) := by
  rw [hasBlank, String.toList_append, List.any_append, hasBlank, hasBlank]

theorem isTrimmed_of_hasBlank {s : String} (h : hasBlank s = false) : IsTrimmed s := by
  rw [hasBlank_eq_false_iff] at h
  exact ⟨fun c hc => h c (List.mem_of_head? hc), fun c hc => h c (List.mem_of_getLast? hc)⟩

/-- A text is what trimming leaves with blanks around it. -/
theorem exists_surrounded (s : String) : ∃ front back, IsBlankText front ∧ IsBlankText back ∧
    IsTrimmed (trim s) ∧ s = front ++ trim s ++ back := by
  have hs := List.takeWhile_append_dropWhile (p := isBlank) (l := s.toList)
  generalize hr : s.toList.dropWhile isBlank = r at hs
  have hrev := List.takeWhile_append_dropWhile (p := isBlank) (l := r.reverse)
  have htrim : (trim s).toList = (r.reverse.dropWhile isBlank).reverse := by rw [toList_trim, hr]
  have hback : (trim s).toList ++ (r.reverse.takeWhile isBlank).reverse = r := by
    rw [htrim, ← List.reverse_append, hrev, List.reverse_reverse]
  refine ⟨String.ofList (s.toList.takeWhile isBlank),
    String.ofList (r.reverse.takeWhile isBlank).reverse, ?_, ?_, ⟨?_, ?_⟩, ?_⟩
  · intro c hc
    rw [String.toList_ofList] at hc
    exact List.mem_takeWhile_imp hc
  · intro c hc
    rw [String.toList_ofList, List.mem_reverse] at hc
    exact List.mem_takeWhile_imp hc
  · intro c hc
    have hhead : r.head? = some c := by rw [← hback, List.head?_append, hc]; rfl
    have := List.head?_dropWhile_not isBlank s.toList
    rw [hr, hhead] at this
    simpa using this
  · intro c hc
    have := List.head?_dropWhile_not isBlank r.reverse
    rw [htrim, List.getLast?_reverse] at hc
    rw [hc] at this
    simpa using this
  · apply String.toList_inj.mp
    rw [String.toList_append, String.toList_append, String.toList_ofList, String.toList_ofList,
      List.append_assoc, hback, hs]

/-- Of blanks alone trimming leaves nothing. -/
theorem trim_eq_empty_iff {s : String} : trim s = "" ↔ IsBlankText s := by
  refine ⟨fun h => ?_, fun h => ?_⟩
  · obtain ⟨front, back, hf, hb, -, hs⟩ := exists_surrounded s
    intro c hc
    rw [hs, h, String.append_empty, String.toList_append] at hc
    exact (List.mem_append.1 hc).elim (hf c) (hb c)
  · apply String.toList_inj.mp
    rw [toList_trim, List.dropWhile_eq_nil_iff.2 h]
    rfl

theorem mem_of_mem_trim {c : Char} {s : String} (h : c ∈ (trim s).toList) : c ∈ s.toList := by
  obtain ⟨front, back, -, -, -, hs⟩ := exists_surrounded s
  rw [hs, String.toList_append, String.toList_append]
  exact List.mem_append_left _ (List.mem_append_right _ h)

theorem IsTrimmed.append {a s : String} (ha : hasBlank a = false) (hne : a ≠ "")
    (hs : ∀ c, s.toList.getLast? = some c → isBlank c = false) : IsTrimmed (a ++ s) := by
  have hnil : a.toList ≠ [] := by simpa using hne
  have ha' := isTrimmed_of_hasBlank ha
  refine ⟨fun c hc => ha'.head c ?_, fun c hc => ?_⟩
  · rwa [String.toList_append, List.head?_append, Option.or_of_isSome (List.isSome_head?.2 hnil)]
      at hc
  · by_cases h : s = ""
    · rw [h, String.append_empty] at hc
      exact ha'.last c hc
    · have hs' : s.toList ≠ [] := by simpa using h
      rw [String.toList_append, List.getLast?_append,
        Option.or_of_isSome (List.getLast?_isSome.2 hs')] at hc
      exact hs c hc

/-- A text that does not begin with a blank has none in front of what trimming leaves. -/
theorem exists_trim_append {s : String} (hs : ∀ c, s.toList.head? = some c → isBlank c = false) :
    ∃ back, IsBlankText back ∧ IsTrimmed (trim s) ∧ s = trim s ++ back := by
  obtain ⟨front, back, hfront, hback, htrim, h⟩ := exists_surrounded s
  have hempty : front = "" := by
    rw [← String.toList_eq_nil_iff, List.eq_nil_iff_forall_not_mem]
    intro x hx
    obtain ⟨c, cs, hc⟩ := List.exists_cons_of_ne_nil (List.ne_nil_of_mem hx)
    have hblank := hs c (by rw [h, String.toList_append, String.toList_append, hc]; rfl)
    rw [hfront c (by simp [hc])] at hblank
    cases hblank
  rw [hempty, String.empty_append] at h
  exact ⟨back, hback, htrim, h⟩

/-- What stands in front of a text and holds no blank is left there when the text is trimmed. -/
theorem trim_append {a s : String} (ha : hasBlank a = false)
    (hs : ∀ c, s.toList.head? = some c → isBlank c = false) : trim (a ++ s) = a ++ trim s := by
  by_cases hne : a = ""
  · rw [hne, String.empty_append, String.empty_append]
  · obtain ⟨back, hback, htrim, h⟩ := exists_trim_append hs
    have heq : a ++ s = "" ++ (a ++ trim s) ++ back := by
      rw [String.empty_append, String.append_assoc, ← h]
    rw [heq]
    exact trim_surrounded (by simp [IsBlankText]) (IsTrimmed.append ha hne htrim.last)
      (by simp [hne]) hback

/-- A text that does not end with a blank has none behind what trimming leaves. -/
theorem exists_append_trim {s : String} (hs : ∀ c, s.toList.getLast? = some c → isBlank c = false) :
    ∃ front, IsBlankText front ∧ IsTrimmed (trim s) ∧ s = front ++ trim s := by
  obtain ⟨front, back, hfront, hback, htrim, h⟩ := exists_surrounded s
  have hempty : back = "" := by
    by_contra hne
    have hnil : back.toList ≠ [] := by simpa using hne
    obtain ⟨c, hc⟩ := Option.isSome_iff_exists.1 (List.getLast?_isSome.2 hnil)
    have hblank := hs c (by rw [h, String.toList_append, List.getLast?_append, hc]; rfl)
    rw [hback c (List.mem_of_getLast? hc)] at hblank
    cases hblank
  rw [hempty, String.append_empty] at h
  exact ⟨front, hfront, htrim, h⟩

theorem IsTrimmed.append_right {s x : String}
    (hs : ∀ c, s.toList.head? = some c → isBlank c = false) (hx : IsTrimmed x) (hne : x ≠ "") :
    IsTrimmed (s ++ x) := by
  have hnil : x.toList ≠ [] := by simpa using hne
  refine ⟨fun c hc => ?_, fun c hc => hx.last c ?_⟩
  · rw [String.toList_append, List.head?_append] at hc
    cases hhead : s.toList.head? with
    | none => exact hx.head c (by rwa [hhead] at hc)
    | some d => exact hs c (by rw [hhead] at hc ⊢; exact hc)
  · rwa [String.toList_append, List.getLast?_append, Option.or_of_isSome
      (List.getLast?_isSome.2 hnil)] at hc

/-- A trimmed text at the end is left there when the whole is trimmed, unless a blank stands right
before it. -/
theorem trim_append_right {s x : String}
    (hs : ∀ c, s.toList.getLast? = some c → isBlank c = false) (hx : IsTrimmed x) :
    trim (s ++ x) = trim s ++ x := by
  by_cases hne : x = ""
  · rw [hne, String.append_empty, String.append_empty]
  · obtain ⟨front, hfront, htrim, h⟩ := exists_append_trim hs
    have heq : s ++ x = front ++ (trim s ++ x) ++ "" := by
      rw [String.append_empty, ← String.append_assoc, ← h]
    rw [heq]
    exact trim_surrounded hfront (IsTrimmed.append_right htrim.head hx hne) (by simp [hne])
      (by simp [IsBlankText])

/-! ## At the end alone -/

theorem toList_trimEnd (s : String) :
    (trimEnd s).toList = (s.toList.reverse.dropWhile isBlank).reverse :=
  String.toList_ofList

theorem trimEnd_eq_self {s : String} (h : ∀ c, s.toList.getLast? = some c → isBlank c = false) :
    trimEnd s = s := by
  apply String.toList_inj.mp
  rw [toList_trimEnd, dropWhile_eq_self, List.reverse_reverse]
  rwa [List.head?_reverse]

/-- A text is what is left without the blanks at its end and these blanks. -/
theorem exists_trimEnd (s : String) : ∃ back, IsBlankText back ∧
    (∀ c, (trimEnd s).toList.getLast? = some c → isBlank c = false) ∧ s = trimEnd s ++ back := by
  refine ⟨String.ofList (s.toList.reverse.takeWhile isBlank).reverse, fun c hc => ?_, fun c hc => ?_,
    String.toList_inj.mp ?_⟩
  · rw [String.toList_ofList, List.mem_reverse] at hc
    exact List.mem_takeWhile_imp hc
  · have hhead := List.head?_dropWhile_not isBlank s.toList.reverse
    rw [toList_trimEnd, List.getLast?_reverse] at hc
    rw [hc] at hhead
    simpa using hhead
  · rw [String.toList_append, toList_trimEnd, String.toList_ofList, ← List.reverse_append,
      List.takeWhile_append_dropWhile, List.reverse_reverse]

end RegistryAuth.Text
