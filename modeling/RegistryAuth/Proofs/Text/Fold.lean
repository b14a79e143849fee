import RegistryAuth.Proofs.Text.Cut
import RegistryAuth.Text.Blank
import RegistryAuth.Text.Fold

/-!
# Lower case

Lower case moves the capital letters of ASCII and no other character (`toNat_toLower`). So a
character that is neither capital nor small stands where it stood (`mem_lower_iff`), a text is cut
there before as after (`before_lower`), and blanks stay blanks (`hasBlank_lower`).
-/

namespace RegistryAuth.Text

/-! ## Characters -/

theorem toNat_toLower (c : Char) :
    c.toLower.toNat = if 65 ≤ c.toNat ∧ c.toNat ≤ 90 then c.toNat + 32 else c.toNat := by
  have hval : c.toNat = c.val.toNat := rfl
  have hcond : (c.val ≥ 'A'.val ∧ c.val ≤ 'Z'.val) ↔ 65 ≤ c.toNat ∧ c.toNat ≤ 90 := by
    rw [ge_iff_le, UInt32.le_iff_toNat_le, UInt32.le_iff_toNat_le]
    rfl
  delta Char.toLower
  split
  · next h =>
    rw [if_pos (hcond.1 h)]
    have := hcond.1 h
    show (c.val + ('a'.val - 'A'.val)).toNat = _
    rw [UInt32.toNat_add, hval]
    show (c.val.toNat + 32) % 2 ^ 32 = _
    omega
  · next h => rw [if_neg (mt hcond.2 h)]

theorem toLower_toLower (c : Char) : c.toLower.toLower = c.toLower := by
  apply Char.toNat_inj.mp
  simp only [toNat_toLower]
  grind

/-- Whether a character is a letter of ASCII. -/
def IsLetter (c : Char) : Prop :=
  65 ≤ c.toNat ∧ c.toNat ≤ 90 ∨ 97 ≤ c.toNat ∧ c.toNat ≤ 122

instance (c : Char) : Decidable (IsLetter c) := inferInstanceAs (Decidable (_ ∨ _))

theorem toLower_eq_iff {c x : Char} (hc : ¬ IsLetter c) : x.toLower = c ↔ x = c := by
  rw [← Char.toNat_inj, ← Char.toNat_inj, toNat_toLower]
  rw [IsLetter] at hc
  grind

theorem isBlank_iff (c : Char) : isBlank c = true ↔
    ∃ range ∈ blankRanges, range.1 ≤ c.toNat ∧ c.toNat ≤ range.2 := by
  simp [isBlank]

theorem isBlank_toLower (c : Char) : isBlank c.toLower = isBlank c := by
  rw [Bool.eq_iff_iff, isBlank_iff, isBlank_iff, toNat_toLower]
  simp [blankRanges]
  grind

/-! ## Texts -/

theorem toList_lower (s : String) : (lower s).toList = s.toList.map Char.toLower :=
  String.toList_ofList

theorem lower_lower (s : String) : lower (lower s) = lower s := by
  apply String.toList_inj.mp
  rw [toList_lower, toList_lower, List.map_map]
  exact List.map_congr_left fun c _ => toLower_toLower c

theorem lower_append (s t : String) : lower (s ++ t) = lower s ++ lower t := by
  apply String.toList_inj.mp
  rw [toList_lower, String.toList_append, List.map_append, String.toList_append, toList_lower,
    toList_lower]

theorem lower_eq_empty_iff {s : String} : lower s = "" ↔ s = "" := by
  rw [← String.toList_inj, ← String.toList_inj, toList_lower]
  exact List.map_eq_nil_iff

theorem mem_lower_iff {c : Char} (hc : ¬ IsLetter c) {s : String} :
    c ∈ (lower s).toList ↔ c ∈ s.toList := by
  rw [toList_lower, List.mem_map]
  exact ⟨fun ⟨x, hx, h⟩ => (toLower_eq_iff hc).1 h ▸ hx, fun h => ⟨c, h, (toLower_eq_iff hc).2 rfl⟩⟩

theorem toList_lower_of_mem {c : Char} (hc : ¬ IsLetter c) {s : String} (h : c ∈ s.toList) :
    (lower s).toList = (lower (before c s)).toList ++ c :: (lower (after c s)).toList := by
  have hlower := congrArg (List.map Char.toLower) (toList_eq_of_mem h)
  rwa [List.map_append, List.map_cons, (toLower_eq_iff hc).2 rfl, ← toList_lower, ← toList_lower,
    ← toList_lower] at hlower

theorem before_lower {c : Char} (hc : ¬ IsLetter c) (s : String) :
    before c (lower s) = lower (before c s) := by
  by_cases h : c ∈ s.toList
  · exact before_eq (toList_lower_of_mem hc h) (mt (mem_lower_iff hc).1 (not_mem_before c s))
  · rw [before_eq_self h, before_eq_self (mt (mem_lower_iff hc).1 h)]

theorem after_lower {c : Char} (hc : ¬ IsLetter c) (s : String) :
    after c (lower s) = lower (after c s) := by
  by_cases h : c ∈ s.toList
  · exact after_eq (toList_lower_of_mem hc h) (mt (mem_lower_iff hc).1 (not_mem_before c s))
  · rw [after_eq_empty h, after_eq_empty (mt (mem_lower_iff hc).1 h)]
    rfl

theorem dropFolded?_eq_some_iff {start s rest : String} :
    dropFolded? start s = some rest ↔ ∃ a, lower a = lower start ∧ s = a ++ rest := by
  rw [dropFolded?]
  refine ⟨fun h => ?_, ?_⟩
  · split at h
    · next hl =>
      refine ⟨_, hl, String.toList_inj.mp ?_⟩
      rw [← Option.some.inj h]
      simp
    · cases h
  · rintro ⟨a, ha, rfl⟩
    have hlen : start.toList.length = a.toList.length := by
      have := congrArg (fun s => s.toList.length) ha
      simpa [toList_lower] using this.symm
    rw [hlen, String.toList_append, List.take_left, List.drop_left, String.ofList_toList,
      String.ofList_toList, if_pos ha]

theorem hasBlank_lower (s : String) : hasBlank (lower s) = hasBlank s := by
  have h : isBlank ∘ Char.toLower = isBlank := funext isBlank_toLower
  rw [hasBlank, toList_lower, List.any_map, h, hasBlank]

end RegistryAuth.Text
